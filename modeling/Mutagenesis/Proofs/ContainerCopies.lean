import Mutagenesis.Proofs.FaithfulCopies
import Mutagenesis.Proofs.ImagesApart

/-!
# Containers as copies of images

A container is made as a copy of an image, and an image is kept as a copy of a container. Both copy
everything, so an image that is kept of a container as it was made has the files of the image that
the container comes from (`copies_faithful`).
-/

set_option autoImplicit false

namespace Mutagenesis

namespace Folder

/-- A link below the rest of a folder is one below the folder. -/
theorem look_rest {f rest : Folder} {name : String} {path : List String} {link : String}
    (hnew : rest.child? name = none)
    (hothers : ∀ other, other ≠ name → f.child? other = rest.child? other)
    (h : rest.look path = some (.link link)) : f.look path = some (.link link) := by
  cases path with
  | nil => cases h
  | cons other path =>
    unfold look at h ⊢
    rw [at?_cons] at h ⊢
    by_cases hname : other = name
    · rw [hname, hnew] at h
      cases h
    · rwa [hothers other hname]

/-- A tidy folder where no link is seen holds none. -/
theorem every_isSolid {f : Folder} (hf : f.isTidy = true)
    (h : ∀ path link, f.look path ≠ some (.link link)) : f.every LocalStore.isSolid = true := by
  induction f with
  | empty => rfl
  | link name link rest _ =>
    exact absurd (by simp [look, at?, child?, Entry.shallow]) (h [name] link)
  | file name _ rest ih =>
    simp only [isTidy, Bool.and_eq_true, isFresh_iff] at hf
    exact ih hf.2 fun path link hlink => h path link (look_rest (child?_eq_none hf.1.2)
      (fun other hname => if_neg (Ne.symm hname)) hlink)
  | sub name children rest ihChildren ih =>
    simp only [isTidy, Bool.and_eq_true, isFresh_iff] at hf
    have hrest := ih hf.2 fun path link hlink => h path link (look_rest (child?_eq_none hf.1.1.2)
      (fun other hname => if_neg (Ne.symm hname)) hlink)
    have hchildren := ihChildren hf.1.2 fun path link hlink => h (name :: path) link (by
      rwa [look, at?_cons, child?, if_pos rfl])
    simp [every, LocalStore.isSolid, hrest, hchildren]

/-- What is taken away is gone. -/
theorem look_eraseAt_self {f : Folder} {place : List String} {name : String}
    (hf : f.isTidy = true) : (f.eraseAt (place ++ [name])).look (place ++ [name]) = none := by
  rw [eraseAt_eq_within]
  by_cases hplace : f.look place = some (.folder .empty)
  · obtain ⟨c, hc⟩ := look_eq_folder.mp hplace
    rw [look, at?_within hc]
    exact congrArg _ (child?_erase_self ((entrywise_isTidy.at? hf hc).2 _ rfl))
  · refine look_below (by simp) ?_
    have hsame : (f.within place (erase name)).look (place ++ []) = f.look (place ++ []) :=
      look_within [] fun _ => rfl
    rw [List.append_nil] at hsame
    rwa [hsame]

end Folder

namespace Disk

theorem pieces_of_notMem {separator : Char} {cs : List Char} (h : separator ∉ cs) :
    Text.pieces separator cs = [cs] := by
  induction cs with
  | nil => rfl
  | cons c cs ih =>
    obtain ⟨hc, hcs⟩ : separator ≠ c ∧ separator ∉ cs := by simpa using h
    rw [Text.pieces, if_neg (Ne.symm hc), ih hcs]

theorem utf8ByteSize_ofList_le (cs : List Char) :
    (String.ofList cs).utf8ByteSize ≤ 4 * cs.length := by
  induction cs with
  | nil => decide
  | cons c cs ih =>
    rw [String.ofList_cons, String.utf8ByteSize_append, String.utf8ByteSize_singleton,
      List.length_cons]
    have := Char.utf8Size_le_four c
    omega

/-- A text of middle length without slashes is a file name. -/
theorem fileName_ofList {cs : List Char} (hslash : '/' ∉ cs) (hlong : 2 < cs.length)
    (hshort : cs.length < 64) : FileName (String.ofList cs) where
  notDot h := by simp [show cs = ['.'] by simpa using congrArg String.toList h] at hlong
  notUp h := by simp [show cs = ['.', '.'] by simpa using congrArg String.toList h] at hlong
  short := by
    have := utf8ByteSize_ofList_le cs
    unfold nameLimit
    omega
  relative := by
    simpa [Path.isAbsolute] using fun h => hslash (List.mem_of_mem_head? h)
  alone := by
    have hne : cs ≠ [] := List.ne_nil_of_length_pos (by omega)
    simp [Path.names, pieces_of_notMem hslash, hne]
  noSlash := by
    simpa [Path.endsInSlash] using fun h => hslash (List.mem_of_getLast? h)

/-- A walk that does not go up takes place on the way to its end. -/
theorem Walks.restrict {view view' : View} {follow : Bool} {g ns p : List String} {stop : Stop}
    (h : Walks view follow g ns stop) (hup : ".." ∉ ns) (hstop : stop = .arrived p)
    (hp : view.FolderAt p) (hsame : ∀ q, q <+: p → view' q = view q) :
    g <+: p ∧ Walks view' follow g ns stop := by
  induction h with
  | here =>
    cases hstop
    exact ⟨List.prefix_rfl, .here⟩
  | dot hfolder _ ih =>
    obtain ⟨hg, hwalk⟩ := ih (fun hmem => hup (List.mem_cons_of_mem _ hmem)) hstop
    exact ⟨hg, .dot ((hsame _ hg).trans hfolder) hwalk⟩
  | up => exact absurd List.mem_cons_self hup
  | into hfolder hname hsub _ ih =>
    obtain ⟨hinto, hwalk⟩ := ih (fun hmem => hup (List.mem_cons_of_mem _ hmem)) hstop
    have hg := (List.prefix_append ..).trans hinto
    exact ⟨hg, .into ((hsame _ hg).trans hfolder) hname ((hsame _ hinto).trans hsub) hwalk⟩
  | link => cases hstop
  | beside _ _ hlook | file _ _ hlook | nothing _ _ hlook =>
    cases hstop
    cases hlook.symm.trans hp

end Disk

namespace LocalStore

open Disk (View linkLimit travel)

/-! ## The folder of containers -/

/-- The path of the folder of containers, from the top of the disk. -/
def boxesPath (s : LocalStore) : String :=
  s.disk.absolutePath (Path.join s.root "containers")

/-- The name of the folder of a container. -/
def boxName (id : String) : String :=
  "container-" ++ id

theorem fileName_box (n : Nat) : Disk.FileName (boxName (containerId n)) := by
  have hdigits : ∀ k < 16, Nat.digitChar k ≠ '/' := by decide
  rw [boxName, containerId, hex16, ← String.ofList_toList (s := "container-"),
    ← String.ofList_append]
  refine Disk.fileName_ofList ?_ (by simp) (by simp)
  simp only [List.mem_append, List.mem_map, not_or, not_exists, not_and]
  exact ⟨by decide, fun i _ => hdigits _ (Nat.mod_lt _ (by decide))⟩

/-- A disk is that of a backend, except for what is in the folders of images and of containers and
for the records. There are no links among the images. -/
structure Stands (s : LocalStore) (place : List String) (d : Disk) : Prop where
  tidy : d.top.isTidy = true
  images : View.FolderAt d.top.look (imagesAt place)
  noLink : ∀ q link, d.top.look (imagesAt place ++ q) ≠ some (.link link)
  containers : View.FolderAt d.top.look (containersAt place)
  workingFolder : d.workingFolder = s.disk.workingFolder
  same : ∀ q, ¬imagesAt place <+: q → ¬containersAt place <+: q → q ≠ stateAt place →
    d.top.look q = s.disk.top.look q

/-- The root folder is at a place, and in it the folder of images, without links, and the folder of
containers, where the folder of every container has its name. The ways to them lead through none of
these, nor through the records. -/
structure Housed (s : LocalStore) (place : List String) : Prop where
  stands : Stands s place s.disk
  named : ∀ live ∈ s.containers, live.folder = Path.join (boxesPath s) (boxName live.id)
  ways : ∀ top', (∀ q, ¬imagesAt place <+: q → ¬containersAt place <+: q → q ≠ stateAt place →
      top'.look q = s.disk.top.look q) →
    View.FolderAt top'.look (imagesAt place) → View.FolderAt top'.look (containersAt place) →
    travel top' true (linkLimit + 1) (s.disk.start s.root) (Path.names s.root) = .ok place ∧
    travel top' true (linkLimit + 1) (s.disk.start (boxesPath s)) (Path.names (boxesPath s)) =
      .ok (containersAt place)

section

variable {s : LocalStore} {place : List String} {d : Disk} {name : String}

theorem containersAt_beside (place q : List String) :
    ¬imagesAt place <+: containersAt place ++ q := by
  rw [imagesAt, containersAt, List.append_assoc, List.prefix_append_right_inj]
  intro h
  exact absurd (List.cons_prefix_cons.mp h).1 (by decide)

theorem imagesAt_beside (place q : List String) : ¬containersAt place <+: imagesAt place ++ q := by
  rw [imagesAt, containersAt, List.append_assoc, List.prefix_append_right_inj]
  intro h
  exact absurd (List.cons_prefix_cons.mp h).1 (by decide)

theorem containersAt_ne_state (place : List String) : containersAt place ≠ stateAt place := by
  intro h
  exact absurd (List.cons.inj (List.append_cancel_left h)).1 (by decide)

variable (h : Stands s place d)
include h

theorem Stands.start_eq (path : String) : d.start path = s.disk.start path := by
  rw [Disk.start, Disk.start, h.workingFolder]

/-- A backend that stands has its images on the shelf. -/
theorem Stands.shelved (hs : Housed s place) : Shelved s.root place d := by
  refine ⟨⟨Folder.every_of_isTidy h.tidy, ?_⟩, fun top' hsame himages => ?_⟩
  · obtain ⟨images, hat⟩ := Folder.look_eq_folder.mp h.images
    have htidy := (Folder.entrywise_isTidy.at? h.tidy hat).2 _ rfl
    refine ⟨images, hat, Folder.every_isSolid htidy fun q link => ?_⟩
    have hlink := h.noLink q link
    rwa [Folder.look, Folder.at?_append, hat] at hlink
  · have hcontainers := hsame (containersAt place)
      (by simpa using containersAt_beside place []) (containersAt_ne_state place)
    rw [h.start_eq]
    exact (hs.ways top' (fun q h₁ h₂ h₃ => (hsame q h₁ h₃).trans (h.same q h₁ h₂ h₃)) himages
      (hcontainers.trans h.containers)).1

/-- Names in the folder of containers are looked up there. -/
theorem Stands.travel_box (hs : Housed s place) (hname : Disk.Plain name) {follow : Bool}
    (hlink : follow = true →
      ∀ link, d.top.look (containersAt place ++ [name]) ≠ some (.link link)) :
    travel d.top follow (linkLimit + 1) (d.start (boxesPath s))
      (Path.names (boxesPath s) ++ [name]) = .ok (containersAt place ++ [name]) := by
  rw [h.start_eq]
  obtain ⟨left, hleft⟩ := Disk.travel_append (hs.ways d.top h.same h.images h.containers).2
    h.containers (List.cons_ne_nil name [])
  refine hleft.trans (Disk.travel_arrived ?_)
  cases hlook : d.top.look (containersAt place ++ [name]) with
  | none => exact .nothing h.containers hname hlook
  | some e =>
    cases e with
    | file content => exact .file h.containers hname hlook
    | folder children => exact .into h.containers hname (Folder.look_folder hlook) .here
    | link link =>
      cases follow with
      | true => exact absurd hlook (hlink rfl link)
      | false => exact .beside h.containers hname hlook rfl

/-- The folder of a container that is looked up is in the folder of containers. -/
theorem Stands.resolve_box (hs : Housed s place) (hname : Disk.FileName name)
    (hfolder : View.FolderAt d.top.look (containersAt place ++ [name])) {r : List String}
    (hr : d.resolve true (Path.join (boxesPath s) name) = .ok r) :
    r = containersAt place ++ [name] := by
  rw [Disk.resolve_join hname (Disk.namesOf_of_resolve hr), h.travel_box hs hname.toPlain] at hr
  · exact (Except.ok.inj hr).symm
  · intro _ link
    rw [hfolder]
    nofun

/-! ## A container is made -/

/-- What holds the images may not be seen to change when something in the folder of containers
does. -/
theorem Stands.of_containers {d' : Disk} (htidy : d'.top.isTidy = true)
    (hworking : d'.workingFolder = d.workingFolder)
    (hcontainers : View.FolderAt d'.top.look (containersAt place))
    (hsame : ∀ q, ¬containersAt place <+: q → d'.top.look q = d.top.look q) :
    Stands s place d' := by
  refine ⟨htidy, ?_, fun q link => ?_, hcontainers, hworking.trans h.workingFolder,
    fun q h₁ h₂ h₃ => (hsame q h₂).trans (h.same q h₁ h₂ h₃)⟩
  · have himages := hsame (imagesAt place) (by simpa using imagesAt_beside place [])
    exact himages.trans h.images
  · rw [hsame _ (imagesAt_beside place q)]
    exact h.noLink q link

/-- A folder made among the containers is empty, and outside them nothing changes. -/
theorem Stands.makeFolder_box {d' : Disk} (hs : Housed s place) (hname : Disk.FileName name)
    (hmake : Disk.makeFolder (Path.join (boxesPath s) name) d = .ok () d') :
    Stands s place d' ∧ d'.top.at? (containersAt place ++ [name]) = some (.folder .empty) ∧
      ∀ q, ¬containersAt place <+: q → d'.top.look q = d.top.look q := by
  have hmade := Disk.made_of_makeFolder hmake
  rw [Disk.makeFolder_eq] at hmake
  split at hmake
  · cases hmake
  · next names hgiven =>
    have htravel : travel d.top false _ _ _ = _ :=
      h.travel_box hs hname.toPlain fun hfollow => by cases hfollow
    rw [Disk.names_of_namesOf hgiven, Disk.start_join hname.relative,
      Path.names_join _ hname.relative, hname.alone, htravel] at hmake
    dsimp only at hmake
    split at hmake
    · cases hmake
    · cases hmake
      obtain ⟨entries, hentries⟩ := Folder.look_eq_folder.mp h.containers
      have hsame (q : List String) (hq : ¬containersAt place <+: q) :
          (d.top.putAt (containersAt place ++ [name]) (.folder .empty)).look q = d.top.look q :=
        Folder.look_putAt (fun hbelow => hq ((List.prefix_append ..).trans hbelow)) _
      exact ⟨h.of_containers (hmade.tidy h.tidy) rfl (hmade.folders h.containers) hsame,
        Folder.at?_putAt hentries name _, hsame⟩

end

theorem ensures_onDisk_ok {α : Type} (doing : String) (act : DiskAction α) (s : LocalStore) :
    (onDisk doing act).Ensures s
      (fun a s' => ∃ d, act s.disk = .ok a d ∧ s' = { s with disk := d }) fun _ _ => True := by
  unfold Action.Ensures
  split
  · next h => exact onDisk_eq_ok_iff.mp h
  · trivial

/-- What making a container does: it makes a folder, and copies the image into it. -/
theorem ensures_provision (q : Snapshot) (s : LocalStore) : (provision q).Ensures s
    (fun c s' => ∃ n image d₁ d₂, c.id = containerId n ∧
      imageFolder s.root q.image = .ok image ∧
      Disk.makeFolder (Path.join (boxesPath s) (boxName c.id)) s.disk = .ok () d₁ ∧
      Disk.copyAll image (Path.join (boxesPath s) (boxName c.id)) d₁ = .ok () d₂ ∧
      s' = { s with
        disk := d₂, nextContainer := n + 1
        containers := s.containers ++ [⟨c.id, Path.join (boxesPath s) (boxName c.id), q⟩] })
    fun _ _ => True := by
  unfold provision
  rw [Action.ensures_bind, Action.ensures_get, Action.ensures_bind, Action.ensures_ofExcept]
  refine ⟨fun image himage => ?_, fun _ _ => trivial⟩
  dsimp only
  -- The id is made of 64 bits, which nothing here may compute.
  generalize freeNumber _ _ _ _ = n
  generalize hid : containerId n = id
  split
  · trivial
  · rw [Action.ensures_bind]
    refine (ensures_onDisk_ok _ _ s).mono ?_ fun _ _ h => h
    rintro _ _ ⟨d₁, hmake, rfl⟩
    rw [Action.ensures_bind, Action.ensures_attempt]
    refine (ensures_onDisk_ok _ _ _).mono ?_ fun fault s' _ => ?_
    · rintro _ _ ⟨d₂, hcopy, rfl⟩
      exact ⟨n, image, d₁, d₂, hid.symm, himage, hmake, hcopy, rfl⟩
    · rw [Action.ensures_bind, Action.ensures_ignoring]
      exact (ensures_onDisk_ok _ _ _).mono (fun _ _ _ => trivial) fun _ _ _ => trivial

/-- What keeping a container as an image does: it takes the old image away, and copies the folder of
the container. -/
theorem persist_ok {c : Container} {image : String} {s s' : LocalStore}
    (h : persist c image s = .ok () s') : ∃ live folder d₁ d₂,
      Roster.find? LiveContainer.id c.id s.containers = some live ∧
      imageFolder s.root image = .ok folder ∧
      clearImage folder s = .ok () { s with disk := d₁ } ∧
      Disk.copyAll live.folder folder d₁ = .ok () d₂ ∧ s' = { s with disk := d₂ } := by
  obtain ⟨live, s₁, hlive, h⟩ := Action.bind_eq_ok_iff.mp h
  unfold container at hlive
  rw [Action.bind_of_ok (Action.get_apply s)] at hlive
  cases hfind : Roster.find? LiveContainer.id c.id s.containers with
  | none =>
    rw [hfind] at hlive
    cases hlive
  | some found =>
    rw [hfind] at hlive
    cases hlive
    obtain ⟨_, _, hget, hsteps⟩ := Action.bind_eq_ok_iff.mp h
    cases hget
    obtain ⟨folder, _, hpath, hcleared⟩ := Action.bind_eq_ok_iff.mp hsteps
    obtain ⟨hfolder, rfl⟩ := Action.ofExcept_eq_ok_iff.mp hpath
    obtain ⟨_, _, hclear, hcopy⟩ := Action.bind_eq_ok_iff.mp hcleared
    obtain ⟨d₁, rfl⟩ := clearImage_ok hclear
    obtain ⟨d₂, hcopied, rfl⟩ := onDisk_eq_ok_iff.mp hcopy
    exact ⟨live, folder, d₁, d₂, rfl, hfolder, hclear, hcopied, rfl⟩

/-- The place of an image is the one that its path says. -/
theorem leads_imageFolder {root image folder : String} (h : imageFolder root image = .ok folder) :
    Leads root folder (Path.names image) ∧
      (Path.names image).filter (· ≠ ".") = Path.lexical image := by
  obtain ⟨inner, hinner, hjoin⟩ := Except.bind_eq_ok_iff.mp h
  cases hjoin
  obtain ⟨hrelative, rfl⟩ := relative_eq_ok_iff.mp hinner
  refine ⟨(leads_images root).join (.inr hrelative), ?_⟩
  rw [Path.lexical, Path.foldl_step (Path.isRelative_iff.mp hrelative).2.2, List.nil_append]

section

variable {s : LocalStore} {place : List String} {d d' : Disk}

/-- A container that was made has the files of its image, and the images are as before. -/
theorem Housed.provision (hs : Housed s place) {q : Snapshot} {c : Container} {s' : LocalStore}
    (h : LocalStore.provision q s = .ok c s') : ∃ n, c.id = containerId n ∧ Stands s place s'.disk ∧
      s'.root = s.root ∧
      (∀ live, Roster.find? LiveContainer.id c.id s'.containers = some live →
        live.folder = Path.join (boxesPath s) (boxName c.id)) ∧
      View.FolderAt s'.disk.top.look (containersAt place ++ [boxName c.id]) ∧
      ∀ p content, s'.disk.top.at? (containersAt place ++ [boxName c.id] ++ p) =
          some (.file content) ↔
        s.disk.top.at? (imagesAt place ++ Path.lexical q.image ++ p) = some (.file content) := by
  obtain ⟨n, image, d₁, d₂, hid, himage, hmake, hcopy, rfl⟩ := (ensures_provision q s).of_ok h
  have hname := fileName_box n
  rw [← hid] at hname
  obtain ⟨hstands, hempty, hsame⟩ := hs.stands.makeFolder_box hs hname hmake
  obtain ⟨hleads, hlexical⟩ := leads_imageFolder himage
  obtain ⟨made, start, goal, hcopying⟩ := Disk.copying_of_copyTree hstands.tidy hcopy
  have hslash := (Path.endsInSlash_join (boxesPath s) hname.ne_empty).trans hname.noSlash
  have hthere := (Disk.hasFolder_of_makeFolder
    (by simp [Path.names_join _ hname.relative, hname.alone]) hslash hmake).2
  obtain rfl : made = d₁ := by
    have hmakes := hcopying.makes
    rw [Disk.makeFolders_of_hasFolder hslash hthere] at hmakes
    cases hmakes
    rfl
  have hfolder := Folder.look_eq_folder.mpr ⟨_, hempty⟩
  obtain rfl := (hstands.shelved hs).rooted.resolve_eq hleads hcopying.starts
  obtain rfl := hstands.resolve_box hs hname hfolder hcopying.ends
  rw [hlexical] at hcopying
  have hne : imagesAt place ++ Path.lexical q.image ≠ containersAt place ++ [boxName c.id] :=
    fun heq => imagesAt_beside place (Path.lexical q.image) (heq ▸ List.prefix_append ..)
  obtain ⟨entries, -, hlaid⟩ := hcopying.laid hne (.inr hempty)
  refine ⟨n, hid, ?_, rfl, fun live hlive => ?_, hlaid.folders _ hfolder, fun p content => ?_⟩
  · exact hstands.of_containers (hlaid.tidy hstands.tidy) hlaid.workingFolder
      (hlaid.folders _ hstands.containers) fun q hq =>
        hlaid.outside q fun hbelow => hq ((List.prefix_append ..).trans hbelow)
  · have hsame : live.id = c.id := by simpa using List.find?_some hlive
    obtain hold | hnew := List.mem_append.mp (List.mem_of_find?_eq_some hlive)
    · rw [hs.named live hold, hsame]
    · rw [List.mem_singleton.mp hnew]
  · rw [hcopying.file_iff hne (.inr hempty), ← Folder.look_eq_file, ← Folder.look_eq_file,
      List.append_assoc, hsame _ (imagesAt_beside place _)]
    simp

/-! ## A container is kept -/

/-- An image that is there is found. -/
theorem Shelved.has_of_folder {root path : String} {ns r : List String} (h : Shelved root place d)
    (h' : Shelved root place d') (hpath : Leads root path ns) (hr : d'.resolve true path = .ok r)
    (hfolder : View.FolderAt d.top.look r) (hfolder' : View.FolderAt d'.top.look r) :
    d.has path = true := by
  rw [hpath.resolve] at hr
  obtain ⟨_, hgiven, hr⟩ := Except.bind_eq_ok_iff.mp hr
  obtain ⟨left', hleft'⟩ := h'.travel_eq true (lookedUp path ns)
  rw [hleft'] at hr
  have hlevel := lookedUp_level hpath
  obtain hwalk | ⟨g, target, rest, hwalk, -⟩ := Disk.travel_eq_ok hr
  · have hsame (q : List String) (hq : q <+: r) : d.top.look q = d'.top.look q := by
      rw [Folder.look_of_prefix hfolder hq, Folder.look_of_prefix hfolder' hq]
    have hagain := (hwalk.restrict hlevel rfl hfolder' hsame).2
    obtain ⟨left, hleft⟩ := h.travel_eq true (lookedUp path ns)
    obtain ⟨entries, hat⟩ := Folder.look_eq_folder.mp hfolder
    rw [Disk.has, Disk.entry, hpath.resolve, hgiven, Except.ok_bind, hleft,
      Disk.travel_arrived hagain, Except.ok_bind, hat]
    rfl
  · cases hwalk.eq_down hlevel fun q target _ => h'.noLink q target

/-- Removing a folder removes what is at its place, and nothing else. -/
theorem gives_removeFolder (path : String) (d : Disk) :
    Disk.Gives (Disk.removeFolder path) d fun _ d' =>
      ∃ r, d.resolve false path = .ok r ∧ d' = { d with top := d.top.eraseAt r } := by
  refine (Disk.keeps_lift trivial _).bind ?_
  rintro r d - ⟨hr, rfl⟩
  refine (Disk.keeps_get trivial).bind ?_
  rintro _ d - ⟨rfl, rfl⟩
  split
  · trivial
  · trivial
  · exact ⟨trivial, r, hr, rfl⟩
  · split
    · exact (Disk.keeps_modify trivial).bind fun _ _ _ _ => trivial
    · refine (Disk.keeps_get trivial).bind ?_
      rintro _ d - ⟨rfl, rfl⟩
      split
      · exact (Disk.keeps_modify trivial).bind fun _ _ _ _ => trivial
      · exact ⟨trivial, r, hr, rfl⟩

variable {s₁ : LocalStore} {folder : String} {ns : List String}

/-- When an image has been cleared, it is not there, or at least not to be found under its path. -/
theorem Stands.clear (h : Stands s place s₁.disk) (hs : Housed s place)
    (hleads : Leads s.root folder ns) (hbelow : ns.filter (· ≠ ".") ≠ [])
    (hclear : clearImage folder s₁ = .ok () { s₁ with disk := d }) :
    Stands s place d ∧ (∀ q, ¬imagesAt place <+: q → d.top.look q = s₁.disk.top.look q) ∧
      (d.has folder = false ∨ d.top.look (imagesAt place ++ ns.filter (· ≠ ".")) = none) := by
  obtain ⟨_, _, hget, hclear⟩ := Action.bind_eq_ok_iff.mp hclear
  cases hget
  split at hclear
  · obtain ⟨d', hremove, hd⟩ := onDisk_eq_ok_iff.mp hclear
    obtain ⟨r, hr, rfl⟩ := (gives_removeFolder folder s₁.disk).of_ok hremove
    obtain rfl := congrArg LocalStore.disk hd
    obtain rfl := (h.shelved hs).rooted.resolve_eq hleads hr
    obtain ⟨a, name, hlast, -⟩ := last_name hleads.level hbelow
    have hheld := (h.shelved hs).held_erase (@List.prefix_rfl _ (a ++ [name]))
    have hbeside (q : List String) (hq : ¬imagesAt place <+: q) :
        (s₁.disk.top.eraseAt (imagesAt place ++ a ++ [name])).look q = s₁.disk.top.look q :=
      Folder.look_eraseAt fun hbelow => hq <| by
        rw [List.append_assoc] at hbelow
        exact (List.prefix_append ..).trans hbelow
    have hcontainers := hbeside (containersAt place) (by simpa using containersAt_beside place [])
    rw [hlast, ← List.append_assoc]
    refine ⟨⟨?_, hheld.folderAt, hheld.noLink, hcontainers.trans h.containers, h.workingFolder,
      fun q h₁ h₂ h₃ => (hbeside q h₁).trans (h.same q h₁ h₂ h₃)⟩, hbeside,
      .inr (Folder.look_eraseAt_self h.tidy)⟩
    change (s₁.disk.top.eraseAt (imagesAt place ++ a ++ [name])).isTidy = true
    rw [Folder.eraseAt_eq_within]
    exact Folder.entrywise_isTidy.within h.tidy fun c hc => Folder.isTidy_erase hc
  · next hmissing =>
    obtain ⟨-, hd⟩ := Action.pure_eq_ok_iff.mp hclear
    obtain rfl : d = s₁.disk := congrArg LocalStore.disk hd
    exact ⟨h, fun _ _ => rfl, .inl (by simpa using hmissing)⟩

/-- An image that is kept of a container has the files of the container. -/
theorem Housed.persist (hs : Housed s place) {c : Container} {image : String} {s₂ : LocalStore}
    (hstands : Stands s place s₁.disk) (hroot : s₁.root = s.root)
    (hname : Disk.FileName (boxName c.id))
    (hlive : ∀ live, Roster.find? LiveContainer.id c.id s₁.containers = some live →
      live.folder = Path.join (boxesPath s) (boxName c.id))
    (hbox : View.FolderAt s₁.disk.top.look (containersAt place ++ [boxName c.id]))
    (himage : Path.lexical image ≠ []) (h : LocalStore.persist c image s₁ = .ok () s₂)
    (p : List String) (content : Content) :
    s₂.disk.top.at? (imagesAt place ++ Path.lexical image ++ p) = some (.file content) ↔
      s₁.disk.top.at? (containersAt place ++ [boxName c.id] ++ p) = some (.file content) := by
  obtain ⟨live, folder, d₁, d₂, hfind, hfolder, hclear, hcopy, rfl⟩ := persist_ok h
  rw [hroot] at hfolder
  obtain ⟨hleads, hlexical⟩ := leads_imageFolder hfolder
  obtain ⟨hcleared, hsame, hgone⟩ := hstands.clear hs hleads (hlexical ▸ himage) hclear
  rw [hlexical] at hgone
  rw [hlive live hfind] at hcopy
  obtain ⟨made, start, goal, hcopying⟩ := Disk.copying_of_copyTree hcleared.tidy hcopy
  have hmade := Disk.made_of_makeFolders hcopying.makes
  have hheld : Held s.root place (Path.lexical image) d₁ made := by
    have hway : OnTheWay s.root folder (Path.lexical image) :=
      ⟨hleads.absolute, _, hleads.names ▸ List.prefix_rfl, hleads.level, hlexical⟩
    have hkeeps := (Held.guards himage).keeps_makeFolders ((hcleared.shelved hs).held _) hway
      (folder.length + 1)
    have hmakes := hcopying.makes
    unfold Disk.Keeps at hkeeps
    rw [Disk.makeFolders] at hmakes
    rw [hmakes] at hkeeps
    exact hkeeps.1
  have hstandsMade : Stands s place made := by
    refine ⟨hmade.tidy hcleared.tidy, hheld.folderAt, hheld.noLink,
      hmade.folders hcleared.containers, hmade.workingFolder.trans hcleared.workingFolder,
      fun q h₁ h₂ h₃ => ?_⟩
    obtain hsame | ⟨-, -, hbelow, -⟩ := hheld.same q
      (fun hbelow => h₁ ((List.prefix_append ..).trans hbelow)) h₃
    · exact hsame.trans (hcleared.same q h₁ h₂ h₃)
    · exact absurd hbelow h₁
  have hthere : View.FolderAt made.top.look (containersAt place ++ [boxName c.id]) :=
    hmade.folders ((hsame _ (containersAt_beside place _)).trans hbox)
  have hend := Disk.folderAt_of_makeFolders hcopying.makes hcopying.ends
  obtain rfl := hstandsMade.resolve_box hs hname hthere hcopying.starts
  have hgoal := hheld.rooted.resolve_eq hleads hcopying.ends
  rw [hlexical] at hgoal
  subst hgoal
  have hne : containersAt place ++ [boxName c.id] ≠ imagesAt place ++ Path.lexical image :=
    fun heq => imagesAt_beside place (Path.lexical image) (heq ▸ List.prefix_append ..)
  have hvacant : Disk.Vacant d₁ (imagesAt place ++ Path.lexical image) := by
    have hnone : d₁.top.look (imagesAt place ++ Path.lexical image) = none := by
      obtain hmissing | hnone := hgone
      · obtain hold | ⟨hnone, -⟩ := hmade.look (imagesAt place ++ Path.lexical image)
        · have hfound := (hcleared.shelved hs).has_of_folder hheld.toShelved hleads hcopying.ends
            (hold.symm.trans hend) hend
          rw [hmissing] at hfound
          cases hfound
        · exact hnone
      · exact hnone
    exact .inl (Option.map_eq_none_iff.mp hnone)
  rw [hcopying.file_iff hne hvacant, ← Folder.look_eq_file, ← Folder.look_eq_file,
    List.append_assoc, hsame _ (containersAt_beside place _)]
  simp

end

/-- Trees are copied faithfully: those of programs without what no image takes, all others as a
whole. So an image that is kept of a container, just as this was made of another image, has the
files of that image, also those that no program would be imported with. -/
theorem copies_faithful :
    (∀ (source target : String) (d d' : Disk), d.top.isTidy = true →
      Disk.copyProgram source target d = .ok () d' →
      Disk.Copied Disk.isUnwanted source target d d') ∧
    (∀ (source target : String) (d d' : Disk), d.top.isTidy = true →
      Disk.copyAll source target d = .ok () d' →
      Disk.Copied (fun _ => false) source target d d') ∧
    ∀ (s s₁ s₂ : LocalStore) (place : List String) (q : Snapshot) (c : Container) (image : String),
      Housed s place → provision q s = .ok c s₁ → persist c image s₁ = .ok () s₂ →
      Path.lexical image ≠ [] → ∀ p content,
        s₂.disk.top.at? (imagesAt place ++ Path.lexical image ++ p) = some (.file content) ↔
          s.disk.top.at? (imagesAt place ++ Path.lexical q.image ++ p) = some (.file content) := by
  refine ⟨fun _ _ _ _ => Disk.copied_of_copyTree, fun _ _ _ _ => Disk.copied_of_copyTree, ?_⟩
  intro s s₁ s₂ place q c image hs hprovision hpersist himage p content
  obtain ⟨n, hid, hstands, hroot, hlive, hbox, hfiles⟩ := hs.provision hprovision
  have hname := fileName_box n
  rw [← hid] at hname
  rw [hs.persist hstands hroot hname hlive hbox himage hpersist, hfiles]

namespace CopySample

/-- A program with a link and a built file. -/
def program : Folder :=
  .file "a.c" (.text "int a;")
    (.link "l" "a.c" (.sub "build" (.file "a.o" (.text "!") .empty) .empty))

def before : Disk := { top := .sub "src" program .empty }

/-- A backend with an image that has a built file. -/
def store : LocalStore where
  disk := { top := .sub "root" (.sub "images" (.sub "x"
    (.sub "build" (.file "a.o" (.text "!") .empty) .empty) .empty)
    (.sub "containers" .empty .empty)) .empty }
  root := "root"

def x : Snapshot := { name := "x", image := "x" }

theorem copy_runs :
    (onDisk "" (Disk.copyProgram "src" "out")).Ensures { disk := before, root := "" }
    (fun _ s => s.disk.top.at? ["out"] = some (.folder (.file "a.c" (.text "int a;") .empty)))
    fun _ _ => False := by
  decide +kernel

theorem keep_runs : (provision x).Ensures store (fun c s => (persist c "y").Ensures s
    (fun _ _ => True) fun _ _ => False) fun _ _ => False := by
  decide +kernel

/-- The sample backend is housed in its root folder. -/
theorem housed : Housed store ["root"] := by
  have hshelved : Shelved store.root ["root"] store.disk :=
    ApartSample.shelved rfl rfl (by decide) (by decide) (by decide)
  refine ⟨⟨by decide, hshelved.folderAt, hshelved.noLink, by decide, rfl, fun _ _ _ _ => rfl⟩,
    nofun, fun top' hsame himages hcontainers => ?_⟩
  have hroot : View.FolderAt top'.look [] := rfl
  have hinto : View.FolderAt top'.look ([] ++ ["root"]) :=
    (hsame ["root"] (by decide) (by decide) (by decide)).trans (by decide)
  have hplain : Disk.Plain "root" := ⟨by decide, by decide, by decide⟩
  have hnames : Path.names store.root = ["root"] ∧
      Path.names (boxesPath store) = ["root", "containers"] := by decide
  have hstart : store.disk.start store.root = [] ∧ store.disk.start (boxesPath store) = [] := by
    decide
  rw [hnames.1, hnames.2, hstart.1, hstart.2]
  exact ⟨Disk.travel_arrived (.into hroot hplain hinto .here),
    Disk.travel_arrived (.into hroot hplain hinto
      (.into hinto ⟨by decide, by decide, by decide⟩ hcontainers .here))⟩

end CopySample

open CopySample

/-- The program is copied without its link and its built file; that of an image is kept. -/
theorem copies_faithful_sample :
    (∃ d, Disk.copyProgram "src" "out" before = .ok () d ∧
      Disk.Copied Disk.isUnwanted "src" "out" before d ∧
      d.top.at? ["out"] = some (.folder (.file "a.c" (.text "int a;") .empty))) ∧
    (∃ c s s', provision x store = .ok c s ∧ persist c "y" s = .ok () s' ∧
      s'.disk.top.at? ["root", "images", "y", "build", "a.o"] = some (.file (.text "!"))) := by
  constructor
  · obtain ⟨_, _, hcopy, hout⟩ := copy_runs.exists_ok
    obtain ⟨d, hcopied, rfl⟩ := onDisk_eq_ok_iff.mp hcopy
    exact ⟨d, hcopied, copies_faithful.1 _ _ _ _ (by decide) hcopied, hout⟩
  · obtain ⟨c, s, hprovision, hruns⟩ := keep_runs.exists_ok
    obtain ⟨_, s', hpersist, -⟩ := hruns.exists_ok
    refine ⟨c, s, s', hprovision, hpersist, ?_⟩
    exact (copies_faithful.2.2 _ _ _ _ _ _ "y" housed hprovision hpersist (by decide)
      ["build", "a.o"] _).mpr (by decide)

end LocalStore

end Mutagenesis
