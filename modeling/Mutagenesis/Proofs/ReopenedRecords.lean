import Mutagenesis.Proofs.ImageChanges

/-!
# Backends that are opened again

Each call that changes the records and succeeds leaves them on the disk, so a backend that is opened
there again holds them, if its two folders can be made. They are there still if, when the backend
was opened first, there was no link among the images and the folder of containers was none:
importing a program then changes nothing but images. Even the path of the root folder may lead
through images. It is compared with the path on a chart of the disk at the start (`Kept`): while
links and all folders but images are as on the chart, a travel goes as it went there or ends too
early (`Disk.travel_in_step`), and a call that succeeds has just found the root folder.
-/

set_option autoImplicit false

namespace Mutagenesis

namespace Disk

/-! ## Travels on a disk and on a chart -/

/-- The links of a chart are on the disk as they are there, and no folder of it is a link. -/
structure Signposted (chart top : Folder) : Prop where
  links : ∀ q target, chart.look q = some (.link target) → top.look q = some (.link target)
  folders : ∀ q target, View.FolderAt chart.look q → top.look q ≠ some (.link target)

/-- A folder or a link on a chart, which a travel on it can go by. -/
def OnChart (chart : Folder) (q : List String) : Prop :=
  View.FolderAt chart.look q ∨ ∃ target, chart.look q = some (.link target)

section

variable {chart top top' : Folder} {follow : Bool} {links : Nat} {g ns p p' : List String}
  {stop stop' : Stop}

/-- A walk that on a chart ends in a folder or at a link does so on the disk, and wherever all that
is on the chart is as on this disk. Or else it ends early: there is a last link that it does not
follow, or a folder of the chart is missing. -/
theorem Walks.in_step (hposts : Signposted chart top)
    (hsame : ∀ q, OnChart chart q → top'.look q = top.look q)
    (h : Walks chart.look true g ns stop)
    (hend : ∀ p, stop = .arrived p → View.FolderAt chart.look p)
    (h' : walk top follow g ns = .ok stop') :
    stop' = stop ∧ Walks top'.look true g ns stop ∨
      ∃ p, stop' = .arrived p ∧ ¬View.FolderAt top.look p ∧
        (top.look p = none → View.FolderAt chart.look p) := by
  induction h with
  | here =>
    cases h'
    exact .inl ⟨rfl, .here⟩
  | dot hfolder _ ih =>
    have hat := (walk_inv h').1
    rw [walk_dot hat] at h'
    exact (ih hend h').imp_left fun h => ⟨h.1, .dot ((hsame _ (.inl hfolder)).trans hat) h.2⟩
  | up hfolder _ ih =>
    have hat := (walk_inv h').1
    rw [walk_up hat] at h'
    exact (ih hend h').imp_left fun h => ⟨h.1, .up ((hsame _ (.inl hfolder)).trans hat) h.2⟩
  | @into g rest name _ hfolder hname hsub _ ih =>
    have hat := (walk_inv h').1
    rw [walk_plain hat hname] at h'
    cases hlook : top.look (g ++ [name]) with
    | none =>
      rw [hlook] at h'
      dsimp only at h'
      split at h'
      · cases h'
        exact .inr ⟨_, rfl, by simp [View.FolderAt, hlook], fun _ => hsub⟩
      · cases h'
    | some e =>
      rw [hlook] at h'
      cases e with
      | link target => exact absurd hlook (hposts.folders _ target hsub)
      | file content =>
        dsimp only at h'
        split at h'
        · cases h'
          exact .inr ⟨_, rfl, by simp [View.FolderAt, hlook], fun _ => hsub⟩
        · cases h'
      | folder children =>
        refine (ih hend h').imp_left fun h => ⟨h.1, ?_⟩
        exact .into ((hsame _ (.inl hfolder)).trans hat) hname
          ((hsame _ (.inl hsub)).trans (Folder.look_folder hlook)) h.2
  | @link g rest name target hfolder hname hlink _ =>
    have hat := (walk_inv h').1
    have hlook := hposts.links _ target hlink
    rw [walk_plain hat hname, hlook] at h'
    dsimp only at h'
    split at h'
    · cases h'
      exact .inr ⟨_, rfl, by simp [View.FolderAt, hlook], fun hnone => by simp [hlook] at hnone⟩
    · cases h'
      exact .inl ⟨rfl, .link ((hsame _ (.inl hfolder)).trans hat) hname
        ((hsame _ (.inr ⟨target, hlink⟩)).trans hlook) fun _ => rfl⟩
  | beside _ _ _ hfollow => cases hfollow
  | file _ _ hfile => cases hfile.symm.trans (hend _ rfl)
  | nothing _ _ hnone => cases hnone.symm.trans (hend _ rfl)

/-- A travel that on a chart ends in a folder ends there on the disk, and wherever all that is on
the chart is as on this disk; or it ends early. -/
theorem travel_in_step (hposts : Signposted chart top)
    (hsame : ∀ q, OnChart chart q → top'.look q = top.look q)
    (h : travel chart true links g ns = .ok p) (hp : View.FolderAt chart.look p)
    (h' : travel top follow links g ns = .ok p') :
    p' = p ∧ travel top' true links g ns = .ok p ∨
      ¬View.FolderAt top.look p' ∧ (top.look p' = none → View.FolderAt chart.look p') := by
  induction links generalizing g ns with
  | zero => cases h
  | succ links ih =>
    rw [travel] at h'
    cases hwalk' : walk top follow g ns with
    | error fault =>
      rw [hwalk'] at h'
      cases h'
    | ok stop' =>
      rw [hwalk'] at h'
      obtain hwalk | ⟨g', target, rest, hwalk, h⟩ := travel_eq_ok h
      · obtain ⟨rfl, hagain⟩ | ⟨q, rfl, hearly⟩ :=
          hwalk.in_step hposts hsame (fun _ hstop => by cases hstop; exact hp) hwalk'
        · cases h'
          exact .inl ⟨rfl, travel_arrived hagain⟩
        · cases h'
          exact .inr hearly
      · obtain ⟨rfl, hagain⟩ | ⟨q, rfl, hearly⟩ :=
          hwalk.in_step hposts hsame (fun _ hstop => by cases hstop) hwalk'
        · exact (ih h h').imp_left (And.imp_right (travel_link hagain).trans)
        · cases h'
          exact .inr hearly

end

end Disk

namespace LocalStore

open Disk (View linkLimit travel OnChart)

/-! ## The way to the root folder -/

/-- A chart of a disk, on which the path of the root folder leads to a place. The two folders of the
backend are there, and a file with records. -/
structure Charted (root : String) (start place : List String) (chart : Folder) : Prop where
  proper : chart.every isProper = true
  way : travel chart true (linkLimit + 1) start (Path.names root) = .ok place
  images : View.FolderAt chart.look (imagesAt place)
  containers : View.FolderAt chart.look (containersAt place)
  state : ∃ content, chart.look (stateAt place) = some (.file content)

/-- The place is below the folder of images. -/
def AmongImages (place q : List String) : Prop :=
  imagesAt place <+: q ∧ q ≠ imagesAt place

theorem amongImages_of_isPrefix {place a q : List String} {name : String}
    (h : imagesAt place ++ a ++ [name] <+: q) : AmongImages place q := by
  have hlength := h.length_le
  rw [List.append_assoc] at h
  refine ⟨(List.prefix_append ..).trans h, ?_⟩
  rintro rfl
  simp only [List.length_append, List.length_cons] at hlength
  omega

/-- The links of a chart and its folders, except images, are still on the disk, and there are no
links among the images. -/
structure Kept (root : String) (start place : List String) (chart : Folder) (d : Disk) : Prop
    extends Shelf place d where
  start_eq : d.start root = start
  links : ∀ q target, chart.look q = some (.link target) → d.top.look q = some (.link target)
  folders : ∀ q, View.FolderAt chart.look q →
    View.FolderAt d.top.look q ∨ AmongImages place q

section

variable {root : String} {start place : List String} {chart : Folder} {d d' : Disk}

theorem Kept.signposted (h : Kept root start place chart d) : Disk.Signposted chart d.top where
  links := h.links
  folders q target hq hlink := by
    obtain hfolder | ⟨⟨rest, rfl⟩, -⟩ := h.folders q hq
    · cases hlink.symm.trans hfolder
    · exact h.noLink rest target hlink

theorem Charted.rootAt (hchart : Charted root start place chart) :
    View.FolderAt chart.look place := by
  have := Folder.look_dropLast hchart.images
  rwa [imagesAt, List.dropLast_concat] at this

theorem Charted.ne_state {q : List String} (hchart : Charted root start place chart)
    (hq : OnChart chart q) : q ≠ stateAt place := by
  rintro rfl
  obtain ⟨content, hfile⟩ := hchart.state
  obtain hfolder | ⟨target, hlink⟩ := hq
  · cases hfile.symm.trans hfolder
  · cases hfile.symm.trans hlink

variable (hchart : Charted root start place chart)

include hchart

/-- Where all but images and the records is as before, the chart is kept. -/
theorem Kept.of_same (h : Kept root start place chart d) (hshelf : Shelf place d')
    (hhere : d'.workingFolder = d.workingFolder)
    (hsame : ∀ q, ¬AmongImages place q → q ≠ stateAt place → d'.top.look q = d.top.look q) :
    Kept root start place chart d' := by
  refine ⟨hshelf, ?_, fun q target hlink => ?_, fun q hfolder => ?_⟩
  · rw [← h.start_eq, Disk.start, Disk.start, hhere]
  · have hthere := h.links q target hlink
    refine (hsame q ?_ (hchart.ne_state (.inr ⟨target, hlink⟩))).trans hthere
    rintro ⟨⟨rest, rfl⟩, -⟩
    exact h.noLink rest target hthere
  · by_cases hbelow : AmongImages place q
    · exact .inr hbelow
    · refine (h.folders q hfolder).imp_left fun hthere => ?_
      exact (hsame q hbelow (hchart.ne_state (.inl hfolder))).trans hthere

/-- If the path of the root folder leads to a folder, then to that of the chart. It leads there also
after a change to something that is not on the chart. -/
theorem Kept.found (h : Kept root start place chart d) {p : List String}
    (hp : travel d.top true (linkLimit + 1) (d.start root) (Path.names root) = .ok p)
    (hfolder : View.FolderAt d.top.look p) {top' : Folder}
    (hsame : ∀ q, OnChart chart q → top'.look q = d.top.look q) :
    p = place ∧ travel top' true (linkLimit + 1) start (Path.names root) = .ok place := by
  rw [h.start_eq] at hp
  obtain hend | ⟨hnot, -⟩ := Disk.travel_in_step h.signposted hsame hchart.way hchart.rootAt hp
  · exact hend
  · exact absurd hfolder hnot

/-- A folder that is made on the way to the folder of images is one of the chart that was missing,
so it is among the images. -/
theorem Kept.missing (h : Kept root start place chart d) {ns r : List String}
    (hns : ns <+: Path.names root ++ ["images"])
    (hr : travel d.top false (linkLimit + 1) (d.start root) ns = .ok r)
    (hnone : d.top.look r = none) :
    ∃ a name, r = imagesAt place ++ a ++ [name] ∧ name ≠ "." ∧ name ≠ ".." := by
  have himages : travel chart true (linkLimit + 1) start (Path.names root ++ ["images"]) =
      .ok (imagesAt place) := by
    obtain ⟨left, hleft⟩ := @Disk.travel_append _ true _ _ _ _ _ hchart.way hchart.rootAt
      (List.cons_ne_nil "images" [])
    refine hleft.trans (Disk.travel_arrived (.into hchart.rootAt ?_ hchart.images .here))
    exact ⟨by decide, by decide, by decide⟩
  obtain ⟨more, hmore⟩ := hns
  rw [← hmore] at himages
  obtain ⟨q, hq, hfolder⟩ : ∃ q, travel chart true (linkLimit + 1) start ns = .ok q ∧
      View.FolderAt chart.look q := by
    by_cases hnil : more = []
    · rw [hnil, List.append_nil] at himages
      exact ⟨_, himages, hchart.images⟩
    · obtain ⟨q, _, hq, hfolder, -⟩ := Disk.travel_split himages hnil
      exact ⟨q, hq, hfolder⟩
  rw [h.start_eq] at hr
  have hmissing : View.FolderAt chart.look r := by
    obtain ⟨rfl, -⟩ | ⟨-, hmissing⟩ :=
      @Disk.travel_in_step _ _ d.top _ _ _ _ _ _ h.signposted (fun _ _ => rfl) hq hfolder hr
    · exact hfolder
    · exact hmissing hnone
  obtain hthere | ⟨⟨b, rfl⟩, hne⟩ := h.folders r hmissing
  · cases hnone.symm.trans hthere
  · have hb : b ≠ [] := fun hnil => hne (by rw [hnil, List.append_nil])
    refine ⟨b.dropLast, b.getLast hb, ?_, ?_⟩
    · rw [List.append_assoc, List.dropLast_concat_getLast]
    · refine proper_of_look hchart.proper (by rw [hmissing]; rfl) _ ?_
      exact List.mem_append_right _ (List.getLast_mem hb)

/-- A file or an empty folder is put among the images. -/
theorem Kept.put (h : Kept root start place chart d) {a : List String} {name : String} {e : Entry}
    (hname : name ≠ "." ∧ name ≠ "..") (he : e = .folder .empty ∨ ∃ content, e = .file content) :
    Kept root start place chart
      { d with top := d.top.putAt (imagesAt place ++ a ++ [name]) e } :=
  h.of_same hchart (h.toShelf.put hname he) rfl fun _ hq _ =>
    Folder.look_putAt (fun hin => hq (amongImages_of_isPrefix hin)) e

/-- Changes to an image, any of them, leave the rest of the chart. -/
theorem Kept.guards (image : List String) :
    Guards root place image (Kept root start place chart) where
  rooted h := ⟨h.toShelf, fun _ hp hfolder => (h.found hchart hp hfolder fun _ _ => rfl).1⟩
  before {d d' path} h habsolute hnames hmade := by
    have hstart : d.start path = d.start root := by rw [Disk.start, Disk.start, habsolute]
    rw [Disk.makeFolder_eq] at hmade
    split at hmade
    · cases hmade
    · next names hgiven =>
      rw [Disk.names_of_namesOf hgiven, hstart] at hmade
      split at hmade
      · cases hmade
      · next r hr =>
        split at hmade
        · cases hmade
        · next hat =>
          cases hmade
          obtain ⟨a, name, rfl, hname⟩ := h.missing hchart hnames hr (by rw [Folder.look, hat]; rfl)
          exact h.put hchart hname (.inl rfl)
  put h hname he _ := h.put hchart hname he
  erase h _ := h.of_same hchart h.erase rfl fun _ hq _ =>
    Folder.look_eraseAt fun hin => hq (amongImages_of_isPrefix hin)
  clear {d} h _ := by
    refine h.of_same hchart h.clear rfl fun q hq _ => ?_
    by_cases hroot : q = imagesAt place
    · rw [hroot, h.folderAt]
      exact h.toShelf.clear.folderAt
    · exact Folder.look_putAt (fun hin => hq ⟨hin, hroot⟩) _
  state h hnot := h.of_same hchart (h.state _) rfl fun q _ hstate =>
    (Disk.replaced_putAt h.rootAt hnot _).same q hstate

/-! ## Calls that change the records -/

/-- A disk on which the path of the root folder leads where it led on the chart. -/
structure Reached (root : String) (start place : List String) (chart : Folder) (d : Disk) : Prop
    extends Kept root start place chart d where
  way : travel d.top true (linkLimit + 1) start (Path.names root) = .ok place

/-- Where records were written, the root folder is found. -/
theorem ensures_saveSnapshots {s : LocalStore} (h : Under root (Kept root start place chart) s) :
    saveSnapshots.Ensures s (fun _ => Under root (Reached root start place chart))
      (fun _ => Under root (Kept root start place chart)) := by
  unfold Action.Ensures saveSnapshots
  dsimp only
  obtain ⟨fault, hfails⟩ | ⟨-, p, hresolve, hfolder, hnot, hput⟩ := Disk.replaceFile_cases s.root
    stateFile (stateJson s.snapshots).pretty s.disk
  · rw [hfails]
    exact h
  · rw [hput]
    rw [h.1] at hresolve
    have hway := Disk.travel_of_resolve hresolve
    obtain rfl := (h.2.found hchart hway hfolder fun _ _ => rfl).1
    refine ⟨h.1, (Kept.guards hchart []).state h.2 hnot, ?_⟩
    refine (h.2.found hchart hway hfolder fun q hq => ?_).2
    exact (Disk.replaced_putAt hfolder hnot _).same q (hchart.ne_state hq)

/-- A call that succeeds leaves the folders of the backend where they are. -/
theorem RecordCall.ensures_act {s : LocalStore} (call : RecordCall)
    (h : Under root (Kept root start place chart) s) :
    call.act.Ensures s (fun _ => Under root (Reached root start place chart))
      (fun _ _ => True) := by
  have hsave {s : LocalStore} (h : Under root (Kept root start place chart) s) :=
    (ensures_saveSnapshots hchart h).mono (fun _ _ h => h) fun _ _ _ => trivial
  cases call with
  | register snapshot =>
    rw [act, LocalStore.register, Action.ensures_bind, Action.ensures_modify]
    exact hsave h
  | deregister name =>
    rw [act, LocalStore.deregister, Action.ensures_bind, Action.ensures_get]
    split
    · trivial
    · rw [Action.ensures_bind, Action.ensures_modify]
      exact hsave h
  | importProgram snapshot source =>
    rw [act, Action.ensures_discard]
    exact ((Kept.guards hchart _).ensures_importProgram h fun _ h =>
      ensures_saveSnapshots hchart h).mono (fun _ _ h => h) fun _ _ _ => trivial

end

/-- A backend without links: its root folder is at a place, there is no link among the images, and
the folder of containers is none. -/
structure LinkFree (s : LocalStore) (place : List String) : Prop extends Shelf place s.disk where
  root : s.disk.resolve true (Disk.orHere s.root) = .ok place
  containers : View.FolderAt s.disk.top.look (containersAt place)

section

variable {s s' : LocalStore} {place : List String}

/-- The disk of a backend without links is a chart of itself, with a file where the records are to
be written. -/
theorem LinkFree.charted (h : LinkFree s place) (hs : Steady s) : ∃ chart,
    Charted s.root (s.disk.start s.root) place chart ∧
      Reached s.root (s.disk.start s.root) place chart s.disk := by
  have hfree := (loadSnapshots_ok hs.loaded).2
  have hway := Disk.travel_of_resolve h.root
  have hstate : ¬View.FolderAt s.disk.top.look (stateAt place) := by
    intro hfolder
    have hthere := Disk.hasFolder_join fileName_stateFile
      (hfree.namesOf (Path.join_ne_empty s.root (by decide))) hway h.rootAt hfolder
    obtain ⟨q, hq, hat⟩ := Disk.hasFolder_iff.mp hthere
    exact hfree.not_folder hq hat
  have hreplaced : Disk.Replaced s.disk.top
      (s.disk.top.putAt (stateAt place) (.file (.text ""))) (stateAt place) :=
    Disk.replaced_putAt h.rootAt hstate (.text "")
  have hfolders {q : List String} (hq : View.FolderAt s.disk.top.look q) := hreplaced.folderAt hq
  have hsame {q : List String} {e : Entry} (he : ∀ content, e ≠ .file content)
      (hq : (s.disk.top.putAt (stateAt place) (.file (.text ""))).look q = some e) :
      s.disk.top.look q = some e := by
    rw [← hreplaced.same q, hq]
    rintro rfl
    obtain ⟨content, hfile⟩ := hreplaced.file
    exact he content (Option.some.inj (hq.symm.trans hfile))
  refine ⟨_, ⟨(h.state (.text "")).proper, ?_, hfolders h.folderAt, hfolders h.containers,
    hreplaced.file⟩, ⟨h.toShelf, rfl, fun q target => hsame nofun, fun q hq => ?_⟩, hway⟩
  · obtain hagain | ⟨hthrough, -⟩ := Disk.travel_replaced hreplaced hway
    · exact hagain
    · exact absurd hthrough (hfree.not_through fileName_stateFile h.root h.rootAt h.rootAt)
  · exact .inl (hsame nofun hq)

/-- The folders of a backend that was without links are there after calls that all succeed. -/
theorem LinkFree.run_folders (h : LinkFree s place) (hs : Steady s) {calls : List RecordCall}
    (hcalls : calls.forM RecordCall.act s = .ok () s') :
    s'.disk.hasFolder (imagesPath s'.root) = true ∧
      s'.disk.hasFolder (containersPath s'.root) = true := by
  obtain ⟨chart, hchart, hreached⟩ := h.charted hs
  have hrun : (calls.forM RecordCall.act).Ensures s
      (fun _ => Under s.root (Reached s.root (s.disk.start s.root) place chart))
      (fun _ _ => True) :=
    Action.ensures_forM ⟨rfl, hreached⟩ fun call _ _ h =>
      RecordCall.ensures_act hchart call ⟨h.1, h.2.toKept⟩
  obtain ⟨hroot, hend⟩ := hrun.of_ok hcalls
  have hway : travel s'.disk.top true (linkLimit + 1) (s'.disk.start s.root)
      (Path.names s.root) = .ok place := by
    rw [hend.start_eq]
    exact hend.way
  have hthere {name : String} (hname : Disk.FileName name)
      (hbefore : s.disk.hasFolder (Path.join s.root name) = true)
      (hfolder : View.FolderAt s'.disk.top.look (place ++ [name])) :
      s'.disk.hasFolder (Path.join s.root name) = true := by
    obtain ⟨p, hp, -⟩ := Disk.hasFolder_iff.mp hbefore
    exact Disk.hasFolder_join hname (Disk.namesOf_of_resolve hp) hway hend.rootAt hfolder
  have hcontainers : View.FolderAt s'.disk.top.look (containersAt place) := by
    refine (hend.folders _ hchart.containers).resolve_right fun hbelow => ?_
    have := (List.prefix_append_right_inj _).mp hbelow.1
    exact absurd (List.cons_prefix_cons.mp this).1 (by decide)
  rw [hroot]
  constructor
  · exact hthere ⟨⟨by decide, by decide, by decide⟩, by decide, by decide, by decide⟩ hs.images
      hend.folderAt
  · exact hthere ⟨⟨by decide, by decide, by decide⟩, by decide, by decide, by decide⟩ hs.containers
      hcontainers

/-- Records that were saved are loaded again, if their place was not that of a link, or if there is
something at their path. -/
theorem load_of_save (h : saveSnapshots s = .ok () s')
    (hdistinct : (s.snapshots.map Snapshot.name).Nodup)
    (hthere : (∀ target, s.disk.entry false (statePath s.root) ≠ .ok (.link target)) ∨
      s'.disk.has (statePath s.root) = true) :
    loadSnapshots s'.disk s.root = .ok s.snapshots := by
  obtain ⟨d, hreplace, rfl⟩ := saveSnapshots_ok h
  obtain ⟨hgiven, -⟩ := Disk.replaceFile_ok hreplace
  obtain htext | ⟨⟨p, hresolve, hfolder, hthrough⟩, hblocked⟩ :=
    Disk.text_or_blocked fileName_stateFile hreplace
  · exact loadSnapshots_of_text htext hdistinct
  obtain hlink | hthere := hthere
  · obtain ⟨_, target, _, hlook, -⟩ := hthrough
    obtain ⟨left, hleft⟩ := @Disk.travel_append _ false _ _ _ _ _ (Disk.travel_of_resolve hresolve)
      hfolder (List.cons_ne_nil stateFile [])
    refine absurd ?_ (hlink target)
    rw [Disk.entry, statePath, Disk.resolve_join fileName_stateFile hgiven, hleft,
      Disk.travel_arrived (.beside hfolder fileName_stateFile.toPlain hlook rfl), Except.ok_bind,
      Folder.look_eq_link.mp hlook]
    rfl
  · obtain ⟨q, hq⟩ := Disk.resolve_of_has hthere
    rw [statePath, Disk.resolve_eq hgiven (Path.endsInSlash_join s.root (by decide)),
      hblocked stateFile (by decide) (by decide)] at hq
    cases hq

end

/-- A backend keeps its records when it is opened again. After calls that all succeed, the records
are those that the calls made. A backend on the same disk with the same root can be opened exactly
if its two folders can be made there, and then holds these records, in their order and with every
field. The folders are there as before if there was no link among the images when the backend was
opened, and the folder of containers was none; and also if no call took a program from a folder.
Records with different names that were saved are loaded as they were, unless the file with them took
the place of a link and can no longer be found. -/
theorem reopened_records {s₀ s₁ s₂ : LocalStore} {calls : List RecordCall}
    (hopen : prepare s₀ = .ok () s₁) (hcalls : calls.forM RecordCall.act s₁ = .ok () s₂) :
    s₂.snapshots = calls.foldl (fun m call => call.records m) s₁.snapshots ∧
    (∀ t : LocalStore, t.disk = s₂.disk → t.root = s₂.root →
      (∀ u, prepare t = .ok () u ↔ ∃ d₁ d₂,
        Disk.makeFolders (imagesPath t.root) t.disk = .ok () d₁ ∧
        Disk.makeFolders (containersPath t.root) d₁ = .ok () d₂ ∧
        u = { t with disk := d₂, snapshots := s₂.snapshots }) ∧
      ((∃ place, LinkFree s₁ place) ∨ (∀ call ∈ calls, call.imports = false) ∨
          t.disk.hasFolder (imagesPath t.root) = true ∧
          t.disk.hasFolder (containersPath t.root) = true →
        prepare t = .ok () { t with snapshots := s₂.snapshots })) ∧
    ∀ t t' : LocalStore, (t.snapshots.map Snapshot.name).Nodup → saveSnapshots t = .ok () t' →
      (∀ target, t.disk.entry false (statePath t.root) ≠ .ok (.link target)) ∨
        t'.disk.has (statePath t.root) = true →
      loadSnapshots t'.disk t.root = .ok t.snapshots := by
  have hsteady := steady_of_prepare hopen
  obtain ⟨hrecorded, -, hrecords⟩ := RecordCall.run_recorded hcalls hsteady.recorded
  refine ⟨hrecords, fun t hdisk hroot => ⟨fun u => ?_, fun hkept => ?_⟩,
    fun t t' hdistinct hsave hthere => load_of_save hsave hdistinct hthere⟩
  · rw [prepare_eq_ok_iff, hdisk, hroot]
    constructor
    · rintro ⟨d₁, d₂, m, himages, hcontainers, hload, rfl⟩
      cases hload.symm.trans (hrecorded.loaded d₁ d₂ himages hcontainers)
      exact ⟨d₁, d₂, himages, hcontainers, rfl⟩
    · rintro ⟨d₁, d₂, himages, hcontainers, rfl⟩
      exact ⟨d₁, d₂, s₂.snapshots, himages, hcontainers,
        hrecorded.loaded d₁ d₂ himages hcontainers, rfl⟩
  · have hs₂ : Steady s₂ := by
      obtain ⟨place, hfree⟩ | hcalls' | ⟨himages, hcontainers⟩ := hkept
      · obtain ⟨himages, hcontainers⟩ := hfree.run_folders hsteady hcalls
        exact hrecorded.steady himages hcontainers
      · exact RecordCall.run_steady hcalls hcalls' hsteady
      · rw [hdisk, hroot] at himages hcontainers
        exact hrecorded.steady himages hcontainers
    refine prepare_eq_ok_iff.mpr ⟨t.disk, t.disk, s₂.snapshots, ?_, ?_, ?_, rfl⟩
    · rw [hdisk, hroot]
      exact makeFolders_there (by decide) (by decide) hs₂.images
    · rw [hdisk, hroot]
      exact makeFolders_there (by decide) (by decide) hs₂.containers
    · rw [hdisk, hroot]
      exact hs₂.loaded

namespace RecordSample

/-- Records are added, replaced in their place and removed. -/
def calls : List RecordCall :=
  [.register { name := "b\"\n", image := "i", compiler := some "" },
    .importProgram { name := "x", image := "", languages := ["c"] } "src",
    .register { name := "c", image := "i" },
    .register { name := "b\"\n", image := "j", program := some "é" }, .deregister "c"]

/-- The records after these calls. -/
def records : List Snapshot :=
  [{ name := "b\"\n", image := "j", program := some "é" },
    { name := "x", image := "x", languages := ["c"] }]

theorem runs : prepare.Ensures (store .empty) (fun _ s₁ =>
    (s₁.disk.resolve true (Disk.orHere s₁.root)).toOption = some ["root"] ∧
    s₁.disk.top.every isProper = true ∧
    s₁.disk.top.at? ["root", "images"] = some (.folder .empty) ∧
    s₁.disk.top.look ["root", "containers"] = some (.folder .empty) ∧
    (calls.forM RecordCall.act).Ensures s₁ (fun _ s₂ => s₂.snapshots = records)
      fun _ _ => False) fun _ _ => False := by
  decide +kernel

/-- The folder of containers is a link into an image. -/
def linked : LocalStore :=
  store (.sub "images" (.sub "x" (.sub "sub" .empty .empty) .empty)
    (.link "containers" "images/x/sub" .empty))

/-- The image is replaced, so the link leads nowhere. -/
theorem linked_runs : prepare.Ensures linked (fun _ s₁ =>
    ([RecordCall.importProgram { name := "x", image := "" } "src"].forM RecordCall.act).Ensures s₁
      (fun _ s₂ => prepare.Ensures { disk := s₂.disk, root := s₂.root } (fun _ _ => False)
        fun _ _ => True) fun _ _ => False) fun _ _ => False := by
  decide +kernel

/-- The path of the root folder leads through a link in it, where the records are to be written. -/
def knotted : LocalStore :=
  { disk := { top := .sub "d" (.link "snapshots.json" "." .empty) .empty }
    root := "d/snapshots.json" }

theorem knotted_runs : saveSnapshots.Ensures knotted
    (fun _ t' => (loadSnapshots t'.disk knotted.root).toOption = none) fun _ _ => False := by
  decide +kernel

end RecordSample

/-- The records that the sample calls leave are there when the backend is opened again. -/
theorem reopened_records_sample : ∃ s₁ s₂, prepare (RecordSample.store .empty) = .ok () s₁ ∧
    LinkFree s₁ ["root"] ∧ RecordSample.calls.forM RecordCall.act s₁ = .ok () s₂ ∧
    s₂.snapshots = RecordSample.records ∧
    prepare { disk := s₂.disk, root := s₂.root } =
      .ok () { disk := s₂.disk, root := s₂.root, snapshots := s₂.snapshots } := by
  obtain ⟨_, s₁, hopen, hroot, hproper, himages, hcontainers, hruns⟩ :=
    RecordSample.runs.exists_ok
  obtain ⟨_, s₂, hcalls, hrecords⟩ := hruns.exists_ok
  have hfree : LinkFree s₁ ["root"] :=
    ⟨⟨hproper, .empty, himages, rfl⟩, Except.eq_ok_of_toOption hroot, hcontainers⟩
  obtain ⟨-, hreopened, -⟩ := reopened_records hopen hcalls
  exact ⟨s₁, s₂, hopen, hfree, hcalls, hrecords,
    (hreopened { disk := s₂.disk, root := s₂.root } rfl rfl).2 (.inl ⟨_, hfree⟩)⟩

/-- A backend whose folder of containers is a link into an image that a call replaces cannot be
opened again. Records that take the place of a link on the way to the root folder cannot be
loaded. -/
theorem reopening_linked :
    (∃ s₁ s₂, prepare RecordSample.linked = .ok () s₁ ∧
      [RecordCall.importProgram { name := "x", image := "" } "src"].forM RecordCall.act s₁ =
        .ok () s₂ ∧
      ∀ u, prepare { disk := s₂.disk, root := s₂.root } ≠ .ok () u) ∧
    ∃ t', saveSnapshots RecordSample.knotted = .ok () t' ∧
      ∀ m, loadSnapshots t'.disk RecordSample.knotted.root ≠ .ok m := by
  constructor
  · obtain ⟨_, s₁, hopen, hruns⟩ := RecordSample.linked_runs.exists_ok
    obtain ⟨_, s₂, hcalls, hfails⟩ := hruns.exists_ok
    exact ⟨s₁, s₂, hopen, hcalls, fun u hu => hfails.of_ok hu⟩
  · obtain ⟨_, t', hsave, hnone⟩ := RecordSample.knotted_runs.exists_ok
    refine ⟨t', hsave, fun m hm => ?_⟩
    rw [hm] at hnone
    cases hnone

end LocalStore

end Mutagenesis
