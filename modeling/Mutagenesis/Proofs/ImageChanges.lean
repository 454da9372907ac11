import Mutagenesis.Proofs.EnclosedFiles
import Mutagenesis.Proofs.FolderChanges
import Mutagenesis.Proofs.SavedRecords

/-!
# Changes to an image

Images are folders below one folder in the root folder. If there are no links among them (`Shelf`),
and the path of the root folder leads there if anywhere (`Rooted`), then the path of an image leads
straight down to it. So clearing an image and copying files to it touch nothing but what is at and
below the image, folders on the way to it, and the file with the records. An invariant that such
changes keep (`Guards`) is kept by importing a program, keeping a container and deleting an image,
whether these calls succeed or fail (`Guards.ensures_importProgram`, `Guards.ensures_persist`,
`Guards.ensures_deleteImage`).
-/

set_option autoImplicit false

namespace Mutagenesis

namespace Disk

/-! ## Walks downwards -/

section

variable {view : View} {follow : Bool} {g ns : List String} {stop : Stop}

/-- A walk that does not go up and meets no link goes down along its names. -/
theorem Walks.eq_down (h : Walks view follow g ns stop) (hup : ".." ∉ ns)
    (hlink : ∀ q target, q <+: ns.filter (· ≠ ".") → view (g ++ q) ≠ some (.link target)) :
    stop = .arrived (g ++ ns.filter (· ≠ ".")) := by
  induction h with
  | here => rw [List.filter_nil, List.append_nil]
  | dot _ _ ih => exact ih (fun hmem => hup (List.mem_cons_of_mem _ hmem)) (by simpa using hlink)
  | up => exact absurd List.mem_cons_self hup
  | @into g rest name stop _ hname _ _ ih =>
    have hkeep : (name :: rest).filter (· ≠ ".") = name :: rest.filter (· ≠ ".") :=
      List.filter_cons_of_pos (by simpa using hname.notDot)
    rw [hkeep] at hlink ⊢
    rw [ih (fun hmem => hup (List.mem_cons_of_mem _ hmem)), List.append_assoc,
      List.singleton_append]
    intro q target hq
    rw [List.append_assoc]
    exact hlink _ target (List.cons_prefix_cons.mpr ⟨rfl, hq⟩)
  | @link g rest name target _ hname hat _ =>
    refine absurd hat (hlink [name] target ?_)
    rw [List.filter_cons_of_pos (by simpa using hname.notDot)]
    exact List.cons_prefix_cons.mpr ⟨rfl, List.nil_prefix⟩
  | beside _ hname _ _ | file _ hname _ | nothing _ hname _ =>
    rw [List.filter_cons_of_pos (by simpa using hname.notDot), List.filter_nil]

/-- Proper names lead straight down from the top of the disk, if there are no links on the way. -/
theorem place_down {d : Disk} {r : List String} (hns : ∀ name ∈ ns, name ≠ "." ∧ name ≠ "..")
    (hlink : ∀ q target, q <+: ns → d.top.look q ≠ some (.link target))
    (hr : d.place true true ns = .ok r) : r = ns := by
  have hall : ns.filter (· ≠ ".") = ns :=
    List.filter_eq_self.mpr fun name hname => by simpa using (hns name hname).1
  have hdown {stop : Stop} (hwalk : Walks d.top.look true [] ns stop) : stop = .arrived ns := by
    have hstop := hwalk.eq_down (fun hmem => (hns _ hmem).2 rfl) fun q target hq =>
      hlink q target (hall ▸ hq)
    rwa [hall] at hstop
  obtain hwalk | ⟨g, target, rest, hwalk, -⟩ := travel_eq_ok hr
  · cases hdown hwalk
    rfl
  · cases hdown hwalk

end

/-! ## What operations keep -/

/-- An operation keeps something whether it succeeds or fails; if it succeeds, more holds. -/
def Keeps {α : Type} (inv : Disk → Prop) (act : DiskAction α) (d : Disk) (done : α → Disk → Prop) :
    Prop :=
  match act d with
  | .ok a d' => inv d' ∧ done a d'
  | .error _ d' => inv d'

section

variable {α β : Type} {inv : Disk → Prop} {d : Disk}

/-- Two actions in a row keep what each of them keeps. -/
theorem Keeps.bind {x : DiskAction α} {f : α → DiskAction β} {done : α → Disk → Prop}
    {done' : β → Disk → Prop} (h : Keeps inv x d done)
    (hf : ∀ a d', inv d' → done a d' → Keeps inv (f a) d' done') :
    Keeps inv (x >>= f) d done' := by
  unfold Keeps at h ⊢
  change match EStateM.bind x f d with | .ok a d' => inv d' ∧ done' a d' | .error _ d' => inv d'
  unfold EStateM.bind
  cases hx : x d with
  | ok a d' =>
    rw [hx] at h
    exact hf a d' h.1 h.2
  | error fault d' =>
    rw [hx] at h
    exact h

theorem keeps_lift (h : inv d) (outcome : Disk → Except DiskFault α) :
    Keeps inv (lift outcome) d fun a d' => outcome d = .ok a ∧ d' = d := by
  unfold Keeps lift
  cases houtcome : outcome d with
  | ok a => exact ⟨h, rfl, rfl⟩
  | error fault => exact h

theorem keeps_get (h : inv d) : Keeps inv get d fun a d' => a = d ∧ d' = d :=
  ⟨h, rfl, rfl⟩

/-- Writing at a place keeps what putting the file there keeps. -/
theorem keeps_writeAt {place : List String} {content : Content} (h : inv d)
    (hput : ¬View.FolderAt d.top.look place →
      inv { d with top := d.top.putAt place (.file content) }) :
    Keeps inv (writeAt place content) d fun _ _ => True := by
  refine (keeps_get h).bind ?_
  rintro _ _ - ⟨rfl, rfl⟩
  split
  · exact h
  · next hnot =>
    refine ⟨hput fun hfolder => ?_, trivial⟩
    obtain ⟨entries, hat⟩ := Folder.look_eq_folder.mp hfolder
    exact hnot entries hat

theorem keeps_modify {f : Disk → Disk} (h : inv (f d)) :
    Keeps inv (modify f : DiskAction Unit) d fun _ d' => d' = f d :=
  ⟨h, rfl⟩

end

end Disk

namespace LocalStore

open Disk (View linkLimit travel)

/-! ## The folder of images -/

/-- The place of the folder of images in the root folder. -/
def imagesAt (place : List String) : List String :=
  place ++ ["images"]

/-- The place of the folder of containers in the root folder. -/
def containersAt (place : List String) : List String :=
  place ++ ["containers"]

/-- The place of the file with the records of snapshots in the root folder. -/
def stateAt (place : List String) : List String :=
  place ++ [stateFile]

/-- A name that an entry of a folder can have. -/
def isProper (name : String) (_ : Entry) : Bool :=
  name ≠ "." ∧ name ≠ ".."

/-- An entry that is no link. -/
def isSolid (_ : String) : Entry → Bool
  | .link _ => false
  | _ => true

/-- The folder of images is in the root folder at a place, with no links in it. -/
structure Shelf (place : List String) (d : Disk) : Prop where
  proper : d.top.every isProper = true
  solid : ∃ images, d.top.at? (imagesAt place) = some (.folder images) ∧
    images.every isSolid = true

section

variable {root : String} {place a : List String} {d : Disk} {name : String}

theorem Shelf.folderAt (h : Shelf place d) : View.FolderAt d.top.look (imagesAt place) :=
  Folder.look_eq_folder.mpr (h.solid.imp fun _ => And.left)

theorem Shelf.rootAt (h : Shelf place d) : View.FolderAt d.top.look place := by
  have := Folder.look_dropLast h.folderAt
  rwa [imagesAt, List.dropLast_concat] at this

/-- There are no links among the images. -/
theorem Shelf.noLink (h : Shelf place d) (q : List String) (target : String) :
    d.top.look (imagesAt place ++ q) ≠ some (.link target) := by
  intro hlink
  obtain ⟨images, himages, hsolid⟩ := h.solid
  rw [Folder.look, Folder.at?_append, himages] at hlink
  obtain ⟨e, he, hshallow⟩ := Option.map_eq_some_iff.mp hlink
  by_cases hq : q = []
  · subst hq
    cases he
    cases hshallow
  · obtain ⟨name, hname⟩ := ((Folder.entrywise_every _).at? hsolid he).1 hq
    rw [hshallow] at hname
    cases hname

/-- Places on the disk have proper names. -/
theorem proper_of_look {f : Folder} {path : List String} (hf : f.every isProper = true)
    (h : (f.look path).isSome = true) : ∀ name ∈ path, name ≠ "." ∧ name ≠ ".." := by
  induction path generalizing f with
  | nil => exact fun _ hname => absurd hname List.not_mem_nil
  | cons name path ih =>
    obtain ⟨e, he⟩ := Option.isSome_iff_exists.mp h
    obtain ⟨e, he, -⟩ := Option.map_eq_some_iff.mp he
    rw [Folder.at?_cons, Option.bind_eq_some_iff] at he
    obtain ⟨found, hfound, hrest⟩ := he
    obtain ⟨hname, hchildren⟩ := Folder.every_child? hf hfound
    refine List.forall_mem_cons.mpr ⟨by simpa [isProper] using hname, ?_⟩
    cases found with
    | folder children =>
      refine ih (hchildren children rfl) ?_
      rw [Folder.look, show children.at? path = some e from hrest]
      rfl
    | file _ | link _ =>
      cases path with
      | nil => exact fun _ hname => absurd hname List.not_mem_nil
      | cons => cases hrest

section

variable (h : Shelf place d)
include h

/-- Proper names lead straight down from the top of the disk into the folder of images. -/
theorem Shelf.descend {b r : List String} (hb : ∀ name ∈ b, name ≠ "." ∧ name ≠ "..")
    (hr : d.place true true (imagesAt place ++ b) = .ok r) : r = imagesAt place ++ b := by
  refine Disk.place_down (fun name hname => ?_) (fun q target hq => ?_) hr
  · exact (List.mem_append.mp hname).elim
      (proper_of_look h.proper (by rw [h.folderAt]; rfl) name) (hb name)
  · obtain hbefore | ⟨rest, rfl⟩ :=
      List.prefix_or_prefix_of_prefix hq (List.prefix_append (imagesAt place) b)
    · rw [Folder.look_of_prefix h.folderAt hbefore]
      nofun
    · exact h.noLink rest target

/-- A change below the folder of images leaves it where it is. -/
theorem Shelf.within (a : List String) {change : Folder → Folder}
    (hproper : ∀ c : Folder, c.every isProper = true → (change c).every isProper = true)
    (hsolid : ∀ c : Folder, c.every isSolid = true → (change c).every isSolid = true) :
    Shelf place { d with top := d.top.within (imagesAt place ++ a) change } := by
  obtain ⟨images, himages, hsolidImages⟩ := h.solid
  have hat : (d.top.within (imagesAt place ++ a) change).at? (imagesAt place) =
      some (.folder (images.within a change)) := by
    have hwithin := @Folder.at?_within _ _ _ (·.within a change) himages []
    rwa [List.append_nil, ← Folder.within_append] at hwithin
  exact ⟨(Folder.entrywise_every _).within h.proper hproper, _, hat,
    (Folder.entrywise_every _).within hsolidImages hsolid⟩

/-- A new file or an empty folder among the images is no link. -/
theorem Shelf.put {e : Entry} (hname : name ≠ "." ∧ name ≠ "..")
    (he : e = .folder .empty ∨ ∃ content, e = .file content) :
    Shelf place { d with top := d.top.putAt (imagesAt place ++ a ++ [name]) e } := by
  have hput (ok : String → Entry → Bool) (hok : ok name e.shallow = true) (c : Folder)
      (hc : c.every ok = true) : (c.put name e).every ok = true := by
    refine Folder.every_put hc hok ?_
    rintro _ rfl
    obtain heq | ⟨_, heq⟩ := he
    · cases heq
      rfl
    · cases heq
  have hproper : isProper name e.shallow = true := by simpa [isProper] using hname
  have hsolid : isSolid name e.shallow = true := by
    obtain rfl | ⟨_, rfl⟩ := he <;> rfl
  rw [Folder.putAt_eq_within]
  exact h.within a (hput _ hproper) (hput _ hsolid)

/-- Nothing becomes a link when an entry is taken away. -/
theorem Shelf.erase :
    Shelf place { d with top := d.top.eraseAt (imagesAt place ++ a ++ [name]) } := by
  rw [Folder.eraseAt_eq_within]
  exact h.within a (fun c hc => Folder.every_erase hc) (fun c hc => Folder.every_erase hc)

/-- All images may be taken away. -/
theorem Shelf.clear :
    Shelf place { d with top := d.top.putAt (imagesAt place) (.folder .empty) } := by
  obtain ⟨entries, hentries⟩ := Folder.look_eq_folder.mp h.rootAt
  refine ⟨?_, .empty, Folder.at?_putAt hentries "images" _, rfl⟩
  change (d.top.putAt (place ++ ["images"]) _).every isProper = true
  rw [Folder.putAt_eq_within]
  have hname : isProper "images" (.folder .empty) = true := by decide
  refine (Folder.entrywise_every _).within h.proper fun c hc => Folder.every_put hc hname ?_
  rintro _ ⟨⟩
  rfl

/-- A file that takes the place of the records leaves the folder of images where it is. -/
theorem Shelf.state (content : Content) :
    Shelf place { d with top := d.top.putAt (stateAt place) (.file content) } := by
  obtain ⟨c, hc⟩ := Folder.look_eq_folder.mp h.rootAt
  obtain ⟨images, himages, hsolid⟩ := h.solid
  have hat : (d.top.putAt (stateAt place) (.file content)).at? (imagesAt place) =
      some (.folder images) := by
    have hsame : Folder.child? "images" (Folder.put stateFile (.file content) c) =
        c.child? "images" := by
      rw [Folder.child?_put, if_neg (by decide)]
    rw [imagesAt, Folder.at?_append, hc] at himages
    rw [stateAt, Folder.putAt_eq_within, imagesAt, Folder.at?_within hc]
    exact hsame.trans himages
  refine ⟨?_, images, hat, hsolid⟩
  change (d.top.putAt (place ++ [stateFile]) _).every isProper = true
  rw [Folder.putAt_eq_within]
  have hname : isProper stateFile (.folder .empty) = true := by decide
  exact (Folder.entrywise_every _).within h.proper fun c hc => Folder.every_put hc hname nofun

end

/-! ## Paths of images -/

/-- If the path of the root folder leads to a folder, then to the one that holds the images. -/
structure Rooted (root : String) (place : List String) (d : Disk) : Prop extends Shelf place d where
  found : ∀ p, travel d.top true (linkLimit + 1) (d.start root) (Path.names root) = .ok p →
    View.FolderAt d.top.look p → p = place

/-- Among the images, the way goes down along the names. -/
theorem Rooted.place_eq (h : Rooted root place d) {follow : Bool} {ns r : List String}
    (hup : ".." ∉ ns)
    (hr : travel d.top follow (linkLimit + 1) (d.start root) (Path.names root ++ "images" :: ns) =
      .ok r) : r = imagesAt place ++ ns.filter (· ≠ ".") := by
  obtain ⟨p, links, hroot, hfolder, hr⟩ := Disk.travel_split hr (List.cons_ne_nil "images" ns)
  obtain rfl := h.found p hroot hfolder
  have hkeep : ("images" :: ns).filter (· ≠ ".") = "images" :: ns.filter (· ≠ ".") :=
    List.filter_cons_of_pos (by decide)
  have hdown {stop : Disk.Stop} (hwalk : Disk.Walks d.top.look follow p ("images" :: ns) stop) :
      stop = .arrived (imagesAt p ++ ns.filter (· ≠ ".")) := by
    have hstop := hwalk.eq_down (by simpa using hup) fun q target hq => ?_
    · rwa [hkeep, List.append_cons] at hstop
    · rw [hkeep, List.prefix_cons_iff] at hq
      obtain rfl | ⟨q, rfl, -⟩ := hq
      · rw [List.append_nil, hfolder]
        nofun
      · rw [List.append_cons]
        exact h.noLink q target
  cases links with
  | zero => cases hr
  | succ links =>
    obtain hwalk | ⟨g, target, rest, hwalk, -⟩ := Disk.travel_eq_ok hr
    · cases hdown hwalk
      rfl
    · cases hdown hwalk

/-- A path leads to the folder of images, and from there along names, never up. -/
structure Leads (root path : String) (ns : List String) : Prop where
  absolute : Path.isAbsolute path = Path.isAbsolute root
  names : Path.names path = Path.names root ++ "images" :: ns
  level : ".." ∉ ns

theorem leads_images (root : String) : Leads root (imagesPath root) [] := by
  have hrelative : Path.isAbsolute "images" = false := by decide
  have hnames : Path.names "images" = ["images"] := by decide
  exact ⟨Path.isAbsolute_join root hrelative, by rw [imagesPath, Path.names_join root hrelative,
    hnames], List.not_mem_nil⟩

/-- A path that leads into the images goes on with a relative part. -/
theorem Leads.join {path inner : String} {ns : List String} (h : Leads root path ns)
    (hinner : inner = "" ∨ Path.isRelative inner = true) :
    Leads root (Path.join path inner) (ns ++ Path.names inner) := by
  obtain ⟨habsolute, hup⟩ : Path.isAbsolute inner = false ∧ ".." ∉ Path.names inner := by
    obtain rfl | hrelative := hinner
    · exact ⟨by decide, by decide⟩
    · exact (Path.isRelative_iff.mp hrelative).2
  refine ⟨(Path.isAbsolute_join path habsolute).trans h.absolute, ?_, ?_⟩
  · rw [Path.names_join path habsolute, h.names, List.append_assoc, List.cons_append]
  · exact fun hmem => (List.mem_append.mp hmem).elim h.level hup

variable {path : String} {ns : List String}

theorem Leads.start (h : Leads root path ns) (d : Disk) : d.start path = d.start root := by
  rw [Disk.start, Disk.start, h.absolute]

/-- The names that a path is looked up with, below the folder of images. -/
def lookedUp (path : String) (ns : List String) : List String :=
  ns ++ if Path.endsInSlash path then ["."] else []

theorem lookedUp_level (h : Leads root path ns) : ".." ∉ lookedUp path ns := by
  unfold lookedUp
  split
  · simpa using h.level
  · simpa using h.level

/-- A path that leads into the images is travelled from the root folder. -/
theorem Leads.resolve (h : Leads root path ns) (d : Disk) (follow : Bool) :
    d.resolve follow path = Disk.namesOf path >>= fun _ =>
      travel d.top follow (linkLimit + 1) (d.start root)
        (Path.names root ++ "images" :: lookedUp path ns) := by
  unfold Disk.resolve
  cases hgiven : Disk.namesOf path with
  | error fault => rfl
  | ok names =>
    change travel d.top follow (linkLimit + 1) (d.start path) (names ++ _) = _
    rw [Disk.names_of_namesOf hgiven, h.start, h.names, List.append_assoc, List.cons_append]
    rfl

/-- The path of an image leads straight down to it. -/
theorem Rooted.resolve_eq (h : Rooted root place d) (hpath : Leads root path ns) {follow : Bool}
    {r : List String} (hr : d.resolve follow path = .ok r) :
    r = imagesAt place ++ ns.filter (· ≠ ".") := by
  rw [hpath.resolve] at hr
  obtain ⟨_, -, hr⟩ := Except.bind_eq_ok_iff.mp hr
  rw [h.place_eq (lookedUp_level hpath) hr, lookedUp]
  split <;> simp

/-- The path of an image, as it is seen from the folder of images. It may also be written so that it
leads to that folder itself. -/
def ImagePath (root path : String) (image : List String) : Prop :=
  ∃ ns, Leads root path ns ∧ ns.filter (· ≠ ".") = image ∧ ns ≠ []

/-- A path with some of the names of an image's path. -/
structure OnTheWay (root path : String) (image : List String) : Prop where
  absolute : Path.isAbsolute path = Path.isAbsolute root
  names : ∃ ns, Path.names path <+: Path.names root ++ "images" :: ns ∧ ".." ∉ ns ∧
    ns.filter (· ≠ ".") = image

/-- A folder that holds something on the way to an image is on the way too. -/
theorem OnTheWay.parent {image : List String} {parent : String} (h : OnTheWay root path image)
    (hparent : Path.parent? path = some parent) (hne : parent ≠ "") :
    OnTheWay root parent image := by
  obtain ⟨habsolute, hfew⟩ := Path.names_parent? hparent hne
  obtain ⟨ns, hnames, hns⟩ := h.names
  exact ⟨habsolute.trans h.absolute, ns, hfew.trans hnames, hns⟩

/-- The last of some names, and what stands before it. -/
theorem last_name (hup : ".." ∉ ns) (hne : ns.filter (· ≠ ".") ≠ []) :
    ∃ a name, ns.filter (· ≠ ".") = a ++ [name] ∧ name ≠ "." ∧ name ≠ ".." := by
  refine ⟨_, _, (List.dropLast_concat_getLast hne).symm, ?_⟩
  have hmem := List.mem_filter.mp (List.getLast_mem hne)
  refine ⟨by simpa using hmem.2, fun heq => hup ?_⟩
  rw [← heq]
  exact hmem.1

/-- Proper names with one more. -/
theorem proper_concat {b : List String} (hb : ∀ name ∈ b, name ≠ "." ∧ name ≠ "..")
    (hname : name ≠ "." ∧ name ≠ "..") : ∀ n ∈ b ++ [name], n ≠ "." ∧ n ≠ ".." := fun n hn =>
  (List.mem_append.mp hn).elim (hb n) fun hlast => List.mem_singleton.mp hlast ▸ hname

/-! ## What changes to an image keep -/

/-- What is kept by changes to an image: entries may be put at and below the image and taken away
there, new folders may be made on the way to it, also on the way to the folder of images if that is
broken, all images may be taken away if the image is all of them, and the records may be written. -/
structure Guards (root : String) (place image : List String) (inv : Disk → Prop) : Prop where
  rooted : ∀ {d}, inv d → Rooted root place d
  before : ∀ {d d' path}, inv d → Path.isAbsolute path = Path.isAbsolute root →
    Path.names path <+: Path.names root ++ ["images"] → Disk.makeFolder path d = .ok () d' → inv d'
  put : ∀ {d a name e}, inv d → name ≠ "." ∧ name ≠ ".." →
    (e = .folder .empty ∨ ∃ content, e = .file content) →
    (image <+: a ++ [name] ∨ a ++ [name] <+: image ∧ e = .folder .empty ∧
      d.top.look (imagesAt place ++ a ++ [name]) = none) →
    inv { d with top := d.top.putAt (imagesAt place ++ a ++ [name]) e }
  erase : ∀ {d a name}, inv d → image <+: a ++ [name] →
    inv { d with top := d.top.eraseAt (imagesAt place ++ a ++ [name]) }
  clear : ∀ {d}, inv d → image = [] →
    inv { d with top := d.top.putAt (imagesAt place) (.folder .empty) }
  state : ∀ {d content}, inv d → ¬View.FolderAt d.top.look (stateAt place) →
    inv { d with top := d.top.putAt (stateAt place) (.file content) }

namespace Guards

variable {image : List String} {inv : Disk → Prop} (hinv : Guards root place image inv)

include hinv

/-- An image is removed with all it holds. -/
theorem keeps_removeFolder (h : inv d) (hpath : ImagePath root path image) :
    Disk.Keeps inv (Disk.removeFolder path) d fun _ _ => True := by
  obtain ⟨ns, hleads, hns, hne⟩ := hpath
  refine (Disk.keeps_lift h _).bind ?_
  rintro r d' - ⟨hr, rfl⟩
  have hplace := (hinv.rooted h).resolve_eq hleads hr
  rw [hns] at hplace
  subst hplace
  refine (Disk.keeps_get h).bind ?_
  rintro _ _ - ⟨rfl, rfl⟩
  by_cases hnil : image = []
  · -- All images at once: the path ends in a dot, so the folder is emptied and the removal fails.
    have hdots : ∀ name ∈ ns, name = "." := by
      rw [hnil, List.filter_eq_nil_iff] at hns
      simpa using hns
    have hlast : (Path.names path).getLast? = some "." := by
      rw [hleads.names, List.getLast?_append, List.getLast?_cons,
        List.getLast?_eq_some_getLast hne, hdots _ (List.getLast_mem hne)]
      rfl
    obtain ⟨entries, hat⟩ := Folder.look_eq_folder.mp (hinv.rooted h).folderAt
    rw [hnil, List.append_nil, hat]
    dsimp only
    rw [if_pos hlast]
    exact (Disk.keeps_modify (hinv.clear h hnil)).bind fun _ _ h _ => h
  · obtain ⟨a, name, himage, hname⟩ := last_name hleads.level (hns ▸ hnil)
    rw [hns] at himage
    have hinside : image <+: a ++ [name] := himage ▸ List.prefix_rfl
    rw [himage, ← List.append_assoc]
    have hempty := hinv.put h hname (.inl rfl) (.inl hinside)
    have herase := hinv.erase h hinside
    split
    · exact h
    · exact h
    · exact ⟨herase, trivial⟩
    · split
      · exact (Disk.keeps_modify hempty).bind fun _ _ h _ => h
      · refine (Disk.keeps_get h).bind ?_
        rintro _ _ - ⟨rfl, rfl⟩
        split
        · exact (Disk.keeps_modify hempty).bind fun _ _ h _ => h
        · exact ⟨herase, trivial⟩

/-- A folder is made on the way to an image, or the image itself. -/
theorem makeFolder (h : inv d) (hpath : OnTheWay root path image) {d' : Disk}
    (hmade : Disk.makeFolder path d = .ok () d') : inv d' := by
  obtain ⟨habsolute, ns, hnames, hup, hns⟩ := hpath
  have hstart : d.start path = d.start root := by rw [Disk.start, Disk.start, habsolute]
  have hshelf : Path.names root ++ ["images"] <+: Path.names root ++ "images" :: ns :=
    ⟨ns, by simp⟩
  obtain hbefore | ⟨ms, hms⟩ := List.prefix_or_prefix_of_prefix hnames hshelf
  · exact hinv.before h habsolute hbefore hmade
  have hfew : ms <+: ns := by
    rw [← hms, List.append_assoc, List.prefix_append_right_inj] at hnames
    simpa using hnames
  have hlevel : ".." ∉ ms := fun hmem => hup (hfew.subset hmem)
  rw [Disk.makeFolder_eq] at hmade
  split at hmade
  · cases hmade
  · next names hgiven =>
    rw [Disk.names_of_namesOf hgiven, hstart, ← hms, List.append_assoc] at hmade
    split at hmade
    · cases hmade
    · next r hr =>
      split at hmade
      · cases hmade
      · next hnone =>
        cases hmade
        have hlook : d.top.look r = none := by
          rw [Folder.look, hnone]
          rfl
        obtain rfl := (hinv.rooted h).place_eq hlevel hr
        obtain ⟨a, name, ha, hname⟩ := last_name hlevel fun hnil => by
          rw [hnil, List.append_nil, (hinv.rooted h).folderAt] at hlook
          cases hlook
        have hway : a ++ [name] <+: image := by
          rw [← ha, ← hns]
          exact hfew.filter _
        rw [ha, ← List.append_assoc] at hlook ⊢
        exact hinv.put h hname (.inl rfl) (.inr ⟨hway, rfl, hlook⟩)

/-- The folder of an image is made, and those that hold it. -/
theorem keeps_makeFolders (h : inv d) (hpath : OnTheWay root path image) (steps : Nat) :
    Disk.Keeps inv (Disk.makeFoldersWithin steps path) d fun _ _ => True := by
  have hsettle {d : Disk} (h : inv d) {path : String} (hpath : OnTheWay root path image) :
      Disk.Keeps inv (Disk.settle path) d fun _ _ => True := by
    unfold Disk.Keeps Disk.settle
    cases hmade : Disk.makeFolder path d with
    | ok u d' => exact ⟨hinv.makeFolder h hpath hmade, trivial⟩
    | error fault d' =>
      dsimp only
      cases d.hasFolder path with
      | true => exact ⟨h, trivial⟩
      | false => exact h
  induction steps generalizing path with
  | zero => exact h
  | succ steps ih =>
    by_cases hempty : path.isEmpty = true
    · rw [Disk.makeFoldersWithin, if_pos hempty]
      exact ⟨h, trivial⟩
    · have hthere := hsettle h hpath
      have hsucc := Disk.makeFoldersWithin_succ steps (by simpa using hempty) d
      unfold Disk.Keeps at hthere ⊢
      rw [hsucc]
      cases hmade : Disk.makeFolder path d with
      | ok u d' => exact hthere
      | error fault d' =>
        cases fault
        case noEntry =>
          cases hparent : Path.parent? path with
          | none => exact h
          | some parent =>
            have hbefore : Disk.Keeps inv (Disk.makeFoldersWithin steps parent) d
                fun _ _ => True := by
              by_cases hnone : parent = ""
              · subst hnone
                cases steps with
                | zero => exact h
                | succ steps => exact ⟨h, trivial⟩
              · exact ih (hpath.parent hparent hnone)
            unfold Disk.Keeps at hbefore
            dsimp only
            cases hwithin : Disk.makeFoldersWithin steps parent d with
            | ok u d' =>
              rw [hwithin] at hbefore
              exact hsettle hbefore.1 hpath
            | error fault d' =>
              rw [hwithin] at hbefore
              exact hbefore
        all_goals exact hthere

section

variable {b : List String} (hb : ∀ name ∈ b, name ≠ "." ∧ name ≠ "..") (hinside : image <+: b)

include hb hinside

/-- Entering a folder in an image keeps the invariant. -/
theorem keeps_enterFolder (h : inv d) (hname : name ≠ "." ∧ name ≠ "..") :
    Disk.Keeps inv (Disk.enterFolder (imagesAt place ++ b) name) d
      fun r _ => r = imagesAt place ++ (b ++ [name]) := by
  refine (Disk.keeps_lift h _).bind ?_
  rintro r d' - ⟨hr, rfl⟩
  rw [List.append_assoc] at hr
  obtain rfl := (hinv.rooted h).descend (proper_concat hb hname) hr
  refine (Disk.keeps_get h).bind ?_
  rintro _ _ - ⟨rfl, rfl⟩
  split
  · exact ⟨h, rfl⟩
  · exact h
  · refine (Disk.keeps_get h).bind ?_
    rintro _ d' - ⟨rfl, rfl⟩
    split
    · exact h
    · have hput := hinv.put h hname (.inl rfl) (.inl (hinside.trans (List.prefix_append ..)))
      rw [List.append_assoc] at hput
      exact (Disk.keeps_modify hput).bind fun _ _ h _ => ⟨h, rfl⟩

/-- Copying a file into an image keeps the invariant. -/
theorem keeps_copyFile (h : inv d) (hname : name ≠ "." ∧ name ≠ "..") (source : List String)
    (content : Content) :
    Disk.Keeps inv (Disk.copyFile source (imagesAt place ++ b) name content) d
      fun _ _ => True := by
  refine (Disk.keeps_lift h _).bind ?_
  rintro r d' - ⟨hr, rfl⟩
  rw [List.append_assoc] at hr
  obtain rfl := (hinv.rooted h).descend (proper_concat hb hname) hr
  refine Disk.keeps_writeAt h fun _ => ?_
  have hput (content : Content) := hinv.put h hname (.inr ⟨content, rfl⟩)
    (.inl (hinside.trans (List.prefix_append ..)))
  simp only [List.append_assoc] at hput
  exact hput _

end

/-- Entries are copied into an image. -/
theorem keeps_copyEntries (skip : String → Bool) {entries : Folder} {b : List String} (h : inv d)
    (hb : ∀ name ∈ b, name ≠ "." ∧ name ≠ "..") (hinside : image <+: b)
    (hentries : entries.every isProper = true) (source : List String) :
    Disk.Keeps inv (Disk.copyEntries skip source (imagesAt place ++ b) entries) d
      fun _ _ => True := by
  induction entries generalizing d b source with
  | empty => exact ⟨h, trivial⟩
  | link name target rest ih =>
    simp only [Folder.every, Bool.and_eq_true] at hentries
    exact ih h hb hinside hentries.2 source
  | file name content rest ih =>
    simp only [Folder.every, Bool.and_eq_true] at hentries
    have hname : name ≠ "." ∧ name ≠ ".." := by simpa [isProper] using hentries.1
    have hrest {d : Disk} (h : inv d) := ih h hb hinside hentries.2 source
    rw [Disk.copyEntries]
    cases skip name with
    | true => exact hrest h
    | false =>
      exact (hinv.keeps_copyFile hb hinside h hname source content).bind fun _ _ h _ => hrest h
  | sub name children rest ihChildren ih =>
    simp only [Folder.every, Bool.and_eq_true] at hentries
    have hname : name ≠ "." ∧ name ≠ ".." := by simpa [isProper] using hentries.1.1
    have hrest {d : Disk} (h : inv d) := ih h hb hinside hentries.2 source
    rw [Disk.copyEntries]
    cases skip name with
    | true => exact hrest h
    | false =>
      refine (hinv.keeps_enterFolder hb hinside h hname).bind fun r d' h hr => ?_
      rw [hr]
      have hchildren := ihChildren h (proper_concat hb hname)
        (hinside.trans (List.prefix_append ..)) hentries.1.2 (source ++ [name])
      exact hchildren.bind fun _ _ h _ => hrest h

/-- A folder is copied to an image. -/
theorem keeps_copyTree (skip : String → Bool) (source : String) (h : inv d)
    (hpath : ImagePath root path image) :
    Disk.Keeps inv (Disk.copyTree skip source path) d fun _ _ => True := by
  obtain ⟨ns, hleads, hns, -⟩ := hpath
  have hproper : ∀ name ∈ image, name ≠ "." ∧ name ≠ ".." := by
    intro name hname
    rw [← hns, List.mem_filter] at hname
    refine ⟨by simpa using hname.2, ?_⟩
    rintro rfl
    exact hleads.level hname.1
  have hway : OnTheWay root path image :=
    ⟨hleads.absolute, ns, hleads.names ▸ List.prefix_rfl, hleads.level, hns⟩
  refine (hinv.keeps_makeFolders h hway _).bind fun _ d h _ => ?_
  refine (Disk.keeps_lift h _).bind ?_
  rintro entries _ - ⟨hentries, rfl⟩
  refine (Disk.keeps_lift h _).bind ?_
  rintro start _ - ⟨-, rfl⟩
  refine (Disk.keeps_lift h _).bind ?_
  rintro goal d - ⟨hgoal, rfl⟩
  split
  · exact h
  · rw [(hinv.rooted h).resolve_eq hleads hgoal, hns]
    refine hinv.keeps_copyEntries skip h hproper List.prefix_rfl ?_ _
    obtain ⟨e, he, hfolder⟩ := Except.bind_eq_ok_iff.mp hentries
    obtain ⟨r, -, hat⟩ := Except.bind_eq_ok_iff.mp he
    split at hat
    · next found hfound =>
      cases hat
      split at hfolder
      · cases hfolder
        exact ((Folder.entrywise_every _).at? (hinv.rooted h).proper hfound).2 _ rfl
      · cases hfolder
    · cases hat

end Guards

end

/-! ## Calls of the backend -/

/-- The root of a backend, and an invariant of its disk. -/
def Under (root : String) (inv : Disk → Prop) (s : LocalStore) : Prop :=
  s.root = root ∧ inv s.disk

section

variable {root : String} {place image : List String} {inv : Disk → Prop} {s : LocalStore}
  {α : Type}

/-- An action on the disk that keeps the invariant keeps it for the backend. -/
theorem ensures_onDisk {doing : String} {act : DiskAction α} (h : Under root inv s)
    (hact : Disk.Keeps inv act s.disk fun _ _ => True) :
    (onDisk doing act).Ensures s (fun _ => Under root inv) (fun _ => Under root inv) := by
  unfold Disk.Keeps at hact
  unfold Action.Ensures onDisk
  cases hrun : act s.disk with
  | ok a d =>
    rw [hrun] at hact
    exact ⟨h.1, hact.1⟩
  | error fault d =>
    rw [hrun] at hact
    exact ⟨h.1, hact⟩

/-- What is done with the folder of an image. -/
theorem ensures_imageFolder {name : String} {act : String → Action LocalStore α}
    {done : α → LocalStore → Prop} (h : Under root inv s)
    (hact : ∀ folder, ImagePath root folder (Path.lexical name) →
      (act folder).Ensures s done (fun _ => Under root inv)) :
    (get >>= fun state : LocalStore =>
        Action.ofExcept (imageFolder state.root name) >>= act).Ensures s done
      (fun _ => Under root inv) := by
  rw [Action.ensures_bind, Action.ensures_get, Action.ensures_bind, Action.ensures_ofExcept]
  refine ⟨fun folder hfolder => hact folder ?_, fun _ _ => h⟩
  rw [h.1] at hfolder
  obtain ⟨inner, hinner, hjoin⟩ := Except.bind_eq_ok_iff.mp hfolder
  cases hjoin
  obtain ⟨hrelative, rfl⟩ := relative_eq_ok_iff.mp hinner
  obtain ⟨hne, habsolute, hup⟩ := Path.isRelative_iff.mp hrelative
  refine ⟨_, (leads_images _).join (.inr hrelative), ?_, ?_⟩
  · rw [List.nil_append, Path.lexical, Path.foldl_step hup, List.nil_append]
  · rw [List.nil_append]
    exact Path.names_ne_nil hne habsolute

namespace Guards

variable (hinv : Guards root place image inv)

include hinv

theorem ensures_clearImage {folder : String} (h : Under root inv s)
    (hfolder : ImagePath root folder image) :
    (clearImage folder).Ensures s (fun _ => Under root inv) (fun _ => Under root inv) := by
  unfold clearImage
  rw [Action.ensures_bind, Action.ensures_get]
  split
  · exact ensures_onDisk h (hinv.keeps_removeFolder h.2 hfolder)
  · exact h

/-- The records are written beside the folder of images, at once or not at all. -/
theorem ensures_saveSnapshots (h : Under root inv s) :
    saveSnapshots.Ensures s (fun _ => Under root inv) (fun _ => Under root inv) := by
  unfold Action.Ensures saveSnapshots
  dsimp only
  obtain ⟨fault, hfails⟩ | ⟨-, p, hresolve, hfolder, hnot, hput⟩ := Disk.replaceFile_cases s.root
    stateFile (stateJson s.snapshots).pretty s.disk
  · rw [hfails]
    exact h
  · rw [h.1] at hresolve
    obtain rfl := (hinv.rooted h.2).found p (Disk.travel_of_resolve hresolve) hfolder
    rw [hput]
    exact ⟨h.1, hinv.state h.2 hnot⟩

end Guards

/-- A program is imported; if so, what writing the records leaves holds then. -/
theorem Guards.ensures_importProgram {q : Snapshot} {source : String} {done : LocalStore → Prop}
    (hinv : Guards root place (Path.lexical q.name) inv) (h : Under root inv s)
    (hsave : ∀ s, Under root inv s →
      saveSnapshots.Ensures s (fun _ => done) (fun _ => Under root inv)) :
    (importProgram q source).Ensures s (fun _ => done) (fun _ => Under root inv) := by
  refine ensures_imageFolder h fun folder hfolder => ?_
  rw [Action.ensures_bind]
  refine (hinv.ensures_clearImage h hfolder).mono (fun _ s₁ h₁ => ?_) (fun _ _ h => h)
  rw [Action.ensures_bind]
  refine (ensures_onDisk h₁ (hinv.keeps_copyTree _ source h₁.2 hfolder)).mono (fun _ s₂ h₂ => ?_)
    (fun _ _ h => h)
  rw [Action.ensures_bind, register, Action.ensures_bind, Action.ensures_modify]
  exact hsave _ h₂

/-- A container is kept as an image. -/
theorem Guards.ensures_persist {c : Container} {name : String}
    (hinv : Guards root place (Path.lexical name) inv) (h : Under root inv s) :
    (persist c name).Ensures s (fun _ => Under root inv) (fun _ => Under root inv) := by
  rw [persist, Action.ensures_bind, container, Action.ensures_bind, Action.ensures_get]
  split
  · refine ensures_imageFolder h fun folder hfolder => ?_
    rw [Action.ensures_bind]
    refine (hinv.ensures_clearImage h hfolder).mono (fun _ s₁ h₁ => ?_) (fun _ _ h => h)
    exact ensures_onDisk h₁ (hinv.keeps_copyTree _ _ h₁.2 hfolder)
  · exact h

/-- An image is deleted. -/
theorem Guards.ensures_deleteImage {name : String}
    (hinv : Guards root place (Path.lexical name) inv) (h : Under root inv s) :
    (deleteImage name).Ensures s (fun _ => Under root inv) (fun _ => Under root inv) :=
  ensures_imageFolder h fun _ hfolder => ensures_onDisk h (hinv.keeps_removeFolder h.2 hfolder)

end

end LocalStore

end Mutagenesis
