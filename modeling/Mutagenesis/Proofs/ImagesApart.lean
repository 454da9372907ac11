import Mutagenesis.Proofs.ImageChanges

/-!
# Images apart from each other

Images are folders below one folder, so an image whose path continues that of another one lies
inside it. If neither path continues the other, then importing, keeping and deleting the one changes
nothing that is read of the other, whether these calls succeed or fail (`reading_apart`).
-/

set_option autoImplicit false

namespace Mutagenesis

namespace Disk

/-! ## What is found on the way down -/

section

variable {top : Folder} {follow : Bool} {g : List String}

theorem walk_blocked {name : String} {rest : List String} (h : ¬View.FolderAt top.look g) :
    walk top follow g (name :: rest) = .error .notFolder := by
  rw [walk]
  split
  · next entries hat => exact absurd (Folder.look_eq_folder.mpr ⟨_, hat⟩) h
  · rfl

theorem walk_long {name : String} {rest : List String} (h : View.FolderAt top.look g)
    (hdot : name ≠ ".") (hup : name ≠ "..") (hlong : nameLimit < name.utf8ByteSize) :
    walk top follow g (name :: rest) = .error .nameTooLong := by
  obtain ⟨entries, hentries⟩ := Folder.look_eq_folder.mp h
  rw [walk, hentries]
  dsimp only
  rw [if_neg hdot, if_neg hup, if_pos hlong]

end

/-- What is found along names from a folder; links are not followed. -/
def seen (top : Folder) (g ns : List String) : Except DiskFault Entry := do
  match ← walk top true g ns with
  | .arrived r =>
    match top.look r with
    | some e => return e
    | none => .error .noEntry
  | .atLink .. => .error .tooManyLinks

section

variable {top top' : Folder} {g ns rest : List String} {name : String}

theorem seen_dot (h : View.FolderAt top.look g) : seen top g ("." :: rest) = seen top g rest := by
  rw [seen, walk_dot h]
  rfl

/-- A plain name is seen as what is under it. -/
theorem seen_plain (h : View.FolderAt top.look g) (hname : Plain name) :
    seen top g (name :: rest) =
      match top.look (g ++ [name]) with
      | none => .error .noEntry
      | some (.link _) => .error .tooManyLinks
      | some (.file content) => if rest.isEmpty then .ok (.file content) else .error .notFolder
      | some (.folder _) => seen top (g ++ [name]) rest := by
  rw [seen, walk_plain h hname]
  cases hlook : top.look (g ++ [name]) with
  | none => cases rest <;> simp [bind, Except.bind, hlook]
  | some e =>
    cases e with
    | link target => cases rest <;> rfl
    | file content => cases rest <;> simp [bind, Except.bind, hlook, pure, Except.pure]
    | folder children => rfl

/-- What is found without going up is at or below the start. -/
theorem seen_congr (hsame : ∀ q, top'.look (g ++ q) = top.look (g ++ q)) (hup : ".." ∉ ns) :
    seen top' g ns = seen top g ns := by
  have hhere := hsame []
  rw [List.append_nil] at hhere
  induction ns generalizing g with
  | nil =>
    change (match top'.look g with | some e => _ | none => _) = _
    rw [hhere]
    rfl
  | cons name rest ih =>
    obtain ⟨hne, hrest⟩ : ".." ≠ name ∧ ".." ∉ rest := by simpa using hup
    by_cases hfolder : View.FolderAt top.look g
    · have hfolder' : View.FolderAt top'.look g := hhere.trans hfolder
      by_cases hdot : name = "."
      · subst hdot
        rw [seen_dot hfolder', seen_dot hfolder, ih hsame hrest hhere]
      by_cases hlong : nameLimit < name.utf8ByteSize
      · rw [seen, seen, walk_long hfolder' hdot hne.symm hlong,
          walk_long hfolder hdot hne.symm hlong]
        rfl
      · have hinto : seen top' (g ++ [name]) rest = seen top (g ++ [name]) rest := by
          refine ih (fun q => ?_) hrest (hsame _)
          rw [List.append_assoc]
          exact hsame _
        rw [seen_plain hfolder' ⟨hdot, hne.symm, hlong⟩, seen_plain hfolder ⟨hdot, hne.symm, hlong⟩,
          hsame, hinto]
    · have hfolder' : ¬View.FolderAt top'.look g := by rwa [View.FolderAt, hhere]
      rw [seen, seen, walk_blocked hfolder', walk_blocked hfolder]
      rfl

end

end Disk

namespace LocalStore

open Disk (View linkLimit travel)

/-! ## The root folder -/

/-- The root folder is at a place, and the folder of images in it, without links. The way to the
root folder leads neither through images nor through the file with the records, so it stays when
these change. -/
structure Shelved (root : String) (place : List String) (d : Disk) : Prop
    extends Shelf place d where
  steady : ∀ top', (∀ q, ¬imagesAt place <+: q → q ≠ stateAt place → top'.look q = d.top.look q) →
    View.FolderAt top'.look (imagesAt place) →
    travel top' true (linkLimit + 1) (d.start root) (Path.names root) = .ok place

section

variable {root : String} {place a : List String} {d : Disk} {name : String}

section

variable (h : Shelved root place d)
include h

theorem Shelved.way :
    travel d.top true (linkLimit + 1) (d.start root) (Path.names root) = .ok place :=
  h.steady d.top (fun _ _ _ => rfl) h.folderAt

theorem Shelved.rooted : Rooted root place d :=
  ⟨h.toShelf, fun _ hp _ => Except.ok.inj (hp.symm.trans h.way)⟩

/-- From the folder of images on, the way does not depend on the root folder. -/
theorem Shelved.travel_eq (follow : Bool) (ns : List String) : ∃ left,
    travel d.top follow (linkLimit + 1) (d.start root) (Path.names root ++ "images" :: ns) =
      travel d.top follow (left + 1) (imagesAt place) ns := by
  obtain ⟨left, hleft⟩ := @Disk.travel_append d.top follow _ _ _ _ _ h.way h.rootAt
    (List.cons_ne_nil "images" ns)
  refine ⟨left, hleft.trans ?_⟩
  have hname : Disk.Plain "images" := ⟨by decide, by decide, by decide⟩
  have hfolder : d.top.look (place ++ ["images"]) = some (.folder .empty) := h.folderAt
  rw [travel, travel, Disk.walk_plain h.rootAt hname, hfolder]
  rfl

/-- A change below the folder of images, or of the records, leaves the root folder where it is. -/
theorem Shelved.of_same {d' : Disk} (hshelf : Shelf place d')
    (hhere : d'.workingFolder = d.workingFolder)
    (hsame : ∀ q, ¬imagesAt place <+: q → q ≠ stateAt place → d'.top.look q = d.top.look q) :
    Shelved root place d' := by
  refine ⟨hshelf, fun top' hagree hfolder => ?_⟩
  rw [Disk.start, hhere]
  exact h.steady top' (fun q hq hstate => (hagree q hq hstate).trans (hsame q hq hstate)) hfolder

end

/-! ## What is not touched -/

/-- Of two disks, the second one is the first one after changes to an image: only what is at and
below the image has changed, and the file with the records, and folders on the way to the image may
be new. -/
structure Held (root : String) (place image : List String) (d₀ d : Disk) : Prop
    extends Shelved root place d where
  workingFolder : d.workingFolder = d₀.workingFolder
  same : ∀ q, ¬imagesAt place ++ image <+: q → q ≠ stateAt place →
    d.top.look q = d₀.top.look q ∨ d₀.top.look q = none ∧ View.FolderAt d.top.look q ∧
      imagesAt place <+: q ∧ q <+: imagesAt place ++ image

theorem Shelved.held (h : Shelved root place d) (image : List String) :
    Held root place image d d :=
  ⟨h, rfl, fun _ _ _ => .inl rfl⟩

variable {image : List String} {d₀ : Disk}

/-- A change that touches nothing else. -/
theorem Held.trans {d' : Disk} (h : Held root place image d₀ d) (h' : Held root place image d d') :
    Held root place image d₀ d' := by
  refine ⟨h'.toShelved, h'.workingFolder.trans h.workingFolder, fun q hq hstate => ?_⟩
  obtain hsame' | ⟨hnone', hfolder', hway⟩ := h'.same q hq hstate
  · rw [View.FolderAt, hsame']
    exact h.same q hq hstate
  · obtain hsame | ⟨-, hfolder, -⟩ := h.same q hq hstate
    · exact .inr ⟨hsame ▸ hnone', hfolder', hway⟩
    · cases hnone'.symm.trans hfolder

section

variable (h : Shelved root place d)
include h

/-- An entry that is put into the image, or a new folder on the way to it. -/
theorem Shelved.held_put {e : Entry} (hname : name ≠ "." ∧ name ≠ "..")
    (he : e = .folder .empty ∨ ∃ content, e = .file content)
    (hwhere : image <+: a ++ [name] ∨ a ++ [name] <+: image ∧ e = .folder .empty ∧
      d.top.look (imagesAt place ++ a ++ [name]) = none) :
    Held root place image d { d with top := d.top.putAt (imagesAt place ++ a ++ [name]) e } := by
  have hbelow : imagesAt place <+: imagesAt place ++ a ++ [name] := by
    rw [List.append_assoc]
    exact List.prefix_append ..
  refine ⟨h.of_same (h.put hname he) rfl fun q hq _ =>
    Folder.look_putAt (fun hin => hq (hbelow.trans hin)) e, rfl, fun q hq _ => ?_⟩
  obtain hinside | ⟨hway, rfl, hnone⟩ := hwhere
  · refine .inl (Folder.look_putAt (fun hin => hq (List.IsPrefix.trans ?_ hin)) e)
    rw [List.append_assoc]
    exact (List.prefix_append_right_inj _).mpr hinside
  · obtain hsame | ⟨rfl, hnew⟩ := Folder.look_putAt_new hnone q
    · exact .inl hsame
    · refine .inr ⟨hnone, hnew, hbelow, ?_⟩
      rw [List.append_assoc]
      exact (List.prefix_append_right_inj _).mpr hway

/-- An entry that is taken away from the image, or the image itself. -/
theorem Shelved.held_erase (hinside : image <+: a ++ [name]) :
    Held root place image d
      { d with top := d.top.eraseAt (imagesAt place ++ a ++ [name]) } := by
  have hbelow : imagesAt place ++ image <+: imagesAt place ++ a ++ [name] := by
    rw [List.append_assoc]
    exact (List.prefix_append_right_inj _).mpr hinside
  have hsame (q : List String) (hq : ¬imagesAt place ++ image <+: q) :=
    @Folder.look_eraseAt d.top _ _ _ fun hin => hq (hbelow.trans hin)
  exact ⟨h.of_same h.erase rfl fun q hq _ =>
    hsame q fun hin => hq ((List.prefix_append ..).trans hin), rfl, fun q hq _ => .inl (hsame q hq)⟩

/-- The records are written beside the folder of images. -/
theorem Shelved.held_state {content : Content} (hnot : ¬View.FolderAt d.top.look (stateAt place)) :
    Held root place image d { d with top := d.top.putAt (stateAt place) (.file content) } := by
  have hsame := (Disk.replaced_putAt h.rootAt hnot content).same
  exact ⟨h.of_same (h.state content) rfl fun q _ hstate => hsame q hstate, rfl,
    fun q _ hstate => .inl (hsame q hstate)⟩

/-- The folders on the way to the folder of images are there and not made again. -/
theorem Shelved.makeFolder_there {path : String} {d' : Disk}
    (habsolute : Path.isAbsolute path = Path.isAbsolute root)
    (hnames : Path.names path <+: Path.names root ++ ["images"]) :
    Disk.makeFolder path d ≠ .ok () d' := by
  have hstart : d.start path = d.start root := by rw [Disk.start, Disk.start, habsolute]
  obtain ⟨more, hmore⟩ := hnames
  obtain ⟨left, hleft⟩ := h.travel_eq true []
  have himages : travel d.top true (linkLimit + 1) (d.start root) (Path.names path ++ more) =
      .ok (imagesAt place) := by
    rw [hmore]
    exact hleft.trans (Disk.travel_arrived .here)
  obtain ⟨q, hq, hfolder⟩ : ∃ q, travel d.top true (linkLimit + 1) (d.start root)
      (Path.names path) = .ok q ∧ View.FolderAt d.top.look q := by
    by_cases hnil : more = []
    · rw [hnil, List.append_nil] at himages
      exact ⟨_, himages, h.folderAt⟩
    · obtain ⟨q, _, hq, hfolder, -⟩ := Disk.travel_split himages hnil
      exact ⟨q, hq, hfolder⟩
  obtain ⟨q', hq', hsome⟩ := Disk.travel_beside hq (by rw [hfolder]; rfl)
  intro hmade
  rw [Disk.makeFolder_eq] at hmade
  split at hmade
  · cases hmade
  · next names hgiven =>
    rw [Disk.names_of_namesOf hgiven, hstart, hq'] at hmade
    dsimp only at hmade
    split at hmade
    · cases hmade
    · next hnone =>
      rw [Folder.look, hnone] at hsome
      cases hsome

end

/-- Changes to an image touch nothing else. -/
theorem Held.guards (hne : image ≠ []) : Guards root place image (Held root place image d₀) where
  rooted h := h.rooted
  before h habsolute hnames hmade := absurd hmade (h.makeFolder_there habsolute hnames)
  put h hname he hwhere := h.trans (h.held_put hname he hwhere)
  erase h hinside := h.trans (h.held_erase hinside)
  clear _ hnil := absurd hnil hne
  state h hnot := h.trans (h.held_state hnot)

end

/-! ## Calls that change images -/

/-- Calls that change an image: a program is imported under a name, a container is kept as an image,
or an image is deleted. -/
inductive ImageCall where
  | imports (s : Snapshot) (source : String)
  | keep (c : Container) (image : String)
  | delete (image : String)

namespace ImageCall

/-- The image that a call changes. -/
def image : ImageCall → String
  | imports s _ => s.name
  | keep _ image => image
  | delete image => image

/-- What a call does, whether it succeeds or fails. -/
def act : ImageCall → Action LocalStore Unit
  | imports s source => (importProgram s source).ignoring
  | keep c image => (persist c image).ignoring
  | delete image => (deleteImage image).ignoring

end ImageCall

/-- One state comes from another one by changes to an image. -/
def Touched (place image : List String) (s s' : LocalStore) : Prop :=
  s'.root = s.root ∧ Held s.root place image s.disk s'.disk

/-- A call changes nothing but its image. -/
theorem ensures_act {s : LocalStore} {place : List String} (h : Shelved s.root place s.disk)
    (call : ImageCall) (hlevel : Path.lexical call.image ≠ []) :
    call.act.Ensures s (fun _ => Touched place (Path.lexical call.image) s) fun _ _ => False := by
  have hs : Under s.root (Held s.root place (Path.lexical call.image) s.disk) s := ⟨rfl, h.held _⟩
  have hguards := @Held.guards s.root place _ s.disk hlevel
  cases call with
  | imports snapshot source =>
    exact Action.ensures_ignoring.mpr
      (hguards.ensures_importProgram hs fun _ h => hguards.ensures_saveSnapshots h)
  | keep c name => exact Action.ensures_ignoring.mpr (hguards.ensures_persist hs)
  | delete name => exact Action.ensures_ignoring.mpr (hguards.ensures_deleteImage hs)

/-! ## What is read of other images -/

/-- The outcome of reading a file of a snapshot. -/
def reading (q : Snapshot) (path : String) (s : LocalStore) : Except Fault String :=
  match fileText q path s with
  | .ok text _ => .ok text
  | .error fault _ => .error fault

/-- Neither of two images lies in the other one. -/
def Apart (p q : String) : Prop :=
  ¬Path.lexical p <+: Path.lexical q ∧ ¬Path.lexical q <+: Path.lexical p

instance (p q : String) : Decidable (Apart p q) :=
  inferInstanceAs (Decidable (_ ∧ _))

theorem ne_stateAt (place q : List String) : imagesAt place ++ q ≠ stateAt place := by
  intro heq
  rw [imagesAt, stateAt, List.append_assoc, List.append_cancel_left_eq] at heq
  exact absurd (List.cons.inj heq).1 (by decide)

section

variable {root name next : String} {place a b ns more : List String} {d₀ d : Disk}

/-- What is beside the way to an image has not changed. -/
theorem Held.beside (h : Held root place (a ++ next :: b) d₀ d) (hne : next ≠ name)
    (q : List String) : d.top.look (imagesAt place ++ (a ++ [name]) ++ q) =
      d₀.top.look (imagesAt place ++ (a ++ [name]) ++ q) := by
  have hfirst {x y : List String}
      (hstart : imagesAt place ++ (a ++ x) <+: imagesAt place ++ (a ++ y)) : x <+: y := by
    rwa [List.prefix_append_right_inj, List.prefix_append_right_inj] at hstart
  rw [List.append_assoc, List.append_assoc, List.singleton_append]
  obtain hsame | ⟨-, -, -, hway⟩ := h.same (imagesAt place ++ (a ++ name :: q))
    (fun hbelow => hne (List.cons_prefix_cons.mp (hfirst hbelow)).1) (ne_stateAt place _)
  · exact hsame
  · exact absurd (List.cons_prefix_cons.mp (hfirst hway)).1 hne.symm

/-- On the way to an image, only folders are new. -/
theorem Held.onTheWay (h : Held root place (a ++ next :: b) d₀ d) (hb : b ≠ []) :
    d.top.look (imagesAt place ++ (a ++ [next])) = d₀.top.look (imagesAt place ++ (a ++ [next])) ∨
      d₀.top.look (imagesAt place ++ (a ++ [next])) = none ∧
        View.FolderAt d.top.look (imagesAt place ++ (a ++ [next])) := by
  refine (h.same _ (fun hbelow => ?_) (ne_stateAt place _)).imp_right fun hnew => ⟨hnew.1, hnew.2.1⟩
  have hlength := hbelow.length_le
  simp only [List.length_append, List.length_cons, List.length_nil] at hlength
  exact hb (List.length_eq_zero_iff.mp (by omega))

/-- The names of another image, which leave the way to an image: the first one is left out, or both
go on with it, or they part there. -/
theorem apart_cases (hup : ".." ∉ name :: ns)
    (hshort : ∀ n ∈ name :: ns, ¬Disk.nameLimit < n.utf8ByteSize)
    (hleft : ¬b <+: (name :: ns).filter (· ≠ ".")) (hright : ¬(name :: ns).filter (· ≠ ".") <+: b) :
    name = "." ∨ Disk.Plain name ∧ ∃ next rest, b = next :: rest ∧ (next ≠ name ∨ next = name ∧
      rest ≠ [] ∧ ¬rest <+: ns.filter (· ≠ ".") ∧ ¬ns.filter (· ≠ ".") <+: rest) := by
  by_cases hdot : name = "."
  · exact .inl hdot
  · have hkeep : (name :: ns).filter (· ≠ ".") = name :: ns.filter (· ≠ ".") :=
      List.filter_cons_of_pos (by simpa using hdot)
    rw [hkeep] at hleft hright
    refine .inr ⟨⟨hdot, fun heq => hup (heq ▸ List.mem_cons_self),
      hshort name List.mem_cons_self⟩, ?_⟩
    cases b with
    | nil => exact absurd List.nil_prefix hleft
    | cons next rest =>
      refine ⟨next, rest, rfl, ?_⟩
      by_cases hsame : next = name
      · subst hsame
        rw [List.cons_prefix_cons, and_iff_right rfl] at hleft hright
        refine .inr ⟨rfl, ?_, hleft, hright⟩
        rintro rfl
        exact hleft List.nil_prefix
      · exact .inl hsame

/-- Where a folder on the way to an image is new, another image is missing as before. -/
theorem Held.seen_new (h : Held root place (a ++ b) d₀ d)
    (hnone : d₀.top.look (imagesAt place ++ a) = none)
    (hfolder : View.FolderAt d.top.look (imagesAt place ++ a))
    (hup : ".." ∉ ns) (hshort : ∀ name ∈ ns, ¬Disk.nameLimit < name.utf8ByteSize)
    (hleft : ¬b <+: ns.filter (· ≠ ".")) (hright : ¬ns.filter (· ≠ ".") <+: b) :
    Disk.seen d.top (imagesAt place ++ a) (ns ++ more) = .error .noEntry := by
  induction ns generalizing a b with
  | nil => exact absurd List.nil_prefix hright
  | cons name ns ih =>
    have hup' : ".." ∉ ns := fun hmem => hup (List.mem_cons_of_mem _ hmem)
    have hshort' := fun n hn => hshort n (List.mem_cons_of_mem _ hn)
    have hbelow : d₀.top.look (imagesAt place ++ a ++ [name]) = none :=
      Folder.look_below (by simp) (by simp [hnone])
    obtain rfl | ⟨hname, next, rest, rfl, hparts⟩ := apart_cases hup hshort hleft hright
    · rw [List.cons_append, Disk.seen_dot hfolder]
      exact ih h hnone hfolder hup' hshort' (by simpa using hleft) (by simpa using hright)
    rw [List.cons_append, Disk.seen_plain hfolder hname]
    rw [List.append_assoc] at hbelow ⊢
    obtain hne | ⟨rfl, hrest, hleft, hright⟩ := hparts
    · have hsame := h.beside hne []
      rw [List.append_nil, hbelow] at hsame
      rw [hsame]
    · have hheld : Held root place ((a ++ [next]) ++ rest) d₀ d := by rwa [← List.append_cons]
      obtain hsame | ⟨-, hnew⟩ := h.onTheWay hrest
      · rw [hsame, hbelow]
      · rw [hnew]
        exact ih hheld hbelow hnew hup' hshort' hleft hright

/-- Along the names of another image, the same is found as before. -/
theorem Held.seen_eq (h : Held root place (a ++ b) d₀ d)
    (hfolder₀ : View.FolderAt d₀.top.look (imagesAt place ++ a))
    (hfolder : View.FolderAt d.top.look (imagesAt place ++ a))
    (hup : ".." ∉ ns ++ more) (hshort : ∀ name ∈ ns, ¬Disk.nameLimit < name.utf8ByteSize)
    (hleft : ¬b <+: ns.filter (· ≠ ".")) (hright : ¬ns.filter (· ≠ ".") <+: b) :
    Disk.seen d.top (imagesAt place ++ a) (ns ++ more) =
      Disk.seen d₀.top (imagesAt place ++ a) (ns ++ more) := by
  induction ns generalizing a b with
  | nil => exact absurd List.nil_prefix hright
  | cons name ns ih =>
    have hup' : ".." ∉ ns ++ more := fun hmem => hup (List.mem_cons_of_mem _ hmem)
    have hshort' := fun n hn => hshort n (List.mem_cons_of_mem _ hn)
    have hupNames : ".." ∉ name :: ns := fun hmem => hup (List.mem_append_left _ hmem)
    obtain rfl | ⟨hname, next, rest, rfl, hparts⟩ := apart_cases hupNames hshort hleft hright
    · rw [List.cons_append, Disk.seen_dot hfolder, Disk.seen_dot hfolder₀]
      exact ih h hfolder₀ hfolder hup' hshort' (by simpa using hleft) (by simpa using hright)
    rw [List.cons_append, Disk.seen_plain hfolder hname, Disk.seen_plain hfolder₀ hname,
      List.append_assoc]
    obtain hne | ⟨rfl, hrest, hleft, hright⟩ := hparts
    · have hsame := h.beside hne []
      rw [List.append_nil] at hsame
      rw [hsame, Disk.seen_congr (h.beside hne) hup']
    · have hheld : Held root place ((a ++ [next]) ++ rest) d₀ d := by rwa [← List.append_cons]
      obtain hsame | ⟨hnone, hnew⟩ := h.onTheWay hrest
      · rw [hsame]
        split
        · rfl
        · rfl
        · rfl
        · next children hsub =>
          have hsub := Folder.look_folder hsub
          exact ih hheld hsub (hsame.trans hsub) hup' hshort' hleft hright
      · rw [hnone, hnew]
        exact hheld.seen_new hnone hnew (fun hmem => hup' (List.mem_append_left _ hmem)) hshort'
          hleft hright

variable {path : String}

/-- What is read at a path below the folder of images is what is found there. -/
theorem Shelved.text_eq (h : Shelved root place d) (hpath : Leads root path ns) :
    d.text path = Disk.namesOf path >>= fun _ =>
      Disk.seen d.top (imagesAt place) (lookedUp path ns) >>= fun
        | .file (.text s) => .ok s
        | .file (.bytes _) => .error .notText
        | .folder _ => .error .isFolder
        | .link _ => .error .tooManyLinks := by
  unfold Disk.text Disk.entry
  rw [hpath.resolve]
  cases Disk.namesOf path with
  | error fault => rfl
  | ok names =>
    obtain ⟨left, hleft⟩ := h.travel_eq true (lookedUp path ns)
    rw [Except.ok_bind, Except.ok_bind, hleft, travel, Disk.seen]
    cases hwalk : Disk.walk d.top true (imagesAt place) (lookedUp path ns) with
    | error fault => rfl
    | ok stop =>
      cases (Disk.walk_eq_ok_iff.mp hwalk).eq_down (lookedUp_level hpath) fun q target _ =>
        h.noLink q target
      simp only [Except.ok_bind, Folder.look]
      cases d.top.at? _ with
      | none => rfl
      | some e =>
        cases e with
        | file content => cases content <;> rfl
        | link _ | folder _ => rfl

/-- The same is read at a path of another image. -/
theorem Held.text_eq {p q : String} {inner : List String}
    (h : Held root place (Path.lexical p) d₀ d) (h₀ : Shelved root place d₀) (hapart : Apart p q)
    (hq : ".." ∉ Path.names q)
    (hshort : ∀ name ∈ Path.names q, ¬Disk.nameLimit < name.utf8ByteSize)
    (hpath : Leads root path (Path.names q ++ inner)) : d.text path = d₀.text path := by
  have hlexical : Path.lexical q = (Path.names q).filter (· ≠ ".") := by
    rw [Path.lexical, Path.foldl_step hq, List.nil_append]
  obtain ⟨hleft, hright⟩ := hapart
  rw [hlexical] at hleft hright
  have hlevel := lookedUp_level hpath
  have hnames : lookedUp path (Path.names q ++ inner) =
      Path.names q ++ lookedUp path inner := List.append_assoc ..
  have hseen := h.seen_eq (a := []) (by simpa using h₀.folderAt) (by simpa using h.folderAt)
    (hnames ▸ hlevel) hshort hleft hright
  rw [List.append_nil, ← hnames] at hseen
  rw [h.toShelved.text_eq hpath, h₀.text_eq hpath, hseen]

end

/-- The outcome of reading a file comes from the text at a path. -/
theorem reading_eq (q : Snapshot) (path : String) (s : LocalStore) : reading q path s = (do
    let folder ← imageFolder s.root q.image
    let inside ← relative path
    let full := Path.join (Path.join folder q.sourceDir) inside
    match s.disk.text full with
    | .ok text => .ok text
    | .error .noEntry => .error (.fileNotFound path)
    | .error fault => .error (.during s!"failed to read {full}" fault.message)) := by
  unfold reading fileText readText
  simp only [bind, EStateM.bind, Action.get_apply]
  cases imageFolder s.root q.image with
  | error fault => rfl
  | ok folder =>
    cases relative path with
    | error fault => rfl
    | ok inside =>
      simp only [Action.ofExcept, Except.bind]
      cases s.disk.text (Path.join (Path.join folder q.sourceDir) inside) with
      | ok text => rfl
      | error fault => cases fault <;> rfl

/-- A call that changes an image changes nothing that is read of one apart from it. -/
theorem Touched.reading_eq {place : List String} {p : String} {s s' : LocalStore} {q : Snapshot}
    (h : Touched place (Path.lexical p) s s') (hs : Shelved s.root place s.disk)
    (hapart : Apart p q.image) (hsource : q.sourceDir = "" ∨ Path.isRelative q.sourceDir = true)
    (hshort : ∀ name ∈ Path.names q.image, ¬Disk.nameLimit < name.utf8ByteSize) (path : String) :
    reading q path s' = reading q path s := by
  rw [LocalStore.reading_eq, LocalStore.reading_eq, h.1]
  cases hfolder : imageFolder s.root q.image with
  | error fault => rfl
  | ok folder =>
    cases hinside : relative path with
    | error fault => rfl
    | ok inside =>
      obtain ⟨image, himage, hjoin⟩ := Except.bind_eq_ok_iff.mp hfolder
      cases hjoin
      obtain ⟨hrelative, rfl⟩ := relative_eq_ok_iff.mp himage
      obtain ⟨hpath, rfl⟩ := relative_eq_ok_iff.mp hinside
      have hleads := (((leads_images s.root).join (.inr hrelative)).join hsource).join (.inr hpath)
      rw [List.nil_append, List.append_assoc, imagesPath] at hleads
      simp only [Except.ok_bind]
      rw [h.2.text_eq hs hapart (Path.isRelative_iff.mp hrelative).2.2 hshort hleads]

/-- Calls that change images, whether they succeed or fail, leave what is read of a snapshot as it
was, if none of these images lies in the image of the snapshot, nor that one in one of these. -/
theorem reading_apart {s : LocalStore} {place : List String} {calls : List ImageCall} {q : Snapshot}
    (hs : Shelved s.root place s.disk) (hapart : ∀ call ∈ calls, Apart call.image q.image)
    (hsource : q.sourceDir = "" ∨ Path.isRelative q.sourceDir = true)
    (hshort : ∀ name ∈ Path.names q.image, ¬Disk.nameLimit < name.utf8ByteSize) :
    (calls.forM ImageCall.act).Ensures s
      (fun _ s' => ∀ path, reading q path s' = reading q path s) fun _ _ => False := by
  have hrun : (calls.forM ImageCall.act).Ensures s (fun _ s' => Shelved s'.root place s'.disk ∧
      ∀ path, reading q path s' = reading q path s) fun _ _ => False := by
    refine Action.ensures_forM ⟨hs, fun _ => rfl⟩ fun call hcall t ⟨ht, hsame⟩ => ?_
    have hbelow : Path.lexical call.image ≠ [] := fun hnil =>
      (hapart call hcall).1 (hnil ▸ List.nil_prefix)
    refine (ensures_act ht call hbelow).mono (fun _ t' htouched => ⟨?_, fun path => ?_⟩)
      fun _ _ h => h
    · rw [htouched.1]
      exact htouched.2.toShelved
    · rw [htouched.reading_eq ht (hapart call hcall) hsource hshort, hsame]
  exact hrun.mono (fun _ _ h => h.2) fun _ _ h => h

namespace ApartSample

def store : LocalStore :=
  { disk := { top := .sub "src" (.file "f" (.text "x\n") .empty) .empty }, root := "root" }

/-- Opens the backend, and imports a program under two names. There is a container of the first
one. -/
def setUp (first second : String) : Action LocalStore (Snapshot × Container) := do
  prepare
  let c ← provision (← importProgram { name := first, image := "" } "src")
  return (← importProgram { name := second, image := "" } "src", c)

/-- The calls that change the image of the first name. -/
def calls (first : String) (c : Container) : List ImageCall :=
  [.imports { name := first, image := "" } "src", .keep c first, .delete first]

/-- Two images are set up beside each other. -/
theorem apart_runs : (setUp "a/b" "a/c").Ensures store (fun r s =>
    s.root = "root" ∧ s.disk.workingFolder = [] ∧ s.disk.top.every isProper = true ∧
    s.disk.top.look ["root"] = some (.folder .empty) ∧
    (match s.disk.top.at? ["root", "images"] with
      | some (.folder images) => images.every isSolid
      | _ => false) = true ∧
    r.1.image = "a/c" ∧ r.1.sourceDir = "" ∧ (reading r.1 "f" s).toOption = some "x\n" ∧
    (persist r.2 "a/b").Ensures s (fun _ _ => True) fun _ _ => False)
    fun _ _ => False := by
  decide +kernel

theorem nested_runs : (setUp "a" "a/b").Ensures store (fun r s =>
    r.1.image = "a/b" ∧ s.snapshots.map Snapshot.image = ["a", "a/b"] ∧
    (reading r.1 "f" s).toOption = some "x\n" ∧
    ∀ call ∈ calls "a" r.2, call.act.Ensures s (fun _ s' => (reading r.1 "f" s').toOption = none)
      fun _ _ => False)
    fun _ _ => False := by
  decide +kernel

/-- The root folder is where its path leads, whatever becomes of images. -/
theorem shelved {s : LocalStore} (hroot : s.root = "root") (hhere : s.disk.workingFolder = [])
    (hproper : s.disk.top.every isProper = true)
    (hfolder : s.disk.top.look ["root"] = some (.folder .empty))
    (hsolid : (match s.disk.top.at? ["root", "images"] with
      | some (.folder images) => images.every isSolid
      | _ => false) = true) : Shelved s.root ["root"] s.disk := by
  refine ⟨⟨hproper, ?_⟩, fun top' hsame _ => ?_⟩
  · split at hsolid
    · next images himages => exact ⟨images, himages, hsolid⟩
    · cases hsolid
  · have hnames : Path.names "root" = ["root"] := by decide
    have hstart : s.disk.start "root" = [] := hhere
    have hat : View.FolderAt top'.look ([] ++ ["root"]) :=
      (hsame ["root"] (by decide) (by decide)).trans hfolder
    rw [hroot, hnames, hstart]
    exact Disk.travel_arrived (.into rfl ⟨by decide, by decide, by decide⟩ hat .here)

end ApartSample

/-- What is read from an image stays when the one beside it is changed and deleted. -/
theorem reading_apart_sample : ∃ q c s,
    ApartSample.setUp "a/b" "a/c" ApartSample.store = .ok (q, c) s ∧
    reading q "f" s = .ok "x\n" ∧
    ((ApartSample.calls "a/b" c).forM ImageCall.act).Ensures s
      (fun _ s' => reading q "f" s' = .ok "x\n") fun _ _ => False := by
  obtain ⟨⟨q, c⟩, s, hsetUp, hroot, hhere, hproper, hfolder, hsolid, himage, hsource, hread, -⟩ :=
    ApartSample.apart_runs.exists_ok
  dsimp only at himage hsource hread
  have hread := Except.eq_ok_of_toOption hread
  have hshelved := ApartSample.shelved hroot hhere hproper hfolder hsolid
  have hapart : ∀ call ∈ ApartSample.calls "a/b" c, Apart call.image q.image := by
    have hnames : Apart "a/b" "a/c" := by decide
    rw [himage]
    simp [ApartSample.calls, ImageCall.image, hnames]
  have hshort : ∀ name ∈ Path.names q.image, ¬Disk.nameLimit < name.utf8ByteSize := by
    rw [himage]
    decide
  refine ⟨q, c, s, hsetUp, hread, ?_⟩
  exact (reading_apart hshelved hapart (.inl hsource) hshort).mono
    (fun _ _ h => (h "f").trans hread) fun _ _ h => h

/-- An image inside another one is lost when that one is imported again, kept anew or deleted. -/
theorem reading_nested : ∃ q c s, ApartSample.setUp "a" "a/b" ApartSample.store = .ok (q, c) s ∧
    q.image = "a/b" ∧ s.snapshots.map Snapshot.image = ["a", "a/b"] ∧
    reading q "f" s = .ok "x\n" ∧ ∀ call ∈ ApartSample.calls "a" c, call.image ≠ q.image ∧
      call.act.Ensures s (fun _ s' => ∀ text, reading q "f" s' ≠ .ok text) fun _ _ => False := by
  obtain ⟨⟨q, c⟩, s, hsetUp, himage, hboth, hread, hcalls⟩ := ApartSample.nested_runs.exists_ok
  refine ⟨q, c, s, hsetUp, himage, hboth, Except.eq_ok_of_toOption hread,
    fun call hcall => ⟨?_, ?_⟩⟩
  · have hne : "a" ≠ "a/b" := by decide
    dsimp only at himage
    rw [himage]
    simp only [ApartSample.calls, List.mem_cons, List.not_mem_nil, or_false] at hcall
    obtain rfl | rfl | rfl := hcall <;> exact hne
  · refine (hcalls call hcall).mono (fun _ s' hnone text htext => ?_) fun _ _ h => h
    rw [htext] at hnone
    cases hnone

end LocalStore

end Mutagenesis
