import Mutagenesis.Local
import Mutagenesis.Proofs.Action
import Mutagenesis.Proofs.DiskActions

/-!
# Files stay in their folder

Where a path leads if dots are resolved as they are written is its lexical form (`Path.lexical`).
The files that are read for a snapshot or changed by a diff are below the folder of the image or of
the container, as long as the source folder is in it (`Path.below_join`). That an operation opens no
other file is said by doing it with another way to read and write files: if that way is the same for
files below the folder, then so is the outcome.
-/

set_option autoImplicit false

namespace Mutagenesis

namespace Path

/-! ## Lexical forms -/

/-- Goes on by one name: a single dot stays, and a double dot takes the last name away. At the top
of the disk a double dot stays; a relative path may start with several. -/
def step (absolute : Bool) (sofar : List String) (name : String) : List String :=
  if name = "." then sofar
  else if name = ".." then
    match sofar.getLast? with
    | none => if absolute then [] else [".."]
    | some last => if last = ".." then sofar ++ [".."] else sofar.dropLast
  else sofar ++ [name]

/-- The names of a path, with dots resolved as they are written. -/
def lexical (path : String) : List String :=
  (names path).foldl (step (isAbsolute path)) []

/-- The lexical form of a path continues that of another one, and does not go up. -/
def Inside (base path : String) : Prop :=
  isAbsolute path = isAbsolute base ∧ lexical base <+: lexical path ∧
    ".." ∉ (lexical path).drop (lexical base).length

/-- A path lies below another one. -/
def Below (base path : String) : Prop :=
  Inside base path ∧ lexical path ≠ lexical base

instance (base path : String) : Decidable (Inside base path) :=
  inferInstanceAs (Decidable (_ ∧ _ ∧ _))

instance (base path : String) : Decidable (Below base path) :=
  inferInstanceAs (Decidable (_ ∧ _))

/-- A path is inside a base if it goes on from it without going up. -/
theorem inside_iff {base path : String} : Inside base path ↔
    isAbsolute path = isAbsolute base ∧
      ∃ rest, lexical path = lexical base ++ rest ∧ ".." ∉ rest := by
  constructor
  · rintro ⟨habsolute, ⟨rest, hrest⟩, hup⟩
    rw [← hrest, List.drop_left] at hup
    exact ⟨habsolute, rest, hrest.symm, hup⟩
  · rintro ⟨habsolute, rest, hrest, hup⟩
    refine ⟨habsolute, ⟨rest, hrest.symm⟩, ?_⟩
    rwa [hrest, List.drop_left]

/-- Names without double dots are appended, single dots left out. -/
theorem foldl_step {absolute : Bool} {names : List String} (h : ".." ∉ names)
    (sofar : List String) :
    names.foldl (step absolute) sofar = sofar ++ names.filter (· ≠ ".") := by
  induction names generalizing sofar with
  | nil => simp
  | cons name rest ih =>
    obtain ⟨hname, hrest⟩ : ".." ≠ name ∧ ".." ∉ rest := by simpa using h
    rw [List.foldl_cons, ih hrest]
    by_cases hdot : name = "."
    · simp [step, hdot]
    · simp [step, hdot, hname.symm]

theorem lexical_join (base : String) {path : String} (habsolute : isAbsolute path = false)
    (hup : ".." ∉ names path) :
    lexical (join base path) = lexical base ++ (names path).filter (· ≠ ".") := by
  rw [lexical, names_join base habsolute, isAbsolute_join base habsolute, List.foldl_append,
    foldl_step hup]
  rfl

theorem isRelative_iff {path : String} : isRelative path = true ↔
    path ≠ "" ∧ isAbsolute path = false ∧ ".." ∉ names path := by
  simp [isRelative, and_assoc]

theorem names_ne_nil {path : String} (hne : path ≠ "") (habsolute : isAbsolute path = false) :
    names path ≠ [] := by
  obtain ⟨c, cs, hcs⟩ : ∃ c cs, path.toList = c :: cs :=
    List.exists_cons_of_ne_nil (by simpa [String.toList_eq_nil_iff] using hne)
  have hslash : c ≠ '/' := by simpa [isAbsolute, hcs] using habsolute
  obtain ⟨piece, rest, hpieces⟩ := List.exists_cons_of_ne_nil (pieces_ne_nil '/' cs)
  have hfirst : Text.pieces '/' path.toList = (c :: piece) :: rest := by
    rw [hcs, Text.pieces, if_neg hslash, hpieces]
  simp [names, hfirst]

/-- A path relative to a folder in another folder stays there. -/
theorem inside_join {base folder path : String} (hfolder : Inside base folder)
    (habsolute : isAbsolute path = false) (hup : ".." ∉ names path) :
    Inside base (join folder path) := by
  obtain ⟨hsame, rest, hrest, hrestUp⟩ := inside_iff.mp hfolder
  refine inside_iff.mpr ⟨(isAbsolute_join folder habsolute).trans hsame,
    rest ++ (names path).filter (· ≠ "."), ?_, ?_⟩
  · rw [lexical_join folder habsolute hup, hrest, List.append_assoc]
  · simp [hrestUp, hup]

theorem inside_self (base : String) : Inside base base :=
  inside_iff.mpr ⟨rfl, [], by simp, by simp⟩

/-- A path relative to a folder in another folder lies below that one, if it names anything. -/
theorem below_join {base folder path : String} (hfolder : Inside base folder)
    (hpath : isRelative path = true) (hname : ∃ name ∈ names path, name ≠ ".") :
    Below base (join folder path) := by
  obtain ⟨-, habsolute, hup⟩ := isRelative_iff.mp hpath
  refine ⟨inside_join hfolder habsolute hup, fun hsame => ?_⟩
  obtain ⟨-, rest, hrest, -⟩ := inside_iff.mp hfolder
  rw [lexical_join folder habsolute hup, hrest, List.append_assoc] at hsame
  obtain ⟨name, hmem, hdot⟩ := hname
  have hnone : (names path).filter (· ≠ ".") = [] :=
    (List.append_eq_nil_iff.mp (List.append_right_eq_self.mp hsame)).2
  have hin : name ∈ (names path).filter (· ≠ ".") := List.mem_filter.mpr ⟨hmem, by simpa using hdot⟩
  rw [hnone] at hin
  cases hin

/-- If what is in a folder lies below another one, then the folder is in that one. -/
theorem inside_of_below {base folder : String} (name : String) (habsolute : isAbsolute name = false)
    (hname : names name = [name]) (hdot : name ≠ ".") (hup : name ≠ "..")
    (h : Below base (join folder name)) : Inside base folder := by
  obtain ⟨hinside, hne⟩ := h
  obtain ⟨hsame, rest, hrest, hrestUp⟩ := inside_iff.mp hinside
  rw [isAbsolute_join folder habsolute] at hsame
  have hlexical : lexical (join folder name) = lexical folder ++ [name] := by
    rw [lexical_join folder habsolute (by rw [hname]; simpa using hup.symm), hname]
    simp [hdot]
  have hsome : rest ≠ [] := fun hnil => hne (by rw [hrest, hnil, List.append_nil])
  rw [hlexical, ← List.dropLast_concat_getLast hsome, ← List.append_assoc] at hrest
  refine inside_iff.mpr ⟨hsame, rest.dropLast, List.append_inj_left' hrest rfl, ?_⟩
  exact fun hmem => hrestUp ((List.dropLast_sublist rest).subset hmem)

end Path

namespace LocalStore

/-! ## Operations with another way to open files -/

/-- A way to read the text of the file at a path; a missing file is named by the other path. -/
abbrev Reader := String → String → Action LocalStore String

/-- A way to write the text of a file at a path. -/
abbrev Writer := String → String → Action LocalStore Unit

/-- The way that files are written. -/
def writeText : Writer := fun path text =>
  onDisk s!"failed to write {path}" (Disk.writeText path text)

/-- The text of a file of a snapshot, read in some way. -/
def fileTextBy (read : Reader) (s : Snapshot) (path : String) : Action LocalStore String := do
  let folder ← Action.ofExcept (imageFolder (← get).root s.image)
  let inside ← Action.ofExcept (relative path)
  read (Path.join (Path.join folder s.sourceDir) inside) path

/-- Applies the patch of a file below a folder, which is read and written in some way. -/
def patchFileBy (read : Reader) (write : Writer) (base : String) (p : FilePatch) :
    Action LocalStore Unit := do
  let path := Path.join base (← Action.ofExcept (relative p.path))
  let text ← read path p.path
  let changed ← Action.ofExcept (formatted .patch (p.apply text.toList))
  write path (String.ofList changed)

/-- Applies a diff to the files of a container, which are read and written in some way. -/
def applyPatchBy (read : Reader) (write : Writer) (c : Container) (diff : String) :
    Action LocalStore Unit := do
  let live ← container c
  let patches ← Action.ofExcept (formatted .patch (Diff.parse diff.toList))
  patches.forM (patchFileBy read write (Path.join live.folder live.snapshot.sourceDir))

theorem fileTextBy_readText : fileTextBy readText = fileText := rfl

theorem applyPatchBy_readText : applyPatchBy readText writeText = applyPatch := rfl

/-- A way to read files that may differ only where there is a file that is not below the folder. -/
def Reader.Agrees (read : Reader) (folder : String) : Prop :=
  ∀ path shown s, (Path.Below folder path ∨ ∀ text, s.disk.text path ≠ .ok text) →
    read path shown s = readText path shown s

/-- A way to write files that may differ only for paths that are not below the folder. -/
def Writer.Agrees (write : Writer) (folder : String) : Prop :=
  ∀ path text s, Path.Below folder path → write path text s = writeText path text s

section

variable {s s' : LocalStore} {read : Reader} {write : Writer} {base folder : String}

/-- A path is accepted as relative exactly if it is relative. -/
theorem relative_eq_ok_iff {path inside : String} :
    relative path = .ok inside ↔ Path.isRelative path = true ∧ inside = path := by
  unfold relative
  split
  · next h =>
    constructor
    · intro hok
      cases hok
      exact ⟨h, rfl⟩
    · rintro ⟨-, rfl⟩
      rfl
  · next h => exact ⟨nofun, fun hrelative => absurd hrelative.1 h⟩

/-- A file at a relative path in a folder in another folder is below that one. -/
theorem below_of_text {path text : String} (hfolder : Path.Inside base folder)
    (hpath : Path.isRelative path = true)
    (htext : s.disk.text (Path.join folder path) = .ok text) :
    Path.Below base (Path.join folder path) := by
  refine Path.below_join hfolder hpath (Classical.byContradiction fun hdots => ?_)
  obtain ⟨hne, habsolute, -⟩ := Path.isRelative_iff.mp hpath
  have hall : ∀ name ∈ Path.names path, name = "." := fun name hname =>
    Classical.byContradiction fun hdot => hdots ⟨name, hname, hdot⟩
  have hsome := Path.names_ne_nil hne habsolute
  refine Disk.text_of_dot ?_ htext
  rw [Path.names_join folder habsolute, List.getLast?_append, List.getLast?_eq_some_getLast hsome,
    hall _ (List.getLast_mem hsome)]
  rfl

/-- What is read at a relative path in a folder in another folder is the same in every way that
agrees below that one. -/
theorem Reader.Agrees.read_eq (h : read.Agrees base) (hfolder : Path.Inside base folder)
    {path : String} (hpath : Path.isRelative path = true) (shown : String) (s : LocalStore) :
    read (Path.join folder path) shown s = readText (Path.join folder path) shown s := by
  refine h _ shown s ?_
  by_cases htext : ∃ text, s.disk.text (Path.join folder path) = .ok text
  · obtain ⟨text, htext⟩ := htext
    exact .inl (below_of_text hfolder hpath htext)
  · exact .inr fun text h => htext ⟨text, h⟩

/-- A text that is read is on the disk, and reading changes nothing. -/
theorem text_of_readText {path shown text : String} (h : readText path shown s = .ok text s') :
    s.disk.text path = .ok text ∧ s' = s := by
  obtain ⟨_, _, hget, h⟩ := Action.bind_eq_ok_iff.mp h
  cases hget
  cases htext : s.disk.text path with
  | ok text' =>
    rw [htext] at h
    cases h
    exact ⟨rfl, rfl⟩
  | error fault =>
    rw [htext] at h
    cases fault <;> cases h

/-- Reading a file of an image by guarded steps is reading it, if the source folder is inside. -/
theorem fileTextBy_eq (h : read.Agrees base) {snapshot : Snapshot}
    (hfolder : imageFolder s.root snapshot.image = .ok folder)
    (hsource : Path.Inside base (Path.join folder snapshot.sourceDir)) (path : String) :
    fileTextBy read snapshot path s = fileText snapshot path s := by
  refine Action.bind_congr rfl fun _ _ hget => ?_
  cases hget
  refine Action.bind_congr rfl fun folder' s₁ hfolder' => ?_
  obtain ⟨hfolder', rfl⟩ := Action.ofExcept_eq_ok_iff.mp hfolder'
  cases hfolder.symm.trans hfolder'
  refine Action.bind_congr rfl fun inside s₂ hinside => ?_
  obtain ⟨hpath, rfl⟩ := relative_eq_ok_iff.mp (Action.ofExcept_eq_ok_iff.mp hinside).1
  exact h.read_eq hsource hpath inside s₂

/-- Patching a file by guarded steps is patching it, inside the base. -/
theorem patchFileBy_eq (hread : read.Agrees base) (hwrite : write.Agrees base)
    (hfolder : Path.Inside base folder) (p : FilePatch) :
    patchFileBy read write folder p = patchFile folder p := by
  funext s
  refine Action.bind_congr rfl fun inside s₁ hinside => ?_
  obtain ⟨hpath, rfl⟩ := relative_eq_ok_iff.mp (Action.ofExcept_eq_ok_iff.mp hinside).1
  refine Action.bind_congr (hread.read_eq hfolder hpath _ _) fun text s₂ htext => ?_
  have hbelow := below_of_text hfolder hpath (text_of_readText htext).1
  refine Action.bind_congr rfl fun changed s₃ _ => ?_
  exact hwrite _ _ s₃ hbelow

/-- Applying a patch by guarded steps is applying it, if the source folder is inside. -/
theorem applyPatchBy_eq {c : Container} {live : LiveContainer} (hread : read.Agrees base)
    (hwrite : write.Agrees base)
    (hlive : Roster.find? LiveContainer.id c.id s.containers = some live)
    (hsource : Path.Inside base (Path.join live.folder live.snapshot.sourceDir))
    (diff : String) : applyPatchBy read write c diff s = applyPatch c diff s := by
  refine Action.bind_congr rfl fun live' s₁ hcontainer => ?_
  have hsame : live' = live := by
    obtain ⟨_, _, hget, hfound⟩ := Action.bind_eq_ok_iff.mp hcontainer
    cases hget
    rw [hlive] at hfound
    cases hfound
    rfl
  subst hsame
  refine Action.bind_congr rfl fun patches s₂ _ => ?_
  have hpatch : patchFileBy read write (Path.join live'.folder live'.snapshot.sourceDir) =
      patchFile (Path.join live'.folder live'.snapshot.sourceDir) :=
    funext (patchFileBy_eq hread hwrite hsource)
  rw [hpatch]

end

/-- Reading a file of a snapshot opens no file but such that are below a folder, and applying a diff
neither reads nor changes any other file, if the source folder is in that folder: with ways to read
and write that agree below the folder the outcome is the same. The folder can be that of the image
or of the container exactly if all that a relative path can name in the source folder is below it,
and it can be if the source folder is given by a relative path or not at all. -/
theorem files_enclosed (s : LocalStore) :
    (fileTextBy readText = fileText ∧ applyPatchBy readText writeText = applyPatch) ∧
    (∀ (snapshot : Snapshot) (folder base path : String) (read : Reader),
      imageFolder s.root snapshot.image = .ok folder →
      Path.Inside base (Path.join folder snapshot.sourceDir) → read.Agrees base →
      fileTextBy read snapshot path s = fileText snapshot path s) ∧
    (∀ (c : Container) (live : LiveContainer) (base diff : String) (read : Reader) (write : Writer),
      Roster.find? LiveContainer.id c.id s.containers = some live →
      Path.Inside base (Path.join live.folder live.snapshot.sourceDir) → read.Agrees base →
      write.Agrees base → applyPatchBy read write c diff s = applyPatch c diff s) ∧
    ∀ folder source : String,
      (Path.Inside folder (Path.join folder source) ↔ ∀ path, Path.isRelative path = true →
        (∃ name ∈ Path.names path, name ≠ ".") →
        Path.Below folder (Path.join (Path.join folder source) path)) ∧
      (source = "" ∨ Path.isRelative source = true →
        Path.Inside folder (Path.join folder source)) := by
  refine ⟨⟨fileTextBy_readText, applyPatchBy_readText⟩,
    fun snapshot folder base path read hfolder hsource hread =>
      fileTextBy_eq hread hfolder hsource path,
    fun c live base diff read write hlive hsource hread hwrite =>
      applyPatchBy_eq hread hwrite hlive hsource diff,
    fun folder source => ⟨⟨fun hinside path hpath hname => Path.below_join hinside hpath hname,
      fun hbelow => ?_⟩, ?_⟩⟩
  · exact Path.inside_of_below "a" (by decide) (by decide) (by decide) (by decide)
      (hbelow "a" (by decide) ⟨"a", by decide, by decide⟩)
  · rintro (rfl | hsource)
    · exact Path.inside_join (Path.inside_self folder) (by decide) (by decide)
    · obtain ⟨-, habsolute, hup⟩ := Path.isRelative_iff.mp hsource
      exact Path.inside_join (Path.inside_self folder) habsolute hup

/-- The way to read files that refuses those that are not below a folder. -/
def guardedRead (folder : String) : Reader := fun path shown s =>
  if Path.Below folder path then readText path shown s
  else match s.disk.text path with
    | .ok _ => .error (.unexpected "outside") s
    | .error _ => readText path shown s

/-- The way to write files that refuses those that are not below a folder. -/
def guardedWrite (folder : String) : Writer := fun path text s =>
  if Path.Below folder path then writeText path text s else .error (.unexpected "outside") s

/-- A guarded read agrees with the plain one inside its folder. -/
theorem guardedRead_agrees (folder : String) : (guardedRead folder).Agrees folder := by
  intro path shown s hpath
  unfold guardedRead
  split
  · rfl
  · next hnot =>
    have hnone := hpath.resolve_left hnot
    cases htext : s.disk.text path with
    | ok text => exact absurd htext (hnone text)
    | error fault => rfl

theorem guardedWrite_agrees (folder : String) : (guardedWrite folder).Agrees folder :=
  fun _ _ _ hpath => if_pos hpath

namespace EnclosureSample

/-- A program in the folder `src`, and a file beside it. -/
def top : Folder :=
  .sub "src" (.sub "sub" (.file "a.c" (.text "x\n") .empty) .empty)
    (.file "b.c" (.text "x\n") .empty)

def store : LocalStore :=
  { disk := { top := top }, root := "root" }

/-- Opens the backend, imports the program with a source folder, and makes a container of it. -/
def setUp (source : String) : Action LocalStore (Snapshot × Container) := do
  prepare
  let snapshot ← importProgram { name := "x", image := "", sourceDir := source } "src"
  return (snapshot, ← provision snapshot)

/-- A diff that changes one line of a file. -/
def diff (name : String) : String :=
  s!"--- {name}\n+++ {name}\n@@ -1,1 +1,1 @@\n-x\n+y\n"

theorem sub_runs : (setUp "sub").Ensures store (fun r s =>
    (imageFolder s.root r.1.image).toOption = some "root/images/x" ∧ r.1.sourceDir = "sub" ∧
    (fileText r.1 "a.c").Ensures s (fun text _ => text = "x\n") (fun _ _ => False) ∧
    (applyPatch r.2 (diff "a.c")).Ensures s (fun _ _ => True) (fun _ _ => False) ∧
    (Roster.find? LiveContainer.id r.2.id s.containers).map (·.snapshot.sourceDir) = some "sub")
    fun _ _ => False := by
  decide +kernel

theorem up_runs : (setUp "../../..").Ensures store (fun r s =>
    (imageFolder s.root r.1.image).toOption = some "root/images/x" ∧
    ¬Path.Below "root/images/x" (Path.join (Path.join "root/images/x" r.1.sourceDir) "b.c") ∧
    (fileText r.1 "b.c").Ensures s (fun text _ => text = "x\n") (fun _ _ => False) ∧
    (applyPatch r.2 (diff "b.c")).Ensures s
      (fun _ s' => (s'.disk.text "b.c").toOption = some "y\n") fun _ _ => False)
    fun _ _ => False := by
  decide +kernel

end EnclosureSample

/-- With a source folder in the program, guarded calls read its file and change it. -/
theorem files_enclosed_sample : ∃ snapshot c live s s' s'',
    EnclosureSample.setUp "sub" EnclosureSample.store = .ok (snapshot, c) s ∧
    Roster.find? LiveContainer.id c.id s.containers = some live ∧
    fileTextBy (guardedRead "root/images/x") snapshot "a.c" s = .ok "x\n" s' ∧
    applyPatchBy (guardedRead live.folder) (guardedWrite live.folder) c
      (EnclosureSample.diff "a.c") s = .ok () s'' := by
  obtain ⟨⟨snapshot, c⟩, s, hsetUp, hfolder, hsource, hread, hpatch, hlive⟩ :=
    EnclosureSample.sub_runs.exists_ok
  obtain ⟨text, s', hread, rfl⟩ := hread.exists_ok
  obtain ⟨_, s'', hpatch, -⟩ := hpatch.exists_ok
  obtain ⟨live, hlive, hlocal⟩ := Option.map_eq_some_iff.mp hlive
  obtain ⟨-, hreads, hpatches, hinside⟩ := files_enclosed s
  have hrelative : Path.isRelative "sub" = true := by decide
  refine ⟨snapshot, c, live, s, s', s'', hsetUp, hlive, ?_, ?_⟩
  · rw [hreads snapshot _ "root/images/x" "a.c" _ (Except.eq_ok_of_toOption hfolder)
      (hsource ▸ (hinside _ _).2 (.inr hrelative)) (guardedRead_agrees _)]
    exact hread
  · rw [hpatches c live live.folder _ _ _ hlive (hlocal ▸ (hinside _ _).2 (.inr hrelative))
      (guardedRead_agrees _) (guardedWrite_agrees _)]
    exact hpatch

/-- With a source folder that goes up, a file outside of the image is read, and one outside of the
container is changed. -/
theorem source_folder_outside : ∃ snapshot c s s' s'',
    EnclosureSample.setUp "../../.." EnclosureSample.store = .ok (snapshot, c) s ∧
    imageFolder s.root snapshot.image = .ok "root/images/x" ∧
    fileText snapshot "b.c" s = .ok "x\n" s' ∧
    ¬Path.Below "root/images/x" (Path.join (Path.join "root/images/x" snapshot.sourceDir) "b.c") ∧
    applyPatch c (EnclosureSample.diff "b.c") s = .ok () s'' ∧ s''.disk.text "b.c" = .ok "y\n" := by
  obtain ⟨⟨snapshot, c⟩, s, hsetUp, hfolder, hout, hread, hpatch⟩ :=
    EnclosureSample.up_runs.exists_ok
  obtain ⟨text, s', hread, rfl⟩ := hread.exists_ok
  obtain ⟨_, s'', hpatch, htext⟩ := hpatch.exists_ok
  exact ⟨snapshot, c, s, s', s'', hsetUp, Except.eq_ok_of_toOption hfolder, hread, hout, hpatch,
    Except.eq_ok_of_toOption htext⟩

end LocalStore

end Mutagenesis
