import Mathlib.Data.List.Forall2
import Mutagenesis.Installation
import Mutagenesis.MemoryStore
import Mutagenesis.Proofs.Action
import Mutagenesis.Proofs.UnifiedDiff

/-!
# A diff of mutations is read back as the changes it was made from

`versions` gives the files that mutations change, each with its text before and after.
`diffOf_eq_ok` says that a diff of mutations is the diffs of these versions, one after another, and
`parse_diffOf` that reading it gives a patch for each file that changes, which turns the text before
into the text after.
-/

set_option autoImplicit false

namespace Mutagenesis

variable {edits : List FileEdits}

namespace FileEdits

/-- A file is added at the end unless it is there already. -/
theorem files_add (file : String) (r : Replacement) (edits : List FileEdits) :
    (add file r edits).map (·.file) =
      if file ∈ edits.map (·.file) then edits.map (·.file) else edits.map (·.file) ++ [file] := by
  induction edits with
  | nil => simp [add]
  | cons e rest ih =>
    by_cases hfile : e.file = file
    · simp [add, hfile]
    · have hne : file ≠ e.file := Ne.symm hfile
      rw [add, if_neg hfile, List.map_cons, ih]
      by_cases hmem : file ∈ rest.map (·.file)
      · simp only [List.map_cons, List.mem_cons, hne, hmem, or_true, if_true]
      · simp only [List.map_cons, List.mem_cons, hne, hmem, or_self, if_false, List.cons_append]

theorem eraseDups_concat (files : List String) (file : String) :
    (files ++ [file]).eraseDups =
      if file ∈ files.eraseDups then files.eraseDups else files.eraseDups ++ [file] := by
  rw [List.eraseDups_append]
  by_cases hmem : file ∈ files
  · simp [List.mem_eraseDups, hmem, List.removeAll]
  · simp [List.mem_eraseDups, hmem, List.removeAll, List.eraseDups_cons]

/-- The files come in the order in which mutations first name them. -/
theorem files_ofMutations {c : Catalogue} {ms : List Mutation} (h : ofMutations c ms = .ok edits) :
    edits.map (·.file) = (ms.map (·.location.file)).eraseDups := by
  have hfold : ∀ (seen : List String) (sofar : List FileEdits),
      sofar.map (·.file) = seen.eraseDups →
      ms.foldlM (fun edits m => do return add m.location.file (← c.replacement m) edits) sofar =
        .ok edits → edits.map (·.file) = (seen ++ ms.map (·.location.file)).eraseDups := by
    clear h
    induction ms with
    | nil =>
      intro seen sofar hsofar hedits
      cases hedits
      simpa using hsofar
    | cons m rest ih =>
      intro seen sofar hsofar hedits
      rw [List.foldlM_cons, Except.bind_eq_ok_iff] at hedits
      obtain ⟨next, hnext, hedits⟩ := hedits
      obtain ⟨r, -, hnext⟩ := Except.bind_eq_ok_iff.mp hnext
      cases hnext
      have hstep := ih (seen ++ [m.location.file]) _
        (by rw [files_add, hsofar, eraseDups_concat]) hedits
      simpa using hstep
  exact hfold [] [] rfl h

end FileEdits

namespace Action

variable {σ α β : Type}

theorem mapM_cons_eq_ok {f : α → Action σ β} {x : α} {xs : List α} {s s' : σ} {ys : List β}
    (h : ((x :: xs).mapM f) s = .ok ys s') :
    ∃ y s₁ rest, f x s = .ok y s₁ ∧ (xs.mapM f) s₁ = .ok rest s' ∧ ys = y :: rest := by
  rw [List.mapM_cons] at h
  obtain ⟨y, s₁, hy, h⟩ := bind_eq_ok_iff.mp h
  obtain ⟨rest, s₂, hrest, h⟩ := bind_eq_ok_iff.mp h
  obtain ⟨rfl, rfl⟩ := pure_eq_ok_iff.mp h
  exact ⟨y, s₁, rest, hy, hrest, rfl⟩

theorem mapM_cons_of_ok {f : α → Action σ β} {x : α} {xs : List α} {s s₁ s₂ : σ} {y : β}
    {rest : List β} (hx : f x s = .ok y s₁) (hxs : (xs.mapM f) s₁ = .ok rest s₂) :
    ((x :: xs).mapM f) s = .ok (y :: rest) s₂ := by
  rw [List.mapM_cons, bind_of_ok hx, bind_of_ok hxs]
  rfl

end Action

namespace Installation

variable {σ : Type}

/-- A file with its text before and after its replacements. -/
def version (i : Installation σ) (s : Snapshot) (e : FileEdits) :
    Action (Session σ) FileVersion := do
  let original ← Session.readSource i.backend s e.file
  let mutated ← i.applyReplacements s e.file e.replacements
  return .between i.compare e.file original.toList mutated

/-- The files that mutations change, each with its text before and after. -/
def versions (i : Installation σ) (s : Snapshot) (ms : List Mutation) :
    Action (Session σ) (List FileVersion) := do
  let edits ← Action.ofExcept (FileEdits.ofMutations i.catalogue ms)
  edits.mapM (i.version s)

/-- The diff of the file of some replacements, as it is made for the diff of all files. -/
def fileDiff (i : Installation σ) (s : Snapshot) (e : FileEdits) :
    Action (Session σ) (List Char) := do
  let text ← Session.readSource i.backend s e.file
  Action.ofExcept (e.diff i.compare text.toList)

variable {i : Installation σ} {s : Snapshot} {before after : Session σ} {vs : List FileVersion}

/-- A file whose text is kept has its version without the backend. -/
theorem version_of_kept {e : FileEdits} {t : Session σ} {text : String} {changed : List Char}
    (hkept : t.sources.text? s.name e.file = some text)
    (hsplice : SourceText.splice text.toList e.replacements = .ok changed) :
    i.version s e t = .ok (.between i.compare e.file text.toList changed) t := by
  have hread : Session.readSource i.backend s e.file t = .ok text t :=
    Session.readSource_of_kept hkept
  have happly : i.applyReplacements s e.file e.replacements t = .ok changed t := by
    rw [applyReplacements, Action.bind_of_ok hread]
    exact Action.ofExcept_eq_ok_iff.mpr ⟨hsplice, rfl⟩
  rw [version, Action.bind_of_ok hread, Action.bind_of_ok happly]
  rfl

/-- The version of a file, as it is made from the kept sources, whatever the backend holds. -/
structure VersionKept (i : Installation σ) (s : Snapshot) (sources : SourceCache) (e : FileEdits)
    (v : FileVersion) : Prop where
  file : v.file = e.file
  original : sources.text? s.name v.file = some (String.ofList v.original)
  made : ∀ t : Session σ, t.sources = sources → i.version s e t = .ok v t

/-- The diff of a file that was read is the diff of its version, and changes nothing. -/
theorem fileDiff_eq_ok {e : FileEdits} {text : String} {part : List Char}
    (hkept : before.sources.text? s.name e.file = some text)
    (h : i.fileDiff s e before = .ok part after) :
    after = before ∧ ∃ v, i.VersionKept s before.sources e v ∧ part = v.diff := by
  have hread : Session.readSource i.backend s e.file before = .ok text before :=
    Session.readSource_of_kept hkept
  rw [fileDiff, Action.bind_of_ok hread] at h
  obtain ⟨hdiff, rfl⟩ := Action.ofExcept_eq_ok_iff.mp h
  obtain ⟨changed, hsplice, hpart⟩ := Except.bind_eq_ok_iff.mp hdiff
  cases hpart
  refine ⟨rfl, .between i.compare e.file text.toList changed, ⟨rfl, ?_, ?_⟩, rfl⟩
  · rw [FileVersion.between, String.ofList_toList]
    exact hkept
  · intro t ht
    exact version_of_kept (ht ▸ hkept) hsplice

/-- Where all sources are kept, making diffs changes nothing and tells the versions of each file. -/
theorem mapM_fileDiff_eq_ok {parts : List (List Char)}
    (hkept : ∀ e ∈ edits, ∃ text, before.sources.text? s.name e.file = some text)
    (h : (edits.mapM (i.fileDiff s)) before = .ok parts after) :
    after = before ∧ ∃ vs, List.Forall₂ (i.VersionKept s before.sources) edits vs ∧
      parts = vs.map FileVersion.diff := by
  induction edits generalizing parts with
  | nil =>
    cases h
    exact ⟨rfl, [], .nil, rfl⟩
  | cons e rest ih =>
    obtain ⟨part, s₁, parts, hpart, hparts, rfl⟩ := Action.mapM_cons_eq_ok h
    obtain ⟨text, htext⟩ := hkept e (by simp)
    obtain ⟨rfl, v, hv, rfl⟩ := fileDiff_eq_ok htext hpart
    obtain ⟨rfl, vs, hvs, rfl⟩ := ih (fun e he => hkept e (by simp [he])) hparts
    exact ⟨rfl, v :: vs, .cons hv hvs, rfl⟩

theorem mapM_version_of_kept {t : Session σ}
    (h : List.Forall₂ (i.VersionKept s t.sources) edits vs) :
    (edits.mapM (i.version s)) t = .ok vs t := by
  induction h with
  | nil => rfl
  | cons hv hvs ih => exact Action.mapM_cons_of_ok (hv.made t rfl) ih

theorem files_of_kept {sources : SourceCache}
    (h : List.Forall₂ (i.VersionKept s sources) edits vs) :
    vs.map (·.file) = edits.map (·.file) := by
  induction h with
  | nil => rfl
  | cons hv _ ih => rw [List.map_cons, List.map_cons, hv.file, ih]

/-- The original of a version is the text in the cache. -/
theorem original_of_kept {sources : SourceCache}
    (h : List.Forall₂ (i.VersionKept s sources) edits vs) {v : FileVersion} (hmem : v ∈ vs) :
    sources.text? s.name v.file = some (String.ofList v.original) := by
  induction h with
  | nil => simp at hmem
  | cons hv _ ih =>
    rcases List.mem_cons.mp hmem with rfl | hmem
    · exact hv.original
    · exact ih hmem

/-- A diff of mutations is the diffs of the files they change, one after another. The versions of
the files are made from the kept sources alone. -/
theorem diffOf_eq_ok {ms : List Mutation} {diff : List Char}
    (h : i.diffOf s ms before = .ok diff after) :
    ∃ vs, (∀ t : Session σ, t.sources = after.sources → i.versions s ms t = .ok vs t) ∧
      diff = (vs.map FileVersion.diff).flatten ∧
      vs.map (·.file) = (ms.map (·.location.file)).eraseDups ∧
      ∀ v ∈ vs, after.sources.text? s.name v.file = some (String.ofList v.original) := by
  obtain ⟨edits, s₁, hstart, hrest⟩ := Action.bind_eq_ok_iff.mp h
  obtain ⟨hedits, rfl⟩ := Action.ofExcept_eq_ok_iff.mp hstart
  obtain ⟨_, s₂, hprefetch, hjoin⟩ := Action.bind_eq_ok_iff.mp hrest
  obtain ⟨parts, s₃, hparts, hdiff⟩ := Action.bind_eq_ok_iff.mp hjoin
  obtain ⟨rfl, rfl⟩ := Action.pure_eq_ok_iff.mp hdiff
  have hkept : ∀ e ∈ edits, ∃ text, s₂.sources.text? s.name e.file = some text := fun e he =>
    Session.kept_of_prefetch hprefetch (List.mem_map_of_mem he)
  obtain ⟨rfl, vs, hvs, rfl⟩ := mapM_fileDiff_eq_ok hkept hparts
  refine ⟨vs, ?_, rfl, by rw [files_of_kept hvs, FileEdits.files_ofMutations hedits],
    fun v hv => original_of_kept hvs hv⟩
  intro t ht
  rw [versions, Action.bind_of_ok (Action.ofExcept_eq_ok_iff.mpr ⟨hedits, rfl⟩)]
  exact mapM_version_of_kept (ht ▸ hvs)

/-- However lines are compared, as long as the scripts that come of it are exact: reading the diff
of mutations back gives a patch for each file that they change, in the order in which the mutations
first name the files, and the patch turns the text before into the text after. The diff is empty
exactly when no text changes. -/
theorem parse_diffOf (i : Installation σ) (s : Snapshot) (ms : List Mutation)
    (before after : Session σ) (diff : List Char) (h : i.diffOf s ms before = .ok diff after) :
    ∃ vs, i.versions s ms after = .ok vs after ∧
      vs.map (·.file) = (ms.map (·.location.file)).eraseDups ∧
      ((∀ v ∈ vs, v.changed → v.Exact ∧ v.Plain ∧ v.Sized) →
        (∃ patches, Diff.parse diff = .ok patches ∧
          List.Forall₂ (fun p v => p.path = v.file ∧ p.apply v.original = .ok v.mutated)
            patches (vs.filter (·.changed))) ∧
        (diff = [] ↔ ∀ v ∈ vs, v.original = v.mutated)) := by
  obtain ⟨vs, hvs, rfl, hfiles, -⟩ := diffOf_eq_ok h
  refine ⟨vs, hvs after rfl, hfiles, fun hvalid =>
    ⟨⟨(vs.filter (·.changed)).map FileVersion.patch, ?_, ?_⟩, ?_⟩⟩
  · rw [Diff.parse_eq_readAll, FileVersion.readAll_diffs hvalid, List.nil_append]
  · rw [List.forall₂_map_left_iff, List.forall₂_same]
    intro v hv
    obtain ⟨hmem, hchanged⟩ := List.mem_filter.mp hv
    obtain ⟨hexact, hplain, -⟩ := hvalid v hmem hchanged
    exact ⟨rfl, FileVersion.patch_apply hexact hplain⟩
  · simp only [List.flatten_eq_nil_iff, List.mem_map, forall_exists_index, and_imp,
      forall_apply_eq_imp_iff₂]
    exact forall₂_congr fun v hv =>
      FileVersion.diff_eq_nil_iff fun hchanged => (hvalid v hv hchanged).1

namespace Sample

def base : Snapshot := { name := "base", image := "image" }

/-- Lines of `f` look like headers of a diff, and its last line has no newline. -/
def session : Session MemoryStore where
  store :=
    { snapshots := [base]
      images := [⟨"image", [("f", "-- x\r\n@@ -1 +1 @@\r\nb\r\nc"), ("g", "z\n")]⟩] }

/-- One operator, with three texts to put. -/
def installation : Installation MemoryStore where
  catalogue := ⟨[], [⟨"put", NameSet.ofList ["c"],
    [⟨":[t]", "y", []⟩, ⟨":[t]", "d\n", []⟩, ⟨":[t]", "z", []⟩]⟩]⟩
  matcher := fun _ _ => .ok []
  backend := MemoryStore.backend

/-- The first mutation leaves its file as it is; the others change two lines of one file. -/
def request : List Mutation :=
  [⟨"put", 2, ⟨"g", ⟨⟨1, 0⟩, ⟨1, 1⟩⟩⟩, .empty⟩,
   ⟨"put", 0, ⟨"f", ⟨⟨1, 3⟩, ⟨1, 4⟩⟩⟩, .empty⟩,
   ⟨"put", 1, ⟨"f", ⟨⟨4, 0⟩, ⟨4, 1⟩⟩⟩, .empty⟩]

def changes : List FileVersion :=
  [.between LineDiff.script "g" "z\n".toList "z\n".toList,
   .between LineDiff.script "f" "-- x\r\n@@ -1 +1 @@\r\nb\r\nc".toList
    "-- y\r\n@@ -1 +1 @@\r\nb\r\nd\n".toList]

theorem changes_valid : ∀ v ∈ changes, v.changed → v.Exact ∧ v.Plain ∧ v.Sized := by
  intro v hv hchanged
  rcases List.mem_cons.mp hv with rfl | hv
  · exact absurd hchanged (by decide)
  · obtain rfl := List.mem_singleton.mp hv
    exact ⟨by decide, ⟨by decide, by decide, by decide⟩, ⟨by decide, by decide⟩⟩

end Sample

/-- Lines that look like headers and a missing newline at the end are read back too. -/
theorem parse_diffOf_sample :
    (∀ v ∈ Sample.changes, v.changed → v.Exact ∧ v.Plain ∧ v.Sized) ∧
      ∃ diff after, Sample.installation.diffOf Sample.base Sample.request Sample.session =
          .ok diff after ∧ diff ≠ [] ∧
        ∃ patches, Diff.parse diff = .ok patches ∧
          List.Forall₂ (fun p v => p.path = v.file ∧ p.apply v.original = .ok v.mutated) patches
            (Sample.changes.filter (·.changed)) := by
  obtain ⟨vs, hvs, -, hread⟩ :=
    parse_diffOf Sample.installation Sample.base Sample.request Sample.session _ _ rfl
  obtain rfl : vs = Sample.changes := by
    cases hvs
    rfl
  obtain ⟨hpatches, hempty⟩ := hread Sample.changes_valid
  refine ⟨Sample.changes_valid, _, _, rfl, ?_, hpatches⟩
  intro hnil
  exact absurd (hempty.mp hnil) (by decide)

end Installation

end Mutagenesis
