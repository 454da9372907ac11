import Mathlib.Data.List.Forall2
import Mathlib.Data.List.Perm.Basic
import Mutagenesis.Proofs.ConflictResolution
import Mutagenesis.Proofs.DiffRoundTrip
import Mutagenesis.Proofs.FoundMutations

/-!
# The diff of mutations, file by file

The replacements of a file are those of its mutations, in order (`ofMutations_eq_ok_iff`), and the
diff of mutations is the diffs of their files one after another, each made from the text of the file
and its replacements alone (`diffOf_eq_ok_iff`). So the diff falls apart into the diffs of the
mutations of each file, and as replacements of different spans are put in order anyway, it does not
depend on the order in which they come.
-/

set_option autoImplicit false

namespace Mutagenesis

/-- The replacements of mutations, in the same order. -/
abbrev Catalogue.HasReplacements (c : Catalogue) (ms : List Mutation) (rs : List Replacement) :
    Prop :=
  List.Forall₂ (fun m r => c.replacement m = .ok r) ms rs

namespace FileEdits

/-- Replacements grouped by file, in the order in which the files first come. -/
def group (rs : List Replacement) : List FileEdits :=
  (rs.map (·.location.file)).eraseDups.map fun f => ⟨f, rs.filter (·.location.file = f)⟩

/-- A replacement goes to the end of those of its file, or starts a new file. -/
theorem add_map {files : List String} (hfiles : files.Nodup) (f : String) (r : Replacement)
    (edits : String → List Replacement) :
    add f r (files.map fun x => ⟨x, edits x⟩) =
      if f ∈ files then files.map fun x => ⟨x, if x = f then edits x ++ [r] else edits x⟩
      else files.map (fun x => ⟨x, edits x⟩) ++ [⟨f, [r]⟩] := by
  induction files with
  | nil => rfl
  | cons x rest ih =>
    obtain ⟨hx, hrest⟩ := List.nodup_cons.mp hfiles
    by_cases hf : x = f
    · subst hf
      have hother : ∀ y ∈ rest, y ≠ x := fun y hy heq => hx (heq ▸ hy)
      simp +contextual [add, hother]
    · have hne : f ≠ x := Ne.symm hf
      rw [List.map_cons, add, if_neg hf, ih hrest]
      by_cases hmem : f ∈ rest <;> simp [hmem, hne, hf]

theorem nodup_eraseDups (files : List String) : files.eraseDups.Nodup := by
  induction files using List.reverseRecOn with
  | nil => exact .nil
  | append_singleton files f ih =>
    rw [eraseDups_concat]
    split
    · exact ih
    · next hf => exact ih.append (List.nodup_singleton f) (by simpa using hf)

/-- One more replacement goes to the group of its file. -/
theorem group_concat (rs : List Replacement) (r : Replacement) :
    group (rs ++ [r]) = add r.location.file r (group rs) := by
  unfold group
  rw [add_map (nodup_eraseDups _), List.map_append, List.map_singleton, eraseDups_concat]
  split
  · refine List.map_congr_left fun f _ => ?_
    by_cases hf : f = r.location.file
    · simp [hf]
    · simp [hf, Ne.symm hf]
  · next hnew =>
    have hother : ∀ a ∈ rs, a.location.file ≠ r.location.file := by
      simpa [List.mem_eraseDups] using hnew
    have hnone : rs.filter (·.location.file = r.location.file) = [] := by simpa using hother
    rw [List.map_append]
    simpa [hnone] using fun a ha => (hother a ha).symm

theorem foldl_add (rs : List Replacement) :
    rs.foldl (fun edits r => add r.location.file r edits) [] = group rs := by
  induction rs using List.reverseRecOn with
  | nil => rfl
  | append_singleton rs r ih => rw [List.foldl_concat, ih, group_concat]

variable {c : Catalogue} {ms : List Mutation} {rs : List Replacement} {f : String}

theorem locations_eq (h : c.HasReplacements ms rs) :
    rs.map (·.location) = ms.map (·.location) := by
  induction h with
  | nil => rfl
  | cons hr _ ih => rw [List.map_cons, List.map_cons, ih, c.location_of_replacement hr]

theorem files_eq (h : c.HasReplacements ms rs) :
    rs.map (·.location.file) = ms.map (·.location.file) := by
  simpa [Function.comp_def] using congrArg (List.map FileSpan.file) (locations_eq h)

/-- Grouping mutations is grouping the replacements that they have. -/
theorem foldlM_add_eq_ok_iff {sofar edits : List FileEdits} :
    ms.foldlM (fun edits m => do return add m.location.file (← c.replacement m) edits) sofar =
      .ok edits ↔ ∃ rs, c.HasReplacements ms rs ∧
        edits = rs.foldl (fun edits r => add r.location.file r edits) sofar := by
  induction ms generalizing sofar with
  | nil =>
    constructor
    · rintro ⟨⟩
      exact ⟨[], .nil, rfl⟩
    · rintro ⟨rs, hrs, rfl⟩
      cases hrs
      rfl
  | cons m rest ih =>
    rw [List.foldlM_cons, Except.bind_eq_ok_iff]
    constructor
    · rintro ⟨next, hnext, hrest⟩
      obtain ⟨r, hr, hnext⟩ := Except.bind_eq_ok_iff.mp hnext
      cases hnext
      obtain ⟨rs, hrs, rfl⟩ := ih.mp hrest
      exact ⟨r :: rs, .cons hr hrs, by rw [List.foldl_cons, c.location_of_replacement hr]⟩
    · rintro ⟨rs, hrs, rfl⟩
      cases hrs with
      | cons hr hrest =>
        refine ⟨_, Except.bind_eq_ok_iff.mpr ⟨_, hr, rfl⟩, ih.mpr ⟨_, hrest, ?_⟩⟩
        rw [List.foldl_cons, c.location_of_replacement hr]

/-- The edits of mutations are their replacements, grouped by file. -/
theorem ofMutations_eq_ok_iff {edits : List FileEdits} : ofMutations c ms = .ok edits ↔
    ∃ rs, c.HasReplacements ms rs ∧ edits = group rs := by
  simp only [← foldl_add]
  exact foldlM_add_eq_ok_iff

/-- Names that are all the same come down to one. -/
theorem eraseDups_of_all_eq {files : List String} (hne : files ≠ []) (h : ∀ x ∈ files, x = f) :
    files.eraseDups = [f] := by
  cases files with
  | nil => exact absurd rfl hne
  | cons x rest =>
    obtain rfl := h x (by simp)
    have hrest : rest.filter (fun b => !b == x) = [] := by
      simpa [List.filter_eq_nil_iff] using fun y hy => h y (by simp [hy])
    rw [List.eraseDups_cons, hrest]
    rfl

end FileEdits

/-- Replacements of different spans are resolved in the same way in any order. -/
theorem Replacement.resolve_perm {rs rs' : List Replacement} (hperm : rs'.Perm rs)
    (hspans : (rs.map (·.location.span)).Nodup) : resolve rs' = resolve rs := by
  have hmem (given : List Replacement) {a : Replacement} : a ∈ inOrder given ↔ a ∈ given :=
    (stablySorted_inOrder given).perm.mem_iff
  have horder : inOrder rs' = inOrder rs := by
    refine List.Perm.eq_of_pairwise ?_ (stablySorted_inOrder rs').ordered
      (stablySorted_inOrder rs).ordered ?_
    · intro a b ha hb hab hba
      refine List.inj_on_of_nodup_map hspans (hperm.mem_iff.mp ((hmem rs').mp ha))
        ((hmem rs).mp hb) ?_
      have hstart : a.start = b.start := by grind
      have hstop : a.stop = b.stop := by grind
      show (⟨a.start, a.stop⟩ : Span) = ⟨b.start, b.stop⟩
      rw [hstart, hstop]
    · exact ((stablySorted_inOrder rs').perm.trans hperm).trans (stablySorted_inOrder rs).perm.symm
  rw [resolve, resolve, horder]

namespace Action

variable {σ α β : Type}

/-- Actions that leave the state alone do so one after another. -/
theorem mapM_eq_ok_iff_of_still {f : α → Action σ β} {R : α → β → Prop} {s : σ} {xs : List α}
    (h : ∀ x ∈ xs, ∀ y s', f x s = .ok y s' ↔ s' = s ∧ R x y) {ys : List β} {s' : σ} :
    xs.mapM f s = .ok ys s' ↔ s' = s ∧ List.Forall₂ R xs ys := by
  induction xs generalizing ys with
  | nil =>
    rw [List.mapM_nil, pure_eq_ok_iff, List.forall₂_nil_left_iff, and_comm, eq_comm]
  | cons x rest ih =>
    have hrest := fun y hy => h y (List.mem_cons_of_mem x hy)
    constructor
    · intro hall
      obtain ⟨y, s₁, ys, hx, hys, rfl⟩ := mapM_cons_eq_ok hall
      obtain ⟨rfl, hy⟩ := (h x (by simp) y s₁).mp hx
      obtain ⟨rfl, htail⟩ := (ih hrest).mp hys
      exact ⟨rfl, .cons hy htail⟩
    · rintro ⟨rfl, hall⟩
      cases hall with
      | cons hy hys =>
        exact mapM_cons_of_ok ((h x (by simp) _ _).mpr ⟨rfl, hy⟩) ((ih hrest).mpr ⟨rfl, hys⟩)

end Action

namespace Installation

open FileEdits (files_eq ofMutations_eq_ok_iff)

variable {σ : Type} {i : Installation σ} {s : Snapshot} {ms : List Mutation}
  {rs : List Replacement} {t t' : Session σ} {d part : List Char} {f : String}

/-- The files of mutations, in the order in which they first come. -/
def filesOf (ms : List Mutation) : List String :=
  (ms.map (·.location.file)).eraseDups

/-- The mutations of a file. -/
def inFile (f : String) (ms : List Mutation) : List Mutation :=
  ms.filter (·.location.file = f)

/-- The text of the file is kept, and this is the diff that its replacements make of it. -/
def MakesPart (i : Installation σ) (s : Snapshot) (sources : SourceCache) (rs : List Replacement)
    (f : String) (part : List Char) : Prop :=
  ∃ text, sources.text? s.name f = some text ∧
    FileEdits.diff ⟨f, rs.filter (·.location.file = f)⟩ i.compare text.toList = .ok part

theorem fileDiff_eq_ok_iff {text : String} (hkept : t.sources.text? s.name f = some text) :
    i.fileDiff s ⟨f, rs.filter (·.location.file = f)⟩ t = .ok part t' ↔
      t' = t ∧ i.MakesPart s t.sources rs f part := by
  have hread : Session.readSource i.backend s f t = .ok text t := Session.readSource_of_kept hkept
  rw [fileDiff, Action.bind_of_ok hread, Action.ofExcept_eq_ok_iff]
  simp [MakesPart, hkept, and_comm]

theorem files_group (h : i.catalogue.HasReplacements ms rs) :
    (FileEdits.group rs).map (·.file) = filesOf ms := by
  rw [FileEdits.group, List.map_map, files_eq h]
  exact List.map_id _

/-- Once the files are read, their diffs are made without the backend. -/
theorem mapM_fileDiff_eq_ok_iff {t₁ : Session σ} {parts : List (List Char)}
    (hrs : i.catalogue.HasReplacements ms rs)
    (hprefetch : Session.prefetch i.backend s (filesOf ms) t = .ok () t₁) :
    (FileEdits.group rs).mapM (i.fileDiff s) t₁ = .ok parts t' ↔
      t' = t₁ ∧ List.Forall₂ (i.MakesPart s t₁.sources rs) (filesOf ms) parts := by
  rw [← files_group hrs, List.forall₂_map_left_iff]
  refine Action.mapM_eq_ok_iff_of_still fun e he part t₂ => ?_
  have hfile : e.file ∈ filesOf ms := files_group hrs ▸ List.mem_map_of_mem he
  obtain ⟨f, -, rfl⟩ := List.mem_map.mp he
  obtain ⟨text, hkept⟩ := Session.kept_of_prefetch hprefetch hfile
  exact fileDiff_eq_ok_iff hkept

/-- The diff of mutations is the diffs of their files, one after another, made from the texts that
were read ahead. -/
theorem diffOf_eq_ok_iff : i.diffOf s ms t = .ok d t' ↔
    ∃ rs parts, i.catalogue.HasReplacements ms rs ∧
      Session.prefetch i.backend s (filesOf ms) t = .ok () t' ∧
      List.Forall₂ (i.MakesPart s t'.sources rs) (filesOf ms) parts ∧ d = parts.flatten := by
  constructor
  · intro h
    obtain ⟨edits, t₁, hstart, h⟩ := Action.bind_eq_ok_iff.mp h
    obtain ⟨hedits, rfl⟩ := Action.ofExcept_eq_ok_iff.mp hstart
    obtain ⟨rs, hrs, rfl⟩ := ofMutations_eq_ok_iff.mp hedits
    obtain ⟨_, t₂, hprefetch, h⟩ := Action.bind_eq_ok_iff.mp h
    obtain ⟨parts, t₃, hparts, h⟩ := Action.bind_eq_ok_iff.mp h
    obtain ⟨rfl, rfl⟩ := Action.pure_eq_ok_iff.mp h
    rw [files_group hrs] at hprefetch
    obtain ⟨rfl, hmade⟩ := (mapM_fileDiff_eq_ok_iff hrs hprefetch).mp hparts
    exact ⟨rs, parts, hrs, hprefetch, hmade, rfl⟩
  · rintro ⟨rs, parts, hrs, hprefetch, hmade, rfl⟩
    have hedits := ofMutations_eq_ok_iff.mpr ⟨rs, hrs, rfl⟩
    have hparts := (mapM_fileDiff_eq_ok_iff hrs hprefetch).mpr ⟨rfl, hmade⟩
    rw [← files_group hrs] at hprefetch
    refine Action.bind_eq_ok_iff.mpr ⟨_, t, Action.ofExcept_eq_ok_iff.mpr ⟨hedits, rfl⟩, ?_⟩
    refine Action.bind_eq_ok_iff.mpr ⟨(), t', hprefetch, ?_⟩
    exact Action.bind_eq_ok_iff.mpr ⟨parts, t', hparts, rfl⟩

theorem filesOf_inFile (hf : f ∈ filesOf ms) : filesOf (inFile f ms) = [f] := by
  refine FileEdits.eraseDups_of_all_eq ?_ ?_
  · simpa [filesOf, inFile, List.mem_eraseDups] using hf
  · simp +contextual [inFile, eq_comm]

/-- The mutations of one file make the diff of that file, if it can be read. -/
theorem diffOf_inFile {text : String}
    (hrs : i.catalogue.HasReplacements ms rs)
    (hf : f ∈ filesOf ms) (hread : Session.readSource i.backend s f t = .ok text t')
    (hdiff : FileEdits.diff ⟨f, rs.filter (·.location.file = f)⟩ i.compare text.toList =
      .ok part) :
    i.diffOf s (inFile f ms) t = .ok part t' := by
  have hfilter : i.catalogue.HasReplacements (inFile f ms) (rs.filter (·.location.file = f)) :=
    List.rel_filter (fun m r hr => by simp [i.catalogue.location_of_replacement hr]) hrs
  have hprefetch : Session.prefetch i.backend s [f] t = .ok () t' := by
    rw [Session.prefetch_cons]
    exact Action.bind_eq_ok_iff.mpr ⟨(), t', Action.discard_eq_ok_iff.mpr ⟨text, hread⟩, rfl⟩
  refine diffOf_eq_ok_iff.mpr ⟨_, [part], hfilter, ?_, ?_, by simp⟩
  · rwa [filesOf_inFile hf]
  · rw [filesOf_inFile hf]
    refine .cons ⟨text, Session.kept_of_readSource hread, ?_⟩ .nil
    rw [List.filter_filter]
    simpa using hdiff

/-- One after another the diffs of the files read what is read ahead for all of them. -/
theorem mapM_diffOf_inFile {files : List String} {parts : List (List Char)}
    (hrs : i.catalogue.HasReplacements ms rs)
    (hfiles : ∀ f ∈ files, f ∈ filesOf ms)
    (hprefetch : Session.prefetch i.backend s files t = .ok () t')
    (hparts : List.Forall₂ (i.MakesPart s t'.sources rs) files parts) :
    files.mapM (fun f => i.diffOf s (inFile f ms)) t = .ok parts t' := by
  induction files generalizing t parts with
  | nil =>
    cases hparts
    cases hprefetch
    rfl
  | cons f rest ih =>
    rw [Session.prefetch_cons] at hprefetch
    obtain ⟨_, t₁, hread, hrest⟩ := Action.bind_eq_ok_iff.mp hprefetch
    obtain ⟨text, hread⟩ := Action.discard_eq_ok_iff.mp hread
    cases hparts with
    | cons hpart hparts =>
      obtain ⟨text', hkept, hdiff⟩ := hpart
      have hsame := Session.prefetch_keeps hrest (Session.kept_of_readSource hread)
      obtain rfl : text' = text := Option.some.inj (hkept.symm.trans hsame)
      exact Action.mapM_cons_of_ok (diffOf_inFile hrs (hfiles f (by simp)) hread hdiff)
        (ih (fun x hx => hfiles x (by simp [hx])) hrest hparts)

/-- The order of the replacements of a file does not matter, if they have different spans. -/
theorem makesPart_perm {rs' : List Replacement} {sources : SourceCache} (hperm : rs'.Perm rs)
    (hspans : (rs.map (·.location)).Nodup) (h : i.MakesPart s sources rs f part) :
    i.MakesPart s sources rs' f part := by
  obtain ⟨text, hkept, hdiff⟩ := h
  -- In one file the span is all of the location that can differ.
  have hdistinct : ((rs.filter (·.location.file = f)).map (·.location.span)).Nodup := by
    rw [List.Nodup, List.pairwise_map] at hspans ⊢
    refine (hspans.filter _).imp_of_mem fun {a b} ha hb hne hspan => hne ?_
    have hfile : a.location.file = b.location.file := by
      rw [of_decide_eq_true (List.mem_filter.mp ha).2, of_decide_eq_true (List.mem_filter.mp hb).2]
    show (⟨a.location.file, a.location.span⟩ : FileSpan) = ⟨b.location.file, b.location.span⟩
    rw [hfile, hspan]
  have hresolve := Replacement.resolve_perm (hperm.filter (·.location.file = f)) hdistinct
  refine ⟨text, hkept, ?_⟩
  rw [FileEdits.diff, SourceText.splice] at hdiff ⊢
  rwa [hresolve]

/-- The diff of mutations is the diffs of the mutations of each file, in the order in which the
files first come: these can be made one after another from the same state, which ends in the same
state, and each alone from any state in which the file has the same text. If mutations of one file
have different spans, then the diff does not depend on the order of the mutations of a file, nor on
how those of different files are mixed. -/
theorem diffOf_by_file (i : Installation σ) (s : Snapshot) (ms : List Mutation) (t t' : Session σ)
    (d : List Char) (h : i.diffOf s ms t = .ok d t') :
    (∃ parts, d = parts.flatten ∧
      (filesOf ms).mapM (fun f => i.diffOf s (inFile f ms)) t = .ok parts t' ∧
      List.Forall₂ (fun f part => ∀ t₁ t₂ text,
        Session.readSource i.backend s f t₁ = .ok text t₂ →
        t'.sources.text? s.name f = some text →
        i.diffOf s (inFile f ms) t₁ = .ok part t₂) (filesOf ms) parts) ∧
    ((ms.map (·.location)).Nodup → ∀ ms', ms'.Perm ms → filesOf ms' = filesOf ms →
      i.diffOf s ms' t = .ok d t') := by
  obtain ⟨rs, parts, hrs, hprefetch, hparts, rfl⟩ := diffOf_eq_ok_iff.mp h
  refine ⟨⟨parts, rfl, mapM_diffOf_inFile hrs (fun _ hf => hf) hprefetch hparts, ?_⟩, ?_⟩
  · refine ((List.forall₂_and_left _ _).mpr ⟨fun f hf => hf, hparts⟩).imp ?_
    rintro f part ⟨hf, text, hkept, hdiff⟩ t₁ t₂ text' hread hkept'
    obtain rfl : text = text' := Option.some.inj (hkept.symm.trans hkept')
    exact diffOf_inFile hrs hf hread hdiff
  · intro hdistinct ms' hperm hfiles
    obtain ⟨rs', hrs', hrsPerm⟩ := List.perm_comp_forall₂ hperm hrs
    rw [← FileEdits.locations_eq hrs] at hdistinct
    rw [← hfiles] at hprefetch hparts
    exact diffOf_eq_ok_iff.mpr ⟨rs', parts, hrs', hprefetch,
      hparts.imp fun _ _ => makesPart_perm hrsPerm hdistinct, rfl⟩

/-- Two mutations of a file, with one of another file between them. -/
def Sample.mixed : List Mutation :=
  [⟨"put", 1, ⟨"f", ⟨⟨4, 0⟩, ⟨4, 1⟩⟩⟩, .empty⟩, ⟨"put", 0, ⟨"g", ⟨⟨1, 0⟩, ⟨1, 1⟩⟩⟩, .empty⟩,
   ⟨"put", 0, ⟨"f", ⟨⟨1, 3⟩, ⟨1, 4⟩⟩⟩, .empty⟩]

/-- Mutations of two files, mixed and in reverse. -/
theorem diffOf_by_file_mixed :
    ∃ d t', Sample.installation.diffOf Sample.base Sample.mixed Sample.session = .ok d t' ∧
      d ≠ [] ∧
      Sample.installation.diffOf Sample.base Sample.mixed.reverse Sample.session = .ok d t' ∧
      ∃ parts, d = parts.flatten ∧ ["f", "g"].mapM (fun f =>
        Sample.installation.diffOf Sample.base (inFile f Sample.mixed)) Sample.session =
          .ok parts t' := by
  obtain ⟨⟨parts, hd, hparts, -⟩, hreorder⟩ :=
    diffOf_by_file Sample.installation Sample.base Sample.mixed Sample.session _ _ rfl
  have hsame := hreorder (by decide) Sample.mixed.reverse (List.reverse_perm _) (by decide)
  exact ⟨_, _, rfl, by decide, hsame, parts, hd, hparts⟩

end Installation

end Mutagenesis
