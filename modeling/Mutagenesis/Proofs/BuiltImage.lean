import Mutagenesis.Proofs.DiffRoundTrip
import Mutagenesis.Proofs.MemoryEffects
import Mutagenesis.Proofs.OperationLaws

/-!
# The image of a mutant holds its mutation

With the backend in memory, the image of a new mutant holds the files of the snapshot it was made
from, and of these only the mutated one is changed, to the text that its replacement gives
(`generate_image`). The texts may hold any characters. What has to be excluded is a diff that names
its file or its place in the file differently for the one who reads it: `generate_image_shifted`
and `generate_image_renamed` are mutants whose mutation ended up elsewhere.
-/

set_option autoImplicit false

namespace Mutagenesis

namespace MemoryStore

/-- A patch that applies puts the changed text in the place of the old one. -/
theorem patchFiles_eq_ok {files files' : Files} {p : FilePatch}
    (h : patchFiles files p = .ok files') :
    ∃ text changed, files.lookup p.path = some text ∧ p.apply text.toList = .ok changed ∧
      files' = Roster.put Prod.fst (p.path, String.ofList changed) files := by
  unfold patchFiles at h
  cases hlookup : files.lookup p.path with
  | none =>
    rw [hlookup] at h
    cases h
  | some text =>
    rw [hlookup] at h
    obtain ⟨changed, hchanged, h⟩ := Except.bind_eq_ok_iff.mp h
    cases h
    cases happly : p.apply text.toList with
    | error fault =>
      rw [happly] at hchanged
      cases hchanged
    | ok result =>
      rw [happly] at hchanged
      cases hchanged
      exact ⟨text, changed, rfl, happly, rfl⟩

/-- The same files, of which only one may have another text. -/
structure Edited (file : String) (text : List Char) (files files' : Files) : Prop where
  paths : files'.map Prod.fst = files.map Prod.fst
  changed : files'.lookup file = some (String.ofList text)
  others : ∀ path, path ≠ file → files'.lookup path = files.lookup path

/-- Putting a new text for a file edits that file only. -/
theorem edited_put {files : Files} {file : String} {old : String} (text : List Char)
    (h : files.lookup file = some old) :
    Edited file text files (Roster.put Prod.fst (file, String.ofList text) files) := by
  refine ⟨?_, ?_, fun path hpath => ?_⟩
  · apply Roster.keys_put
    rw [Roster.lookup_eq_find?] at h
    cases hfind : Roster.find? Prod.fst file files with
    | none =>
      rw [hfind] at h
      cases h
    | some pair => rfl
  · rw [Roster.lookup_eq_find?, Roster.find?_put, if_pos rfl]
    rfl
  · rw [Roster.lookup_eq_find?, Roster.find?_put, if_neg (Ne.symm hpath),
      ← Roster.lookup_eq_find?]

/-- A diff that is read and applied changes its file to the text it was made for, and no other. -/
theorem edited_of_diff {v : FileVersion} (hv : v.changed → v.Placed) {files files' : Files}
    (horiginal : files.lookup v.file = some (String.ofList v.original)) {patches : List FilePatch}
    (hparse : Diff.parse v.diff = .ok patches)
    (hfiles : patches.foldlM patchFiles files = .ok files') :
    Edited v.file v.mutated files files' := by
  by_cases hsame : v.original = v.mutated
  · have hdiff : v.diff = [] := by rw [FileVersion.diff, if_pos hsame]
    rw [hdiff] at hparse
    cases hparse
    cases hfiles
    exact ⟨rfl, by rw [horiginal, hsame], fun _ _ => rfl⟩
  · have hplaced := hv (by simpa [FileVersion.changed] using hsame)
    obtain rfl := FileVersion.patches_of_parse hplaced hsame hparse
    obtain ⟨next, hpatch, hnext⟩ := Except.bind_eq_ok_iff.mp hfiles
    cases hnext
    obtain ⟨text, changed, hlookup, happly, rfl⟩ := patchFiles_eq_ok hpatch
    obtain rfl : text = String.ofList v.original :=
      Option.some.inj (hlookup.symm.trans horiginal)
    rw [String.toList_ofList] at happly
    rw [FileVersion.eq_of_patch_apply hplaced happly]
    exact edited_put v.mutated horiginal

end MemoryStore

namespace Session

/-- What is kept of the sources of a snapshot is what its image holds. -/
def SourcesAgree (s : Snapshot) (t : Session MemoryStore) : Prop :=
  ∀ path text, t.sources.text? s.name path = some text →
    (t.store.imageFiles s.image).lookup path = some text

/-- Reading a source leaves the store as it was but for the log, and keeps what the image holds. -/
theorem readSource_agrees {s : Snapshot} {path : String} {t : Session MemoryStore}
    (h : t.SourcesAgree s) (store : MemoryStore)
    (hstore : ∃ log, t.store = store.withLog log) :
    (readSource MemoryStore.backend s path).Ensures t
      (fun _ t' => t'.SourcesAgree s ∧ ∃ log, t'.store = store.withLog log)
      (fun _ t' => t'.SourcesAgree s ∧ ∃ log, t'.store = store.withLog log) := by
  obtain ⟨log, hlog⟩ := hstore
  refine readSource_ensures (fun _ _ => ⟨h, log, hlog⟩) fun hnone => ?_
  refine (MemoryStore.fileText_ensures s path).mono ?_ ?_
  · rintro text _ ⟨htext, log', rfl⟩
    refine ⟨fun path' text' hkept => ?_, log', by rw [hlog]; rfl⟩
    rw [SourceCache.text?_add] at hkept
    cases hold : t.sources.text? s.name path' with
    | some old =>
      rw [hold] at hkept
      cases hkept
      exact h path' text' hold
    | none =>
      rw [hold] at hkept
      split at hkept
      · next hkey =>
        cases hkept
        rw [← hkey.2]
        exact htext
      · cases hkept
  · rintro _ _ ⟨log', rfl⟩
    exact ⟨h, log', by rw [hlog]; rfl⟩

end Session

namespace Installation

variable {i : Installation MemoryStore} {s : Snapshot}

open MemoryStore (patchFiles)

section

variable (hbackend : i.backend = MemoryStore.backend)
include hbackend

/-- A build keeps as its image the files of the container with the patches applied to them. -/
theorem buildIn_files (st : MemoryStore) (c : Container) (diff image : String) :
    (i.buildIn c diff image).Ensures st
      (fun _ st' => ∃ patches files, Diff.parse diff.toList = .ok patches ∧
        patches.foldlM patchFiles (st.containerFiles c.id) = .ok files ∧
        st'.images = Roster.put FileSet.name ⟨image, files⟩ st.images)
      (fun _ _ => True) := by
  apply buildIn_ensures
  rw [hbackend]
  refine (MemoryStore.applyPatch_ensures c diff).mono ?_ fun _ _ _ => trivial
  rintro _ _ ⟨patches, files, hparse, hpatched, log₁, rfl⟩
  refine (MemoryStore.build_ensures c).mono ?_ fun _ _ _ => trivial
  rintro outcome _ ⟨log₂, rfl⟩
  cases outcome with
  | failure output => trivial
  | success =>
    refine (MemoryStore.persist_ensures c image).mono ?_ fun _ _ _ => trivial
    rintro _ _ ⟨log₃, rfl⟩
    refine ⟨patches, files, hparse, hpatched, ?_⟩
    simp [MemoryStore.containerFiles, MemoryStore.withLog, Roster.find?_put]

/-- Destroying a container leaves the images, also when it fails. -/
theorem destroy_images (st : MemoryStore) (c : Container) :
    (i.backend.destroy c).Ensures st (fun _ st' => st'.images = st.images)
      (fun _ st' => st'.images = st.images) := by
  rw [hbackend]
  refine (MemoryStore.destroy_ensures c).mono ?_ ?_
  · rintro _ _ ⟨log, rfl⟩
    rfl
  · rintro _ _ ⟨log, rfl⟩
    rfl

/-- The image that is built holds the files of the snapshot with the patches applied to them. -/
theorem buildImage_files {st : MemoryStore} (hnumbered : st.Numbered) (diff image : String) :
    (i.buildImage s diff image).Ensures st
      (fun _ st' => ∃ patches files, Diff.parse diff.toList = .ok patches ∧
        patches.foldlM patchFiles (st.imageFiles s.image) = .ok files ∧
        st'.images = Roster.put FileSet.name ⟨image, files⟩ st.images)
      (fun _ _ => True) := by
  have hprovision := MemoryStore.provision_ensures (s := st) s
  change (MemoryStore.backend.provision s).Ensures st _ _ at hprovision
  rw [← hbackend] at hprovision
  refine buildImage_ensures (hprovision.mono ?_ fun _ _ _ => trivial)
  rintro _ st₁ ⟨rfl, log, hst₁⟩
  -- the new container is found under its name, since no older one has it
  have hcopy : st₁.containerFiles st.nextName = st.imageFiles s.image := by
    unfold MemoryStore.containerFiles
    rw [hst₁, Roster.find?_append_of_none hnumbered.find?_nextName _ rfl]
    rfl
  have himages : st₁.images = st.images := by rw [hst₁]; rfl
  refine (buildIn_files hbackend st₁ _ diff image).mono ?_ fun _ st₂ _ => ?_
  · rintro _ st₂ ⟨patches, files, hparse, hfiles, hst₂⟩
    rw [hcopy] at hfiles
    rw [himages] at hst₂
    refine (destroy_images hbackend st₂ _).mono ?_ ?_
    · exact fun _ st₃ hst₃ => ⟨patches, files, hparse, hfiles, hst₃.trans hst₂⟩
    · exact fun _ st₃ hst₃ => ⟨patches, files, hparse, hfiles, hst₃.trans hst₂⟩
  · exact (destroy_images hbackend st₂ _).mono (fun _ _ _ => trivial) (fun _ _ _ => trivial)

/-- Adding a record changes no image. -/
theorem addRecord_images (record : Snapshot) (st : MemoryStore) :
    (i.addRecord record).Ensures st (fun _ st' => st'.images = st.images) (fun _ _ => True) := by
  apply addRecord_ensures
  rw [hbackend]
  refine (MemoryStore.register_ensures record).mono ?_ fun _ _ _ => ?_
  · rintro _ _ ⟨log, rfl⟩
    rfl
  · exact (MemoryStore.deleteImage_ensures _).mono (fun _ _ _ => trivial) (fun _ _ _ => trivial)

/-- What is left of a successful `generate`: the diff that was made, the files it was applied to,
and the image they were kept as. -/
theorem generate_files {ms : List Mutation} {before after : Session MemoryStore} {m : Mutant}
    (hnumbered : before.store.Numbered) (hsources : before.SourcesAgree s)
    (h : i.generate s ms before = .ok m after) :
    ms.length ≤ 1 ∧ ∃ diff t, i.diffOf s ms before.drawn = .ok diff t ∧ t.SourcesAgree s ∧
      t.store.images = before.store.images ∧ after.sources = t.sources ∧
      ∃ patches files, Diff.parse diff = .ok patches ∧
        patches.foldlM patchFiles (before.store.imageFiles s.image) = .ok files ∧
        Roster.find? FileSet.name m.id.imageName after.store.images =
          some ⟨m.id.imageName, files⟩ := by
  suffices hensures : (i.generate s ms).Ensures before
      (fun m after => ms.length ≤ 1 ∧ ∃ diff t, i.diffOf s ms before.drawn = .ok diff t ∧
        t.SourcesAgree s ∧ t.store.images = before.store.images ∧ after.sources = t.sources ∧
        ∃ patches files, Diff.parse diff = .ok patches ∧
          patches.foldlM patchFiles (before.store.imageFiles s.image) = .ok files ∧
          Roster.find? FileSet.name m.id.imageName after.store.images =
            some ⟨m.id.imageName, files⟩)
      (fun _ _ => True) from hensures.of_ok h
  refine generate_ensures (fun _ => trivial) (fun _ => trivial) fun hlength _ => ?_
  have hdiff : (i.diffOf s ms).Ensures before.drawn
      (fun _ t => t.SourcesAgree s ∧ ∃ log, t.store = before.store.withLog log)
      (fun _ t => t.SourcesAgree s ∧ ∃ log, t.store = before.store.withLog log) := by
    refine diffOf_ensures (fun path t ht => ?_) ⟨hsources, before.store.log, rfl⟩
    rw [hbackend]
    exact Session.readSource_agrees ht.1 before.store ht.2
  refine hdiff.withOutcome.mono ?_ fun _ _ _ => trivial
  rintro diff t ⟨hrun, hagree, log, hstore⟩
  have hnumbered' : t.store.Numbered := by
    rw [hstore]
    exact hnumbered
  refine (buildImage_files hbackend hnumbered' _ _).mono ?_ fun _ _ _ => trivial
  rintro _ st₁ ⟨patches, files, hparse, hfiles, himages⟩
  refine (addRecord_images hbackend _ st₁).mono (fun _ st₂ hst₂ => ?_) fun _ _ _ => trivial
  rw [String.toList_ofList] at hparse
  rw [hstore] at hfiles
  refine ⟨hlength, diff, t, hrun, hagree, by rw [hstore]; rfl, rfl, patches, files, hparse, hfiles,
    ?_⟩
  change Roster.find? FileSet.name (i.nextMutant before).imageName st₂.images = _
  rw [hst₂, himages, Roster.find?_put, if_pos rfl]

end

/-- The image of a new mutant holds the files of the snapshot it was made from. However lines are
compared, the mutated file has the text that its replacement gives, if the diff was in place, and
the others are unchanged. -/
theorem generate_image (i : Installation MemoryStore) (hbackend : i.backend = MemoryStore.backend)
    (s : Snapshot) (ms : List Mutation) (before after : Session MemoryStore) (m : Mutant)
    (hnumbered : before.store.Numbered) (hsources : before.SourcesAgree s)
    (h : i.generate s ms before = .ok m after) :
    ∃ vs, i.versions s ms after = .ok vs after ∧
      vs.map (·.file) = ms.map (·.location.file) ∧
      (∀ v ∈ vs, (before.store.imageFiles s.image).lookup v.file =
        some (String.ofList v.original)) ∧
      ((∀ v ∈ vs, v.changed → v.Placed) →
        ∃ files, Roster.find? FileSet.name m.id.imageName after.store.images =
            some ⟨m.id.imageName, files⟩ ∧
          files.map Prod.fst = (before.store.imageFiles s.image).map Prod.fst ∧
          (∀ v ∈ vs, files.lookup v.file = some (String.ofList v.mutated)) ∧
          ∀ path, (∀ v ∈ vs, path ≠ v.file) →
            files.lookup path = (before.store.imageFiles s.image).lookup path) := by
  obtain ⟨hlength, diff, t, hdiff, hagree, hstore, hkept, patches, files, hparse, hfiles, hfind⟩ :=
    generate_files hbackend hnumbered hsources h
  obtain ⟨vs, hvs, rfl, hnames, htexts⟩ := diffOf_eq_ok hdiff
  have hbase : t.store.imageFiles s.image = before.store.imageFiles s.image := by
    rw [MemoryStore.imageFiles, hstore]
    rfl
  have hnames' : vs.map (·.file) = ms.map (·.location.file) := by
    rw [hnames]
    match ms, hlength with
    | [], _ => rfl
    | [_], _ => rfl
  have horiginal : ∀ v ∈ vs, (before.store.imageFiles s.image).lookup v.file =
      some (String.ofList v.original) := by
    intro v hv
    rw [← hbase]
    exact hagree v.file _ (htexts v hv)
  refine ⟨vs, hvs after hkept, hnames', horiginal, fun hplaced => ⟨files, hfind, ?_⟩⟩
  have hcount : vs.length ≤ 1 := by
    have hcount := congrArg List.length hnames'
    rw [List.length_map, List.length_map] at hcount
    omega
  cases vs with
  | nil =>
    cases hparse
    cases hfiles
    exact ⟨rfl, by simp, fun _ _ => rfl⟩
  | cons v rest =>
    obtain rfl : rest = [] := List.eq_nil_of_length_eq_zero (by simpa using hcount)
    have hv : v ∈ [v] := by simp
    rw [List.map_singleton, List.flatten_singleton] at hparse
    have hedited := MemoryStore.edited_of_diff (hplaced v hv) (horiginal v hv) hparse hfiles
    refine ⟨hedited.paths, fun w hw => ?_, fun path hpath => hedited.others path (hpath v hv)⟩
    obtain rfl := List.mem_singleton.mp hw
    exact hedited.changed

namespace ImageSample

def base : Snapshot := { name := "base", image := "image" }

/-- A session in which nothing was read or made yet. -/
def session (files : Files) : Session MemoryStore where
  store := { snapshots := [base], images := [⟨"image", files⟩] }

/-- One operator, which puts `b`. -/
def installation : Installation MemoryStore where
  catalogue := ⟨[], [⟨"put", NameSet.ofList ["c"], [⟨":[t]", "b", []⟩]⟩]⟩
  matcher := fun _ _ => .ok []
  backend := MemoryStore.backend

/-- Puts `b` in the place of the first character of a line. -/
def mutation (file : String) (line : Nat) : Mutation :=
  ⟨"put", 0, ⟨file, ⟨⟨line, 0⟩, ⟨line, 1⟩⟩⟩, .empty⟩

/-- A carriage return that stands alone comes after the change. -/
def files : Files := [("f", "a\nc\nd\ne\nx\ry\n"), ("g", "")]

def change : FileVersion :=
  .between LineDiff.script "f" "a\nc\nd\ne\nx\ry\n".toList "b\nc\nd\ne\nx\ry\n".toList

theorem change_placed : change.Placed :=
  ⟨by decide, by decide, by decide⟩

theorem generate_change :
    (installation.generate base [mutation "f" 1]).Ensures (session files)
      (fun _ after => (installation.versions base [mutation "f" 1]).Ensures after
        (fun vs _ => vs = [change]) (fun _ _ => False))
      (fun _ _ => False) := by
  decide +kernel

end ImageSample

/-- A carriage return behind the change does no harm. -/
theorem generate_image_sample :
    ∃ m after files, ImageSample.installation.generate ImageSample.base
        [ImageSample.mutation "f" 1] (ImageSample.session ImageSample.files) = .ok m after ∧
      ImageSample.change.Placed ∧
      Roster.find? FileSet.name m.id.imageName after.store.images =
        some ⟨m.id.imageName, files⟩ ∧
      files.map Prod.fst = ["f", "g"] ∧ files.lookup "f" = some "b\nc\nd\ne\nx\ry\n" ∧
      files.lookup "g" = some "" := by
  obtain ⟨m, after, h, hversions⟩ := ImageSample.generate_change.exists_ok
  obtain ⟨vs, hvs, -, -, himage⟩ := generate_image ImageSample.installation rfl ImageSample.base
    [ImageSample.mutation "f" 1] (ImageSample.session ImageSample.files) after m nofun nofun h
  obtain rfl : vs = [ImageSample.change] := hversions.of_ok hvs
  obtain ⟨files, hfind, hpaths, hmutated, hothers⟩ := himage fun v hv _ =>
    List.mem_singleton.mp hv ▸ ImageSample.change_placed
  refine ⟨m, after, files, h, ImageSample.change_placed, hfind, ?_, ?_, ?_⟩
  · exact hpaths.trans (by decide +kernel)
  · exact (hmutated ImageSample.change (by simp)).trans (by decide +kernel)
  · exact (hothers "g" (by decide +kernel)).trans (by decide +kernel)

/-- A carriage return that stands alone in front of the change moves it one line down, if the lines
there are alike, and nothing fails. -/
theorem generate_image_shifted :
    (ImageSample.installation.generate ImageSample.base [ImageSample.mutation "f" 5]).Ensures
      (ImageSample.session [("f", "x\ra\na\na\na\na\na\na\na\na\n")])
      (fun m after =>
        (ImageSample.installation.versions ImageSample.base
          [ImageSample.mutation "f" 5]).Ensures after
          (fun vs _ => ∀ v ∈ vs, v.Exact ∧ Diff.PlainName v.file.toList ∧
            String.ofList v.mutated = "x\ra\na\na\na\nb\na\na\na\na\n") (fun _ _ => False) ∧
        after.store.imageFiles m.id.imageName = [("f", "x\ra\na\na\na\na\nb\na\na\na\n")])
      (fun _ _ => False) := by
  decide +kernel

/-- A file whose name has a tab is mistaken for the one whose name ends before it. -/
theorem generate_image_renamed :
    (ImageSample.installation.generate ImageSample.base
        [ImageSample.mutation "x\ty" 1]).Ensures
      (ImageSample.session [("x\ty", "a\n"), ("x", "a\n")])
      (fun m after =>
        (ImageSample.installation.versions ImageSample.base
          [ImageSample.mutation "x\ty" 1]).Ensures after
          (fun vs _ => ∀ v ∈ vs, v.Exact ∧ String.ofList v.mutated = "b\n") (fun _ _ => False) ∧
        after.store.imageFiles m.id.imageName = [("x\ty", "a\n"), ("x", "b\n")])
      (fun _ _ => False) := by
  decide +kernel

end Installation

end Mutagenesis
