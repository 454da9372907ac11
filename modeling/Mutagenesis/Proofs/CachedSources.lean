import Mutagenesis.Proofs.MutantRuns

/-!
# Cached sources agree with the backend

Texts are cached by the name of a snapshot, while records and images come and go in the backend, and
any of its calls may fail. What keeps the two together is that a name never changes its meaning: a
record is added only for an id that is drawn, and no record of before has the name or the image of
that id. So all records that were ever there are told apart by their names, and the image of none of
them is written again (`Coherent`). A call keeps this (`run_coherent`), and so do an operation
(`perform_settles`) and a run (`run_coherent`).

A search is given a snapshot by its caller, and reads through whatever image that snapshot names. It
has to be the image of a record under that name: otherwise the text of another image is cached for
the record.
-/

set_option autoImplicit false

namespace Mutagenesis

open Mutagenesis.Action (ensures_bind)

namespace MemoryStore

/-- The records that are found under their names. -/
def records (m : MemoryStore) : List Snapshot :=
  m.snapshots.filter fun r => Roster.find? Snapshot.name r.name m.snapshots = some r

theorem mem_records {m : MemoryStore} {r : Snapshot} :
    r ∈ m.records ↔ Roster.find? Snapshot.name r.name m.snapshots = some r := by
  unfold records
  rw [List.mem_filter, decide_eq_true_eq]
  exact ⟨And.right, fun h => ⟨List.mem_of_find?_eq_some h, h⟩⟩

theorem name_of_find? {m : MemoryStore} {name : String} {r : Snapshot}
    (h : Roster.find? Snapshot.name name m.snapshots = some r) : r.name = name := by
  simpa using List.find?_some h

end MemoryStore

/-! ## What calls do to records and files -/

namespace Call

/-- The call writes the image. -/
def Writes (image : String) : Call → Prop
  | .persist _ image' => image' = image
  | _ => False

/-- The call adds no record but one of these, and writes no image of theirs. -/
structure Tame (held : List Snapshot) (call : Call) : Prop where
  registers : ∀ record, call = .register record → record ∈ held
  writes : ∀ r ∈ held, ¬ call.Writes r.image

/-- A call that neither adds a record nor writes an image. -/
theorem Tame.of_other {held : List Snapshot} {call : Call}
    (hregister : ∀ record, call ≠ .register record)
    (hpersist : ∀ c image, call ≠ .persist c image) :
    call.Tame held where
  registers record h := absurd h (hregister record)
  writes r _ := by
    cases call with
    | persist c image => exact absurd rfl (hpersist c image)
    | _ => exact id

end Call

namespace MemoryStore

/-- The files of an image are those of before, or there are none. -/
def FilesWithin (image : String) (m m' : MemoryStore) : Prop :=
  m'.imageFiles image = m.imageFiles image ∨ m'.imageFiles image = []

theorem imageFiles_put {m : MemoryStore} {image image' : String} (files : Files) (log : List String)
    (h : image' ≠ image) :
    imageFiles { m.withLog log with images := Roster.put FileSet.name ⟨image', files⟩ m.images }
      image = m.imageFiles image := by
  unfold imageFiles
  rw [Roster.find?_put, if_neg h]

theorem imageFiles_erase (m : MemoryStore) (image image' : String) (log : List String) :
    FilesWithin image m
      { m.withLog log with images := Roster.erase FileSet.name image' m.images } := by
  unfold FilesWithin imageFiles
  rw [Roster.find?_erase]
  by_cases h : image' = image
  · exact Or.inr (by simp [h])
  · exact Or.inl (by rw [if_neg h])

/-- A call that succeeds has its effect on the records, and writes no image but the one it names;
one that fails changes nothing of them. -/
theorem run_files (call : Call) (m : MemoryStore) :
    (MemoryStore.backend.run call).Ensures m
      (fun _ m' => m'.snapshots = call.onRecords m.snapshots ∧
        ∀ image, ¬ call.Writes image → FilesWithin image m m')
      (fun _ m' => m'.snapshots = m.snapshots ∧ ∀ image, FilesWithin image m m') := by
  have hsame : ∀ m' : MemoryStore, (∃ log, m' = m.withLog log) →
      m'.snapshots = m.snapshots ∧ ∀ image, FilesWithin image m m' := by
    rintro _ ⟨log, rfl⟩
    exact ⟨rfl, fun _ => Or.inl rfl⟩
  have hread : ∀ m' : MemoryStore, (∃ log, m' = m.withLog log) →
      m'.snapshots = m.snapshots ∧ ∀ image, ¬ False → FilesWithin image m m' :=
    fun m' h => ⟨(hsame m' h).1, fun image _ => (hsame m' h).2 image⟩
  cases call with
  | lookup name => exact (lookup_ensures name).mono (fun _ m' h => hread m' h.2) (fun _ => hsame)
  | fileText snapshot path =>
    exact (fileText_ensures snapshot path).mono (fun _ m' h => hread m' h.2) (fun _ => hsame)
  | provision snapshot =>
    refine (provision_ensures snapshot).mono ?_ (fun _ => hsame)
    rintro _ _ ⟨-, log, rfl⟩
    exact ⟨rfl, fun _ _ => Or.inl rfl⟩
  | applyPatch c diff =>
    refine (applyPatch_ensures c diff).mono ?_ (fun _ => hsame)
    rintro _ _ ⟨_, _, -, -, log, rfl⟩
    exact ⟨rfl, fun _ _ => Or.inl rfl⟩
  | build c => exact (build_ensures c).mono (fun _ => hread) (fun _ => hsame)
  | persist c image =>
    refine (persist_ensures c image).mono ?_ (fun _ => hsame)
    rintro _ _ ⟨log, rfl⟩
    exact ⟨rfl, fun image' hne => Or.inl (imageFiles_put _ log hne)⟩
  | destroy c =>
    refine (destroy_ensures c).mono ?_ (fun _ => hsame)
    rintro _ _ ⟨log, rfl⟩
    exact ⟨rfl, fun _ _ => Or.inl rfl⟩
  | register record =>
    refine (register_ensures record).mono ?_ (fun _ => hsame)
    rintro _ _ ⟨log, rfl⟩
    exact ⟨rfl, fun _ _ => Or.inl rfl⟩
  | deregister name =>
    refine (deregister_ensures name).mono ?_ (fun _ => hsame)
    rintro _ _ ⟨log, rfl⟩
    exact ⟨rfl, fun _ _ => Or.inl rfl⟩
  | deleteImage image =>
    refine (deleteImage_ensures image).mono ?_ (fun _ => hsame)
    rintro _ _ ⟨log, rfl⟩
    exact ⟨rfl, fun image' _ => imageFiles_erase m image' image log⟩

end MemoryStore

/-! ## Coherence -/

/-- The snapshot has the name and the image of one of these records. -/
def Stands (held : List Snapshot) (s : Snapshot) : Prop :=
  ∃ r ∈ held, r.name = s.name ∧ r.image = s.image

instance (held : List Snapshot) (s : Snapshot) : Decidable (Stands held s) :=
  inferInstanceAs (Decidable (∃ r ∈ held, _))

theorem Stands.of_mem {held : List Snapshot} {s : Snapshot} (h : s ∈ held) : Stands held s :=
  ⟨s, h, rfl, rfl⟩

/-- The records held, which are all that were ever there, are told apart by their names; a cached
text belongs to one of them, and it is the text of the file wherever the file is there. -/
structure Coherent (held : List Snapshot) (sources : SourceCache) (m : MemoryStore) : Prop where
  known : ∀ name r, Roster.find? Snapshot.name name m.snapshots = some r → r ∈ held
  unique : ∀ r ∈ held, ∀ r' ∈ held, r.name = r'.name → r = r'
  named : ∀ name path text, sources.text? name path = some text → ∃ r ∈ held, r.name = name
  agrees : ∀ r ∈ held, ∀ path text text', sources.text? r.name path = some text →
    (m.imageFiles r.image).lookup path = some text' → text' = text

namespace Coherent

variable {held held' : List Snapshot} {sources sources' : SourceCache} {m m' : MemoryStore}

/-- An empty cache is coherent. -/
theorem opening (m : MemoryStore) : Coherent m.records [] m where
  known name r h := by
    rw [MemoryStore.mem_records, MemoryStore.name_of_find? h]
    exact h
  unique r hr r' hr' hname := by
    rw [MemoryStore.mem_records] at hr hr'
    rw [← hname, hr] at hr'
    exact Option.some.inj hr'
  named _ _ _ h := nomatch h
  agrees _ _ _ _ _ h := nomatch h

variable (h : Coherent held sources m)
include h

theorem within (hwithin : sources'.Within sources) :
    Coherent held sources' m where
  known := h.known
  unique := h.unique
  named name path text htext := h.named name path text (hwithin _ _ _ htext)
  agrees r hr path text text' htext := h.agrees r hr path text text' (hwithin _ _ _ htext)

/-- Records and files may go. -/
theorem recede (hknown : ∀ name r, Roster.find? Snapshot.name name m'.snapshots = some r → r ∈ held)
    (hfiles : ∀ r ∈ held, MemoryStore.FilesWithin r.image m m') : Coherent held sources m' where
  known := hknown
  unique := h.unique
  named := h.named
  agrees r hr path text text' htext hfile := by
    rcases hfiles r hr with hsame | hnone
    · rw [hsame] at hfile
      exact h.agrees r hr path text text' htext hfile
    · rw [hnone] at hfile
      cases hfile

/-- A file that is read through the image of a record held may be cached. -/
theorem add {s : Snapshot} (hs : Stands held s) {path text : String}
    (hread : (m.imageFiles s.image).lookup path = some text) :
    Coherent held (sources.add s.name path text) m where
  known := h.known
  unique := h.unique
  named name path' text' htext := by
    rw [SourceCache.text?_add, Option.or_eq_some_iff] at htext
    rcases htext with htext | ⟨-, htext⟩
    · exact h.named name path' text' htext
    · split at htext
      · next hkey =>
        obtain ⟨record, hrecord, hname, -⟩ := hs
        exact ⟨record, hrecord, hname.trans hkey.1⟩
      · cases htext
  agrees r hr path' text₁ text₂ htext hfile := by
    rw [SourceCache.text?_add, Option.or_eq_some_iff] at htext
    rcases htext with htext | ⟨-, htext⟩
    · exact h.agrees r hr path' text₁ text₂ htext hfile
    · split at htext
      · next hkey =>
        obtain ⟨hname, rfl⟩ := hkey
        obtain ⟨record, hrecord, hsame, himage⟩ := hs
        cases h.unique record hrecord r hr (hsame.trans hname)
        cases htext
        rw [himage] at hfile
        exact Option.some.inj (hfile.symm.trans hread)
      · cases htext

/-- A record with a new name may be held, since nothing is cached under its name. -/
theorem extend {d : Snapshot} (hd : ∀ r ∈ held, r.name ≠ d.name) :
    Coherent (d :: held) sources m where
  known name r hr := List.mem_cons_of_mem d (h.known name r hr)
  unique r hr r' hr' hname := by
    rcases List.mem_cons.mp hr with rfl | hold <;> rcases List.mem_cons.mp hr' with rfl | hold'
    · rfl
    · exact absurd hname.symm (hd r' hold')
    · exact absurd hname (hd r hold)
    · exact h.unique r hold r' hold' hname
  named name path text htext := by
    obtain ⟨r, hr, hname⟩ := h.named name path text htext
    exact ⟨r, List.mem_cons_of_mem d hr, hname⟩
  agrees r hr path text text' htext hfile := by
    rcases List.mem_cons.mp hr with rfl | hr
    · obtain ⟨r', hr', hname⟩ := h.named _ path text htext
      exact absurd hname (hd r' hr')
    · exact h.agrees r hr path text text' htext hfile

/-- Only which records are held matters. -/
theorem congr (hheld : ∀ r, r ∈ held' ↔ r ∈ held) :
    Coherent held' sources m where
  known name r hr := (hheld r).mpr (h.known name r hr)
  unique r hr r' hr' := h.unique r ((hheld r).mp hr) r' ((hheld r').mp hr')
  named name path text htext := by
    obtain ⟨r, hr, hname⟩ := h.named name path text htext
    exact ⟨r, (hheld r).mpr hr, hname⟩
  agrees r hr := h.agrees r ((hheld r).mp hr)

theorem mem_of_records {r : Snapshot} (hr : r ∈ m.records) : r ∈ held :=
  h.known r.name r (MemoryStore.mem_records.mp hr)

/-- The records that are there may be held once more. -/
theorem settle : Coherent (held ++ m.records) sources m :=
  h.congr fun r => by
    rw [List.mem_append]
    exact ⟨fun hr => hr.elim id h.mem_of_records, Or.inl⟩

end Coherent

namespace Trial

variable {held : List Snapshot} {sources : SourceCache} {r : Trial}

/-- A call changes the records as it says, and no files but those of the images that it writes. -/
theorem run_files (call : Call) (r : Trial) :
    (trialBackend.run call).Ensures r
      (fun _ r' => r'.memory.snapshots = call.onRecords r.memory.snapshots ∧
        ∀ image, ¬ call.Writes image → MemoryStore.FilesWithin image r.memory r'.memory)
      (fun _ r' => r'.memory.snapshots = r.memory.snapshots ∧
        ∀ image, MemoryStore.FilesWithin image r.memory r'.memory) := by
  unfold trialBackend
  rw [Backend.recorded_ensures]
  exact Backend.disturbed_ensures (MemoryStore.run_files call r.store.store)
    fun _ => ⟨rfl, fun _ => Or.inl rfl⟩

/-- A call keeps coherence if it is tame, and also if it fails. -/
theorem run_coherent (h : Coherent held sources r.memory) (call : Call) :
    (trialBackend.run call).Ensures r
      (fun _ r' => call.Tame held → Coherent held sources r'.memory)
      (fun _ r' => Coherent held sources r'.memory) := by
  refine (run_files call r).mono (fun a r' h₁ htame => ?_) (fun fault r' h₁ => ?_)
  · refine h.recede (fun name record hfound => ?_) fun s hs => h₁.2 s.image (htame.writes s hs)
    rw [h₁.1] at hfound
    cases call with
    | register added =>
      rw [Call.onRecords, Roster.find?_put] at hfound
      split at hfound
      · cases hfound
        exact htame.registers record rfl
      · exact h.known name record hfound
    | deregister gone =>
      rw [Call.onRecords, Roster.find?_erase] at hfound
      split at hfound
      · cases hfound
      · exact h.known name record hfound
    | _ => exact h.known name record hfound
  · refine h.recede (fun name record hfound => h.known name record ?_) fun s _ => h₁.2 s.image
    rwa [h₁.1] at hfound

/-- A call that neither adds a record nor writes an image keeps coherence. -/
theorem run_other_coherent (h : Coherent held sources r.memory) (call : Call)
    (hregister : ∀ record, call ≠ .register record)
    (hpersist : ∀ c image, call ≠ .persist c image) :
    (trialBackend.run call).Ensures r (fun _ r' => Coherent held sources r'.memory)
      (fun _ r' => Coherent held sources r'.memory) :=
  (run_coherent h call).mono (fun _ _ h₁ => h₁ (Call.Tame.of_other hregister hpersist))
    (fun _ _ h₁ => h₁)

/-- The text that is read is that of the file in the image. -/
theorem fileText_found (s : Snapshot) (path : String) :
    (trialBackend.fileText s path).Ensures r
      (fun text r' => (r'.memory.imageFiles s.image).lookup path = some text)
      (fun _ _ => True) := by
  have hread : (MemoryStore.backend.run (.fileText s path)).Ensures r.store.store
      (fun text m' => (m'.imageFiles s.image).lookup path = some text) (fun _ _ => True) := by
    refine (MemoryStore.fileText_ensures s path).mono ?_ (fun _ _ _ => trivial)
    rintro _ _ ⟨htext, log, rfl⟩
    exact htext
  change (trialBackend.run (.fileText s path)).Ensures r _ _
  unfold trialBackend
  rw [Backend.recorded_ensures]
  exact Backend.disturbed_ensures hread fun _ => trivial

end Trial

/-! ## What operations keep -/

/-- No record held has the name or the image of the mutant. -/
def FreshFor (held : List Snapshot) (u : MutantId) : Prop :=
  ∀ r ∈ held, r.name ≠ u.snapshotName ∧ r.image ≠ u.imageName

instance (held : List Snapshot) (u : MutantId) : Decidable (FreshFor held u) :=
  inferInstanceAs (Decidable (∀ r ∈ held, _))

/-- The session is coherent, and no id was drawn since the next one had the given number. -/
structure ReadSoFar (held : List Snapshot) (next : Nat) (t : Session Trial) : Prop where
  nextId : t.nextId = next
  coherent : Coherent held t.sources t.store.memory

/-- If an id that was drawn is fresh, the session is coherent with the records of before and those
that are there now. -/
def Settles (kit : Toolkit) (held : List Snapshot) (t t' : Session Trial) : Prop :=
  (t'.nextId ≠ t.nextId → FreshFor held (kit.nextMutant t)) →
    Coherent (held ++ t'.store.memory.records) t'.sources t'.store.memory

theorem Settles.of_coherent {kit : Toolkit} {held : List Snapshot} {t t' : Session Trial}
    (h : Coherent held t'.sources t'.store.memory) : Settles kit held t t' :=
  fun _ => h.settle

namespace Installation

variable {kit : Toolkit} {held : List Snapshot} {t : Session Trial}
  {next : Nat} {r : Trial} {sources : SourceCache}

/-- Reading through a record that is held keeps the cache coherent. -/
theorem reading_coherent :
    (onTrial kit).ReadingKeeps (Stands held) (ReadSoFar held next) where
  lookup name t₁ h₁ := by
    rw [snapshot_ensures]
    have hkeeps := Trial.run_other_coherent h₁.coherent (.lookup name) nofun nofun
    have hfound := Trial.lookup_found (u := .ofNumber next) (r := t₁.store) name
    refine (hfound.and hkeeps).mono (fun s r' h₂ => ?_) (fun _ _ h₂ => ⟨h₁.nextId, h₂.2⟩)
    exact ⟨.of_mem (h₁.coherent.known name s h₂.1.1), h₁.nextId, h₂.2⟩
  read s path t₁ hs h₁ := by
    refine Session.readSource_ensures (fun _ _ => h₁) fun _ => ?_
    have hkeeps := Trial.run_other_coherent h₁.coherent (.fileText s path) nofun nofun
    refine ((Trial.fileText_found s path).and hkeeps).mono (fun text r' h₂ => ?_)
      (fun _ _ h₂ => ⟨h₁.nextId, h₂.2⟩)
    exact ⟨h₁.nextId, h₂.2.add hs h₂.1⟩

/-- Building writes no image but the one that it is told to. -/
theorem buildImage_coherent {s : Snapshot} {diff image : String}
    (h : Coherent held sources r.memory) (himage : ∀ r ∈ held, r.image ≠ image) :
    ((onTrial kit).buildImage s diff image).Ensures r
      (fun _ r' => Coherent held sources r'.memory)
      (fun _ r' => Coherent held sources r'.memory) := by
  refine buildImage_ensures ?_
  refine (Trial.run_other_coherent h (.provision s) nofun nofun).mono (fun c r₁ h₁ => ?_)
    (fun _ _ h₁ => h₁)
  have hdestroy (r₂ : Trial) (h₂ : Coherent held sources r₂.memory) :=
    Trial.run_other_coherent h₂ (.destroy c) nofun nofun
  have hbuild : ((onTrial kit).buildIn c diff image).Ensures r₁
      (fun _ r₂ => Coherent held sources r₂.memory)
      (fun _ r₂ => Coherent held sources r₂.memory) := by
    refine buildIn_ensures ?_
    refine (Trial.run_other_coherent h₁ (.applyPatch c diff) nofun nofun).mono (fun _ r₂ h₂ => ?_)
      (fun _ _ h₂ => h₂)
    refine (Trial.run_other_coherent h₂ (.build c) nofun nofun).mono (fun outcome r₃ h₃ => ?_)
      (fun _ _ h₃ => h₃)
    cases outcome with
    | failure output => exact h₃
    | success =>
      refine (Trial.run_coherent h₃ (.persist c image)).mono (fun _ _ h₄ => h₄ ?_)
        (fun _ _ h₄ => h₄)
      exact ⟨nofun, fun s hs hwrites => himage s hs hwrites.symm⟩
  exact hbuild.mono (fun _ r₂ h₂ => hdestroy r₂ h₂) (fun _ r₂ h₂ => hdestroy r₂ h₂)

/-- A record with a new name is held once it was added. -/
theorem addRecord_coherent {d : Snapshot} (h : Coherent held sources r.memory)
    (hd : ∀ r ∈ held, r.name ≠ d.name) :
    ((onTrial kit).addRecord d).Ensures r
      (fun _ r' => Coherent (held ++ r'.memory.records) sources r'.memory)
      (fun _ r' => Coherent held sources r'.memory) := by
  refine addRecord_ensures ?_
  have hadded := (Trial.run_files (.register d) r).and
    (Trial.run_coherent (h.extend hd) (.register d))
  refine (hadded.and (Trial.run_coherent h (.register d))).mono (fun _ r₁ h₁ => ?_)
    (fun _ r₁ h₁ => ?_)
  · have hheld : Coherent (d :: held) sources r₁.memory := by
      refine h₁.1.2 ⟨fun record hrecord => ?_, fun _ _ => id⟩
      cases hrecord
      exact List.mem_cons_self
    have hrecord : d ∈ r₁.memory.records := by
      rw [MemoryStore.mem_records, h₁.1.1.1, Call.onRecords, Roster.find?_put, if_pos rfl]
    refine hheld.congr fun s => ?_
    rw [List.mem_append, List.mem_cons]
    constructor
    · rintro (hs | hs)
      · exact Or.inr hs
      · exact List.mem_cons.mp (hheld.mem_of_records hs)
    · rintro (rfl | hs)
      · exact Or.inr hrecord
      · exact Or.inl hs
  · exact Trial.run_other_coherent h₁.2 (.deleteImage d.image) nofun nofun

/-- Generating a mutant keeps the cache coherent, with one more record held. -/
theorem generate_settles {s : Snapshot} {ms : List Mutation} (hs : Stands held s)
    (h : Coherent held t.sources t.store.memory) :
    ((onTrial kit).generate s ms).Ensures t (fun _ t' => Settles kit held t t')
      (fun _ t' => Settles kit held t t') := by
  refine generate_ensures (fun _ => .of_coherent h) (fun _ => .of_coherent h) fun _ _ => ?_
  have hdiff : ((onTrial kit).diffOf s ms).Ensures t.drawn
      (fun _ t₁ => ReadSoFar held (t.nextId + 1) t₁)
      (fun _ t₁ => ReadSoFar held (t.nextId + 1) t₁) :=
    diffOf_ensures (fun path t₁ h₁ => reading_coherent.read s path t₁ hs h₁) ⟨rfl, h⟩
  refine hdiff.mono (fun diff t₁ h₁ => ?_) (fun _ t₁ h₁ => .of_coherent h₁.coherent)
  by_cases hfresh : FreshFor held (kit.nextMutant t)
  · refine (buildImage_coherent h₁.coherent fun r hr => (hfresh r hr).2).mono (fun _ r₁ h₂ => ?_)
      (fun _ r₁ h₂ => .of_coherent h₂)
    exact (addRecord_coherent h₂ fun r hr => (hfresh r hr).1).mono (fun _ _ h₃ _ => h₃)
      (fun _ _ h₃ => .of_coherent h₃)
  · -- An id that is not fresh was drawn, so there is nothing to show.
    have hdrawn : ∀ t' : Session Trial, t'.nextId = t₁.nextId → Settles kit held t t' :=
      fun t' hnext hdraws => absurd (hdraws (by rw [hnext, h₁.nextId]; omega)) hfresh
    refine Action.ensures_of_forall (fun _ r₁ => ?_) (fun _ r₁ => hdrawn _ rfl)
    exact Action.ensures_of_forall (fun _ r₂ => hdrawn _ rfl) (fun _ r₂ => hdrawn _ rfl)

theorem release_coherent (h : Coherent held sources r.memory) (m : Mutant) :
    ((onTrial kit).release m).Ensures r
      (fun _ r' => Coherent held sources r'.memory)
      (fun _ r' => Coherent held sources r'.memory) :=
  release_ensures (Trial.run_other_coherent h (.deregister m.id.snapshotName) nofun nofun)
    fun _ h₁ => Trial.run_other_coherent h₁ (.deleteImage m.id.imageName) nofun nofun

/-- Discarding what was kept of a mutant keeps the cache coherent. -/
theorem discardKept_coherent (h : Coherent held sources r.memory) (id : MutantId) :
    ((onTrial kit).discardKept id).Ensures r
      (fun _ r' => Coherent held sources r'.memory)
      (fun _ r' => Coherent held sources r'.memory) := by
  refine discardKept_ensures ?_
  refine (Trial.run_other_coherent h (.lookup id.snapshotName) nofun nofun).mono
    (fun record r₁ h₁ => ?_) (fun _ _ h₁ _ => h₁)
  refine (Trial.run_other_coherent h₁ (.deregister id.snapshotName) nofun nofun).mono
    (fun _ r₂ h₂ => ?_) (fun _ _ h₂ => h₂)
  exact Trial.run_other_coherent h₂ (.deleteImage record.image) nofun nofun

theorem remove_coherent (h : Coherent held t.sources t.store.memory) (id : MutantId) :
    ((onTrial kit).remove id).Ensures t
      (fun _ t' => Coherent held t'.sources t'.store.memory)
      (fun _ t' => Coherent held t'.sources t'.store.memory) :=
  remove_ensures (fun _ _ => h) fun m _ => release_coherent h m

end Installation

/-- The snapshot that an operation is given. -/
def Operation.given? : Operation → Option Snapshot
  | findMutations s _ _ => some s
  | _ => none

namespace Installation

variable {kit : Toolkit} {held : List Snapshot} {t : Session Trial}

theorem settles_of_reading {α : Type} {act : Action (Session Trial) α}
    (h : act.Ensures t (fun _ t' => ReadSoFar held t.nextId t')
      (fun _ t' => ReadSoFar held t.nextId t')) :
    (discard act >>= fun _ => pure none : Action (Session Trial) (Option RegistryEdit)).Ensures t
      (fun _ t' => Settles kit held t t') (fun _ t' => Settles kit held t t') := by
  rw [ensures_bind, Action.ensures_discard]
  exact h.mono (fun _ _ h₁ => .of_coherent h₁.coherent) (fun _ _ h₁ => .of_coherent h₁.coherent)

/-- Every operation keeps coherence, provided a snapshot that it is given stands for a record
held. -/
theorem perform_settles (op : Operation) (h : Coherent held t.sources t.store.memory)
    (hgiven : ∀ s ∈ op.given?, Stands held s) :
    ((onTrial kit).perform op).Ensures t (fun _ t' => Settles kit held t t')
      (fun _ t' => Settles kit held t t') := by
  have hreading : (onTrial kit).ReadingKeeps (Stands held) (ReadSoFar held t.nextId) :=
    reading_coherent
  have hread : ReadSoFar held t.nextId t := ⟨rfl, h⟩
  unfold perform
  cases op with
  | mutate name ms =>
    rw [ensures_bind]
    unfold mutate
    rw [ensures_bind]
    refine (hreading.lookup name t hread).mono (fun s t₁ h₁ => ?_)
      (fun _ _ h₁ => .of_coherent h₁.coherent)
    obtain ⟨hs, hnext, hcoherent⟩ := h₁
    refine (generate_settles hs hcoherent).mono (fun _ _ h₂ => ?_) (fun _ _ h₂ => ?_)
    · unfold Settles Toolkit.nextMutant at h₂
      rw [hnext] at h₂
      exact h₂
    · unfold Settles Toolkit.nextMutant at h₂
      rw [hnext] at h₂
      exact h₂
  | deleteMutant id =>
    refine ensures_bind.mpr (deleteMutant_ensures ?_)
    refine (remove_coherent h id).mono (fun m t₁ h₁ => ?_) (fun _ _ h₁ => .of_coherent h₁)
    exact .of_coherent (h₁.within (t₁.sources.forgetSnapshot_within _))
  | discardMutant id =>
    refine ensures_bind.mpr (discardMutant_ensures (fun _ => ?_) (fun _ => ?_) fun t₁
      (h₁ : Coherent held t₁.sources t₁.store.memory) =>
        .of_coherent (h₁.within (t₁.sources.forgetSnapshot_within _)))
    · exact (remove_coherent h id).mono (fun _ _ h₁ => h₁) (fun _ _ h₁ => .of_coherent h₁)
    · exact (discardKept_coherent h id).mono (fun _ _ h₁ => h₁) (fun _ _ h₁ => .of_coherent h₁)
  | clearMutants =>
    refine ensures_bind.mpr (clearMutants_ensures fun sources hwithin => ?_)
    have hreleases : (t.registry.forM (onTrial kit).release).Ensures t.store
        (fun _ r' => Coherent held sources r'.memory)
        (fun _ r' => Coherent held sources r'.memory) :=
      Action.ensures_forM (h.within hwithin) fun m _ _ h₁ => release_coherent h₁ m
    exact hreleases.mono (fun _ _ h₁ => .of_coherent h₁) (fun _ _ h₁ => .of_coherent h₁)
  | snapshot name => exact settles_of_reading (hreading.snapshot hread)
  | findMutations s path filter =>
    exact settles_of_reading (findMutations_ensures hreading (hgiven s rfl) hread)
  | mutations name path filter => exact settles_of_reading (mutations_ensures hreading hread)
  | replacements name ms => exact settles_of_reading (replacements_ensures hreading hread)
  | diff name ms => exact settles_of_reading (diff_ensures hreading hread)
  | mutant id =>
    refine settles_of_reading ?_
    unfold mutant
    rw [ensures_bind, Action.ensures_get]
    exact Action.ensures_ofExcept.mpr ⟨fun _ _ => hread, fun _ _ => hread⟩
  | mutants => exact .of_coherent h

/-- Every operation keeps the cache coherent, with at most one more record held. -/
theorem step_settles (op : Operation) (h : Coherent held t.sources t.store.memory)
    (hgiven : ∀ s ∈ op.given?, Stands held s) :
    Settles kit held t ((onTrial kit).step op t).1 := by
  have hsettles : ((onTrial kit).perform op).Ensures t (fun _ t' => Settles kit held t t')
      (fun _ t' => Settles kit held t t') := perform_settles op h hgiven
  refine hsettles.withOutcome.elim (fun _ t' h₁ => ?_) (fun _ t' h₁ => ?_)
  · rw [step, h₁.1]
    exact h₁.2
  · rw [step, h₁.1]
    exact h₁.2

end Installation

/-! ## What a run keeps -/

/-- What a run has to keep to. Whenever it draws an id, no record that was there until then has the
name or the image of it. And whenever an operation is given a snapshot, which only a search is, that
snapshot has the name and the image of a record that is there or was there earlier: the cache goes
by names alone, so that a text read from another image would be kept under the record's name. -/
def FreshSince (i : Installation Trial) (past : List Snapshot) :
    List Operation → Session Trial → Prop
  | [], _ => True
  | op :: ops, t =>
    let held := past ++ t.store.memory.records
    ((i.step op t).1.nextId ≠ t.nextId → FreshFor held (i.nextMutant t)) ∧
      (∀ s ∈ op.given?, Stands held s) ∧ FreshSince i held ops (i.step op t).1

instance decidableFreshSince (i : Installation Trial) :
    (past : List Snapshot) → (ops : List Operation) → (t : Session Trial) →
      Decidable (FreshSince i past ops t)
  | _, [], _ => isTrue trivial
  | past, op :: ops, t =>
    have := decidableFreshSince i (past ++ t.store.memory.records) ops (i.step op t).1
    inferInstanceAs (Decidable (_ ∧ _ ∧ _))

namespace Installation

variable {kit : Toolkit}

/-- A run keeps coherence, with ever more records held. -/
theorem run_coherent {ops : List Operation} {past : List Snapshot} {t : Session Trial}
    (h : Coherent (past ++ t.store.memory.records) t.sources t.store.memory)
    (hfresh : FreshSince (onTrial kit) past ops t) :
    ∃ held, Coherent held ((onTrial kit).run ops t).1.sources
      ((onTrial kit).run ops t).1.store.memory := by
  induction ops generalizing past t with
  | nil => exact ⟨_, h⟩
  | cons op ops ih => exact ih (step_settles op h hfresh.2.1 hfresh.1) hfresh.2.2

/-- Whatever the backend holds at first, whichever of its calls fail, and whatever operations are
carried out: if every id is fresh when it is drawn, and every snapshot that a search is given has
the name and the image of a record that the backend holds or has held in the run, then a text that
is cached for a snapshot and a path after the run is the one that reading the path gives now through
the record under the snapshot's name, whenever there is such a record and it can be read. -/
theorem cached_text_current (kit : Toolkit) (memory : MemoryStore)
    (plan : List (Option Fault)) (first : Nat) (ops : List Operation)
    (hfresh : FreshSince (onTrial kit) [] ops (opening memory plan [] first)) :
    let t := ((onTrial kit).run ops (opening memory plan [] first)).1
    ∀ name path text record failing text' m',
      t.sources.text? name path = some text →
      Roster.find? Snapshot.name name t.store.memory.snapshots = some record →
      MemoryStore.fileText record path { t.store.memory with failing := failing } = .ok text' m' →
        text' = text := by
  intro t name path text record failing text' m' htext hrecord hread
  have hopening : Coherent ([] ++ memory.records) [] memory := Coherent.opening memory
  obtain ⟨held, hcoherent⟩ := run_coherent hopening hfresh
  have hname : record.name = name := MemoryStore.name_of_find? hrecord
  have hfile := ((MemoryStore.fileText_ensures record path).of_ok hread).1
  exact hcoherent.agrees record (hcoherent.known name record hrecord) path text text'
    (hname ▸ htext) hfile

namespace CacheSample

def put : Mutation := ⟨"put", 0, ⟨"f", ⟨⟨1, 0⟩, ⟨1, 1⟩⟩⟩, .empty⟩

def second : Snapshot :=
  Snapshot.derive { name := "base", image := "image" } (MutantId.ofNumber 1).snapshotName
    (MutantId.ofNumber 1).imageName

/-- A mutant is deleted in vain, its file is read, and it is discarded but for its image, so that
the text stays cached. Then the file of a second mutant is read. -/
def ops : List Operation :=
  [.mutate "base" [put], .deleteMutant (.ofNumber 0),
    .diff (MutantId.ofNumber 0).snapshotName [put], .discardMutant (.ofNumber 0),
    .mutate "base" [put], .diff second.name [put],
    .findMutations { name := "base", image := "image" } "f" {}]

/-- The calls that fail: deleting the record and the image of the first mutant, and later deleting
the image again. -/
def plan : List (Option Fault) :=
  let fault := some (Fault.unexpected "down")
  List.replicate 8 none ++ [fault, fault] ++ List.replicate 4 none ++ [fault]

def final : Session Trial × List RegistryEdit :=
  (onTrial RunSample.tools).run ops (opening RunSample.memory plan [] 0)

theorem second_reads : (MemoryStore.fileText second "f").Ensures final.1.store.memory
    (fun _ _ => True) (fun _ _ => False) := by
  decide +kernel

end CacheSample

/-- After the sample run, the text cached for the second mutant is the one that is read. -/
theorem cached_text_current_sample :
    FreshSince (onTrial RunSample.tools) [] CacheSample.ops
        (opening RunSample.memory CacheSample.plan [] 0) ∧
      CacheSample.final.1.sources.map (·.text) = ["x\n", "y\n", "y\n"] ∧
      Roster.find? Snapshot.name CacheSample.second.name
        CacheSample.final.1.store.memory.snapshots = some CacheSample.second ∧
      ∃ m', MemoryStore.fileText CacheSample.second "f" CacheSample.final.1.store.memory =
        .ok "y\n" m' := by
  have hfresh : FreshSince (onTrial RunSample.tools) [] CacheSample.ops
      (opening RunSample.memory CacheSample.plan [] 0) := by decide +kernel
  have hsources : CacheSample.final.1.sources =
      [⟨"base", "f", "x\n"⟩, ⟨(MutantId.ofNumber 0).snapshotName, "f", "y\n"⟩,
        ⟨CacheSample.second.name, "f", "y\n"⟩] := by decide +kernel
  have hfound : Roster.find? Snapshot.name CacheSample.second.name
      CacheSample.final.1.store.memory.snapshots = some CacheSample.second := by decide +kernel
  obtain ⟨text, m', hread, -⟩ := CacheSample.second_reads.exists_ok
  have hcurrent :=
    cached_text_current RunSample.tools RunSample.memory CacheSample.plan 0 CacheSample.ops hfresh
  have hfinal : (onTrial RunSample.tools).run CacheSample.ops
      (opening RunSample.memory CacheSample.plan [] 0) = CacheSample.final := rfl
  rw [hfinal] at hcurrent
  dsimp only at hcurrent
  -- From here on the final state is not to be computed again.
  generalize CacheSample.final = final at *
  have hcached : final.1.sources.text? CacheSample.second.name "f" = some "y\n" := by
    rw [hsources]
    decide +kernel
  refine ⟨hfresh, by rw [hsources]; rfl, hfound, m', ?_⟩
  rw [hread, hcurrent _ _ _ _ _ _ m' hcached hfound hread]

namespace StraySample

def base : Snapshot := { name := "base", image := "image" }

def memory : MemoryStore where
  snapshots := [base]
  images := [⟨"image", [("f.c", "x\n")]⟩, ⟨"other", [("f.c", "y\n")]⟩]

def tools : Toolkit :=
  { catalogue := ⟨[⟨"c", .ofList [".c"]⟩], []⟩, matcher := fun _ _ => .ok [] }

/-- The only operation is a search through a snapshot with the name of the record and the image of
none. -/
def final : Session Trial :=
  ((onTrial tools).run [.findMutations { base with image := "other" } "f.c" {}]
    (opening memory [] [] 0)).1

end StraySample

/-- No call fails and no id is drawn, yet the text that is cached for the record is not the one that
reading through the record gives. -/
theorem cached_text_of_other_image :
    StraySample.final.nextId = 0 ∧
      StraySample.final.sources.text? "base" "f.c" = some "y\n" ∧
      Roster.find? Snapshot.name "base" StraySample.final.store.memory.snapshots =
        some StraySample.base ∧
      (MemoryStore.fileText StraySample.base "f.c").Ensures StraySample.final.store.memory
        (fun text _ => text = "x\n") (fun _ _ => False) := by
  decide +kernel

end Installation

end Mutagenesis
