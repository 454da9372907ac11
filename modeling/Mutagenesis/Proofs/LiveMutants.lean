import Mathlib.Data.List.Forall2
import Mathlib.Data.List.Nodup
import Mutagenesis.Proofs.MutantRuns

/-!
# The backend holds the live mutants and nothing else

On a backend in memory of which no call fails, making and deleting mutants compose exactly. `Holds`
says what such a backend holds between two operations, and each call has one law for it. A mutant is
live from its creation until it is deleted, discarded, or cleared while it is registered; `Tracks`
says that the backend holds what it held at first and then a record and an image for each live
mutant, in the order of creation. Every operation keeps this (`perform_tracks`), and so does every
turn of a chronicle, in which installations come and go on one backend (`Chronicle.Sound.run`).
-/

set_option autoImplicit false

namespace Mutagenesis

open Mutagenesis.Action (ensures_bind)

namespace MemoryStore

variable {s s' : MemoryStore} {opened : List String} {snapshots : List Snapshot}
  {images : List FileSet}

/-- No call fails. Builds may end in failure. -/
def Reliable (s : MemoryStore) : Prop :=
  ∀ call ∈ s.failing, call = "compile"

instance (s : MemoryStore) : Decidable s.Reliable :=
  inferInstanceAs (Decidable (∀ call ∈ s.failing, call = "compile"))

/-- What a reliable backend holds: records, images, and containers of no other names than those that
were opened. -/
structure Holds (s : MemoryStore) (opened : List String) (snapshots : List Snapshot)
    (images : List FileSet) : Prop where
  reliable : s.Reliable
  containers : ∀ c ∈ s.containers, c.name ∈ opened
  snapshots : s.snapshots = snapshots
  images : s.images = images

theorem Holds.withLog (h : s.Holds opened snapshots images) (log : List String) :
    (s.withLog log).Holds opened snapshots images :=
  ⟨h.reliable, h.containers, h.snapshots, h.images⟩

theorem Holds.no_container (h : s.Holds [] snapshots images) : s.containers = [] := by
  cases hcontainers : s.containers with
  | nil => rfl
  | cons c rest => exact absurd (h.containers c (by simp [hcontainers])) List.not_mem_nil

/-! ## Calls that do not fail -/

/-- On a reliable backend, what holds after the work of a call holds after the call. -/
theorem Reliable.entered {α : Type} {call : String} {about : List String}
    {rest : Action MemoryStore α} {done : α → MemoryStore → Prop}
    {failed : Fault → MemoryStore → Prop} (hs : s.Reliable) (hcall : call ≠ "compile")
    (h : ∀ log, rest.Ensures (s.withLog log) done failed) :
    (enter call about >>= fun _ => rest).Ensures s done failed := by
  rw [ensures_bind]
  have henter : enter call about s =
      .ok () (s.withLog (s.log ++ [" ".intercalate (call :: about)])) :=
    if_neg fun hmem => hcall (hs call hmem)
  unfold Action.Ensures
  rw [henter]
  exact h _

/-- Destroying an open container closes it. -/
theorem Holds.destroy {c : Container} (h : s.Holds (c.id :: opened) snapshots images) :
    (MemoryStore.destroy c).Ensures s (fun _ s' => s'.Holds opened snapshots images)
      (fun _ _ => False) := by
  refine h.reliable.entered (by decide) fun log => ?_
  refine ⟨h.reliable, fun f hf => ?_, h.snapshots, h.images⟩
  obtain ⟨hold, hname⟩ := List.mem_filter.mp hf
  exact (List.mem_cons.mp (h.containers f hold)).resolve_left (of_decide_eq_true hname)

/-- Registering puts the record among the others. -/
theorem Holds.register (record : Snapshot) (h : s.Holds opened snapshots images) :
    (MemoryStore.register record).Ensures s
      (fun _ s' => s'.Holds opened (Roster.put Snapshot.name record snapshots) images)
      (fun _ _ => False) := by
  refine h.reliable.entered (by decide) fun log => ?_
  exact ⟨h.reliable, h.containers, congrArg (Roster.put Snapshot.name record) h.snapshots,
    h.images⟩

/-- Removing a record fails only if there is none. -/
theorem Holds.deregister (name : String) (h : s.Holds opened snapshots images) :
    (MemoryStore.deregister name).Ensures s
      (fun _ s' => s'.Holds opened (Roster.erase Snapshot.name name snapshots) images)
      (fun _ s' => s'.Holds opened snapshots images ∧
        Roster.find? Snapshot.name name snapshots = none) := by
  refine h.reliable.entered (by decide) fun log => ?_
  rw [ensures_bind, Action.ensures_get]
  split
  · exact ⟨h.reliable, h.containers, congrArg (Roster.erase Snapshot.name name) h.snapshots,
      h.images⟩
  · next habsent =>
    refine ⟨h.withLog log, ?_⟩
    rw [Roster.has_eq_isSome_find?] at habsent
    rw [← (h.withLog log).snapshots]
    simpa using habsent

/-- Removing an image fails only if there is none. -/
theorem Holds.deleteImage (image : String) (h : s.Holds opened snapshots images) :
    (MemoryStore.deleteImage image).Ensures s
      (fun _ s' => s'.Holds opened snapshots (Roster.erase FileSet.name image images))
      (fun _ s' => s'.Holds opened snapshots images ∧
        Roster.find? FileSet.name image images = none) := by
  refine h.reliable.entered (by decide) fun log => ?_
  rw [ensures_bind, Action.ensures_get]
  split
  · exact ⟨h.reliable, h.containers, h.snapshots,
      congrArg (Roster.erase FileSet.name image) h.images⟩
  · next habsent =>
    refine ⟨h.withLog log, ?_⟩
    rw [Roster.has_eq_isSome_find?] at habsent
    rw [← (h.withLog log).images]
    simpa using habsent

end MemoryStore

variable {id : MutantId} {st : MemoryStore} {m : Mutant}

namespace Installation

variable {kit : Toolkit} {st : MemoryStore} {snapshots : List Snapshot}
  {images : List FileSet} {opened : List String} {s : Snapshot}

/-- An installation with the backend in memory. -/
def inMemory (kit : Toolkit) : Installation MemoryStore :=
  { kit with backend := MemoryStore.backend }

/-! ## What operations leave in a reliable backend -/

/-- Building in a container stores an image and leaves the container open, also when it fails. -/
theorem buildIn_holds {c : Container} {diff image : String}
    (h : st.Holds (c.id :: opened) snapshots images) :
    ((inMemory kit).buildIn c diff image).Ensures st
      (fun _ st' => ∃ files, st'.Holds (c.id :: opened) snapshots
        (Roster.put FileSet.name ⟨image, files⟩ images))
      (fun _ st' => st'.Holds (c.id :: opened) snapshots images) := by
  refine buildIn_ensures ?_
  refine (MemoryStore.applyPatch_ensures c diff).mono (fun _ st₁ h₁ => ?_) (fun _ st₁ h₁ => ?_)
  · obtain ⟨_, files, -, -, log, rfl⟩ := h₁
    have hpatched : ({ st.withLog log with
        containers := Roster.put FileSet.name ⟨c.id, files⟩ st.containers } : MemoryStore).Holds
          (c.id :: opened) snapshots images := by
      refine ⟨h.reliable, fun f hf => ?_, h.snapshots, h.images⟩
      rcases Roster.mem_put hf with rfl | hf
      · exact List.mem_cons_self
      · exact h.containers f hf
    refine (MemoryStore.build_ensures c).mono (fun outcome st₂ h₂ => ?_) (fun _ st₂ h₂ => ?_)
    · obtain ⟨log₂, rfl⟩ := h₂
      cases outcome with
      | failure output => exact hpatched.withLog log₂
      | success =>
        refine (MemoryStore.persist_ensures c image).mono (fun _ st₃ h₃ => ?_) (fun _ st₃ h₃ => ?_)
        · obtain ⟨log₃, rfl⟩ := h₃
          exact ⟨_, h.reliable, hpatched.containers, h.snapshots,
            congrArg (Roster.put FileSet.name _) h.images⟩
        · obtain ⟨log₃, rfl⟩ := h₃
          exact (hpatched.withLog log₂).withLog log₃
    · obtain ⟨log₂, rfl⟩ := h₂
      exact hpatched.withLog log₂
  · obtain ⟨log, rfl⟩ := h₁
    exact h.withLog log

/-- Building leaves an image or nothing, and no container of its own. -/
theorem buildImage_holds {diff image : String} (h : st.Holds opened snapshots images) :
    ((inMemory kit).buildImage s diff image).Ensures st
      (fun _ st' => ∃ files, st'.Holds opened snapshots
        (Roster.put FileSet.name ⟨image, files⟩ images))
      (fun _ st' => st'.Holds opened snapshots images) := by
  refine buildImage_ensures ?_
  refine (MemoryStore.provision_ensures s).mono (fun c st₁ h₁ => ?_) (fun _ st₁ h₁ => ?_)
  · obtain ⟨rfl, log, rfl⟩ := h₁
    have hopened : ({ st.withLog log with
        nextContainer := st.nextContainer + 1
        containers := st.containers ++ [⟨st.nextName, st.imageFiles s.image⟩] } : MemoryStore).Holds
          (st.nextName :: opened) snapshots images := by
      refine ⟨h.reliable, fun f hf => ?_, h.snapshots, h.images⟩
      rcases List.mem_append.mp hf with hf | hf
      · exact List.mem_cons_of_mem _ (h.containers f hf)
      · exact List.mem_singleton.mp hf ▸ List.mem_cons_self
    refine Action.Ensures.mono (buildIn_holds hopened) (fun _ st₂ h₂ => ?_) (fun _ st₂ h₂ => ?_)
    · obtain ⟨files, h₂⟩ := h₂
      exact h₂.destroy.mono (fun _ _ h₃ => ⟨files, h₃⟩) (fun _ _ h₃ => h₃.elim)
    · exact h₂.destroy.mono (fun _ _ h₃ => h₃) (fun _ _ h₃ => h₃.elim)
  · obtain ⟨log, rfl⟩ := h₁
    exact h.withLog log

/-- Adding a record cannot fail here, and puts it among the others. -/
theorem addRecord_holds {record : Snapshot} (h : st.Holds opened snapshots images) :
    ((inMemory kit).addRecord record).Ensures st
      (fun _ st' => st'.Holds opened (Roster.put Snapshot.name record snapshots) images)
      (fun _ _ => False) :=
  addRecord_ensures ((h.register record).mono (fun _ _ h₁ => h₁) (fun _ _ h₁ => h₁.elim))

/-- Releasing a mutant erases its names, whether something stands under them or not. -/
theorem release_holds (h : st.Holds opened snapshots images) :
    ((inMemory kit).release m).Ensures st
      (fun _ st' => st'.Holds opened (Roster.erase Snapshot.name m.id.snapshotName snapshots)
        (Roster.erase FileSet.name m.id.imageName images))
      (fun _ _ => False) := by
  have hrecord : (MemoryStore.backend.deregister m.id.snapshotName).Ensures st
      (fun _ st₁ => st₁.Holds opened (Roster.erase Snapshot.name m.id.snapshotName snapshots)
        images)
      (fun _ st₁ => st₁.Holds opened (Roster.erase Snapshot.name m.id.snapshotName snapshots)
        images) := by
    refine (h.deregister m.id.snapshotName).mono (fun _ _ h₁ => h₁) (fun _ _ h₁ => ?_)
    rw [Roster.erase_of_absent h₁.2]
    exact h₁.1
  refine release_ensures hrecord fun st₁ h₁ => ?_
  refine (h₁.deleteImage m.id.imageName).mono (fun _ _ h₂ => h₂) (fun _ _ h₂ => ?_)
  rw [Roster.erase_of_absent h₂.2]
  exact h₂.1

end Installation

/-! ## Live mutants -/

/-- A mutant that was made and is still there. -/
structure LiveMutant where
  mutant : Mutant
  /-- The record of the snapshot it was made from, as it was found then. -/
  base : Option Snapshot
  /-- It was made by the installation that is at work. -/
  registered : Bool
  deriving DecidableEq, Repr

namespace LiveMutant

/-- The record of a live mutant is that of the snapshot it was made from, with its own name and its
own image. -/
def Recorded (l : LiveMutant) (record : Snapshot) : Prop :=
  ∃ base, l.base = some base ∧
    record = { base with name := l.mutant.id.snapshotName, image := l.mutant.id.imageName }

/-- The image of a live mutant has its name. -/
def Imaged (l : LiveMutant) (image : FileSet) : Prop :=
  image.name = l.mutant.id.imageName

/-- The live mutants after a change to the registered ones, if `records` were there before it. -/
def after (records : List Snapshot) (live : List LiveMutant) :
    Option RegistryEdit → List LiveMutant
  | none => live
  | some (.created m) => live ++ [⟨m, Roster.find? Snapshot.name m.base records, true⟩]
  | some (.removed id) => live.filter (·.mutant.id ≠ id)
  | some .cleared => live.filter (!·.registered)

/-- The live mutants once their installation has ended. -/
def left (live : List LiveMutant) : List LiveMutant :=
  live.map fun l => { l with registered := false }

end LiveMutant

namespace MemoryStore

/-- The backend holds what it held at first, and a record and an image for each live mutant. -/
def HoldsLive (initial : MemoryStore) (live : List LiveMutant) (s : MemoryStore) : Prop :=
  ∃ records images, s.Holds (initial.containers.map (·.name)) (initial.snapshots ++ records)
      (initial.images ++ images) ∧
    List.Forall₂ LiveMutant.Recorded live records ∧ List.Forall₂ LiveMutant.Imaged live images

variable {initial s : MemoryStore} {live : List LiveMutant} {u : MutantId}
  {records : List Snapshot} {images : List FileSet}

theorem Unused.find?_record (h : initial.Unused u) :
    Roster.find? Snapshot.name u.snapshotName initial.snapshots = none :=
  h.gone.1

theorem Unused.find?_image (h : initial.Unused u) :
    Roster.find? FileSet.name u.imageName initial.images = none := by
  have himage := h.2
  rw [hasImage, Roster.has_eq_isSome_find?] at himage
  simpa using himage

/-- What was there at first does not use an id that nothing uses now. -/
theorem HoldsLive.unused_initial (h : initial.HoldsLive live s) (hu : s.Unused u) :
    initial.Unused u := by
  obtain ⟨records, images, hholds, -, -⟩ := h
  refine ⟨fun record hrecord => hu.1 record ?_, ?_⟩
  · rw [hholds.snapshots]
    exact List.mem_append_left _ hrecord
  · have himage := hu.2
    rw [hasImage, hholds.images, Roster.has, List.any_append, Bool.or_eq_false_iff] at himage
    exact himage.1

/-- An id that nothing uses is not that of a live mutant. -/
theorem HoldsLive.fresh (h : initial.HoldsLive live s) (hu : s.Unused u) :
    u ∉ live.map (·.mutant.id) := by
  obtain ⟨records, images, hholds, hrecords, -⟩ := h
  intro hmem
  obtain ⟨l, hl, rfl⟩ := List.mem_map.mp hmem
  obtain ⟨record, hrecord, base, -, hbase⟩ := exists_of_mem_right hrecords.flip hl
  have hmem : record ∈ s.snapshots := by
    rw [hholds.snapshots]
    exact List.mem_append_right _ hrecord
  exact (hu.1 record hmem).1 (by rw [hbase])

/-- Erasing the record of a mutant whose id was unused at first leaves what was there at first. -/
theorem Unused.erase_record (h : initial.Unused u) :
    Roster.erase Snapshot.name u.snapshotName (initial.snapshots ++ records) =
      initial.snapshots ++ Roster.erase Snapshot.name u.snapshotName records := by
  unfold Roster.erase
  rw [List.filter_append]
  exact congrArg (· ++ _) (Roster.erase_of_absent h.find?_record)

/-- Deleting the image of an id that is unused at first keeps the images that were there at
first. -/
theorem Unused.erase_image (h : initial.Unused u) :
    Roster.erase FileSet.name u.imageName (initial.images ++ images) =
      initial.images ++ Roster.erase FileSet.name u.imageName images := by
  unfold Roster.erase
  rw [List.filter_append]
  exact congrArg (· ++ _) (Roster.erase_of_absent h.find?_image)

/-- The records that stay are those of the live mutants that stay. -/
theorem recorded_erase (h : List.Forall₂ LiveMutant.Recorded live records) :
    List.Forall₂ LiveMutant.Recorded (live.filter (·.mutant.id ≠ u))
      (Roster.erase Snapshot.name u.snapshotName records) := by
  refine List.rel_filter (fun l record hrecorded => ?_) h
  obtain ⟨base, -, rfl⟩ := hrecorded
  simp

/-- Removing an image removes its mutant from those that have images. -/
theorem imaged_erase (h : List.Forall₂ LiveMutant.Imaged live images) :
    List.Forall₂ LiveMutant.Imaged (live.filter (·.mutant.id ≠ u))
      (Roster.erase FileSet.name u.imageName images) := by
  refine List.rel_filter (fun l image himaged => ?_) h
  rw [LiveMutant.Imaged] at himaged
  simp [himaged]

end MemoryStore

/-- The backend holds the live mutants, whose ids are different and were unused at first, and the
registry lists those that the installation at work has made. -/
structure Tracks (initial : MemoryStore) (live : List LiveMutant) (t : Session MemoryStore) :
    Prop where
  store : initial.HoldsLive live t.store
  registry : t.registry = (live.filter (·.registered)).map (·.mutant)
  distinct : (live.map (·.mutant.id)).Nodup
  unused : ∀ l ∈ live, initial.Unused l.mutant.id

/-- Only sources were read since. -/
def ReadFrom (t t' : Session MemoryStore) : Prop :=
  ∃ log sources, t' = { t with store := t.store.withLog log, sources := sources }

section

variable {initial : MemoryStore} {live : List LiveMutant} {t t' : Session MemoryStore}

theorem MemoryStore.HoldsLive.withLog {s : MemoryStore} (h : initial.HoldsLive live s)
    (log : List String) : initial.HoldsLive live (s.withLog log) := by
  obtain ⟨records, images, hholds, hrecords, himages⟩ := h
  exact ⟨records, images, hholds.withLog log, hrecords, himages⟩

/-- At first no mutant is live. -/
theorem tracks_nil (hreliable : t.store.Reliable) (hregistry : t.registry = []) :
    Tracks t.store [] t where
  store := ⟨[], [], ⟨hreliable, fun _ hc => List.mem_map_of_mem hc, (List.append_nil _).symm,
    (List.append_nil _).symm⟩, .nil, .nil⟩
  registry := hregistry
  distinct := List.nodup_nil
  unused _ hl := absurd hl List.not_mem_nil

theorem ReadFrom.refl (t : Session MemoryStore) : ReadFrom t t :=
  ⟨t.store.log, t.sources, rfl⟩

/-- Reading keeps track of the live mutants. -/
theorem Tracks.read (h : Tracks initial live t) (hread : ReadFrom t t') :
    Tracks initial live t' := by
  obtain ⟨log, sources, rfl⟩ := hread
  exact ⟨h.store.withLog log, h.registry, h.distinct, h.unused⟩

/-- A mutant with an unused id is live once it has its image, its record and its entry in the
registry. -/
theorem Tracks.created {base : Snapshot} {files : Files} (h : Tracks initial live t)
    (hunused : t.store.Unused m.id)
    (hbase : Roster.find? Snapshot.name m.base t.store.snapshots = some base)
    (hst : st.Holds (initial.containers.map (·.name))
      (Roster.put Snapshot.name (base.derive m.id.snapshotName m.id.imageName) t.store.snapshots)
      (Roster.put FileSet.name ⟨m.id.imageName, files⟩ t.store.images)) (hstore : t'.store = st)
    (hregistry : t'.registry = t.registry ++ [m]) :
    Tracks initial (LiveMutant.after t.store.snapshots live (some (.created m))) t' := by
  have hinitial : initial.Unused m.id := h.store.unused_initial hunused
  have hfresh : m.id ∉ live.map (·.mutant.id) := h.store.fresh hunused
  obtain ⟨records, images, hholds, hrecords, himages⟩ := h.store
  rw [LiveMutant.after, hbase]
  refine ⟨⟨records ++ [base.derive m.id.snapshotName m.id.imageName],
    images ++ [⟨m.id.imageName, files⟩], ?_, ?_, ?_⟩, ?_, ?_, ?_⟩
  · rw [Roster.put_of_absent hunused.find?_record, Roster.put_of_absent hunused.find?_image,
      hholds.snapshots, hholds.images, List.append_assoc, List.append_assoc] at hst
    rw [hstore]
    exact hst
  · exact List.rel_append hrecords (.cons ⟨base, rfl, rfl⟩ .nil)
  · exact List.rel_append himages (.cons rfl .nil)
  · rw [hregistry, h.registry]
    simp
  · rw [List.map_append, List.nodup_append]
    refine ⟨h.distinct, by simp, fun u hu v hv => ?_⟩
    rintro rfl
    rw [List.map_singleton, List.mem_singleton] at hv
    exact hfresh (hv ▸ hu)
  · intro l hl
    rcases List.mem_append.mp hl with hl | hl
    · exact h.unused l hl
    · rw [List.mem_singleton.mp hl]
      exact hinitial

/-- A mutant that is no longer held and no longer registered is not live. -/
theorem Tracks.removed {u : MutantId} (h : Tracks initial live t)
    (hstore : initial.HoldsLive (live.filter (·.mutant.id ≠ u)) t'.store)
    (hregistry : t'.registry = t.registry.filter (·.id ≠ u)) :
    Tracks initial (LiveMutant.after t.store.snapshots live (some (.removed u))) t' := by
  refine ⟨hstore, ?_, ?_, fun l hl => h.unused l (List.mem_filter.mp hl).1⟩
  · rw [hregistry, h.registry, List.filter_map, LiveMutant.after, List.filter_filter,
      List.filter_filter]
    refine congrArg _ (List.filter_congr fun l _ => ?_)
    rw [Bool.and_comm]
    rfl
  · exact h.distinct.sublist (List.filter_sublist.map _)

theorem Tracks.unused_registered (h : Tracks initial live t) (hm : m ∈ t.registry) :
    initial.Unused m.id := by
  rw [h.registry] at hm
  obtain ⟨l, hl, rfl⟩ := List.mem_map.mp hm
  exact h.unused l (List.mem_filter.mp hl).1

/-- The live mutants that are not registered are those whose ids are not registered. -/
theorem Tracks.filter_cleared (h : Tracks initial live t) :
    live.filter (·.mutant.id ∉ t.registry.map (·.id)) = live.filter (!·.registered) := by
  refine List.filter_congr fun l hl => ?_
  rw [Bool.eq_iff_iff, decide_eq_true_eq, Bool.not_eq_true', Bool.eq_false_iff]
  refine not_congr ⟨fun hmem => ?_, fun hregistered => ?_⟩
  · rw [h.registry, List.map_map] at hmem
    obtain ⟨l', hl', hid⟩ := List.mem_map.mp hmem
    obtain ⟨hl', hregistered⟩ := List.mem_filter.mp hl'
    rwa [List.inj_on_of_nodup_map h.distinct hl' hl hid] at hregistered
  · rw [h.registry]
    exact List.mem_map_of_mem (List.mem_map_of_mem (List.mem_filter.mpr ⟨hl, hregistered⟩))

end

/-- A mutant that is found is registered. -/
theorem Registry.mem_of_get {registry : Registry} (h : registry.get id = .ok m) : m ∈ registry := by
  unfold get at h
  split at h
  · next found hfound =>
    cases h
    exact List.mem_of_find?_eq_some hfound
  · cases h

namespace Installation

variable {kit : Toolkit} {initial : MemoryStore}
  {live : List LiveMutant} {t : Session MemoryStore} {s : Snapshot}

/-- All that reads leaves the session as it was, but for the cache and the log. -/
theorem reading_from (t : Session MemoryStore) :
    (inMemory kit).ReadingKeeps (fun _ => True) (ReadFrom t) where
  lookup name t₁ h₁ := by
    obtain ⟨log, sources, rfl⟩ := h₁
    rw [snapshot_ensures]
    refine (MemoryStore.lookup_ensures name).mono (fun _ st h₂ => ?_) (fun _ st h₂ => ?_)
    · obtain ⟨-, log₂, rfl⟩ := h₂
      exact ⟨trivial, log₂, sources, rfl⟩
    · obtain ⟨log₂, rfl⟩ := h₂
      exact ⟨log₂, sources, rfl⟩
  read s path t₁ _ h₁ := by
    refine Session.readSource_ensures (fun _ _ => h₁) fun _ => ?_
    obtain ⟨log, sources, rfl⟩ := h₁
    refine (MemoryStore.fileText_ensures s path).mono (fun text st h₂ => ?_) (fun _ st h₂ => ?_)
    · obtain ⟨-, log₂, rfl⟩ := h₂
      exact ⟨log₂, _, rfl⟩
    · obtain ⟨log₂, rfl⟩ := h₂
      exact ⟨log₂, sources, rfl⟩

/-- A mutant is made and live, if the id that is drawn for it is unused; or nothing is left. -/
theorem generate_tracks {ms : List Mutation} (h : Tracks initial live t)
    (hbase : Roster.find? Snapshot.name s.name t.store.snapshots = some s) :
    ((inMemory kit).generate s ms).Ensures t
      (fun m t' => (t'.nextId ≠ t.nextId → t.store.Unused (kit.nextMutant t)) →
        Tracks initial (LiveMutant.after t.store.snapshots live (some (.created m))) t')
      (fun _ t' => Tracks initial live t') := by
  have hdrawn : Tracks initial live t.drawn := ⟨h.store, h.registry, h.distinct, h.unused⟩
  refine generate_ensures (fun _ => h) (fun _ => hdrawn) fun _ _ => ?_
  have hdiff : ((inMemory kit).diffOf s ms).Ensures t.drawn
      (fun _ t₁ => ReadFrom t.drawn t₁) (fun _ t₁ => ReadFrom t.drawn t₁) :=
    diffOf_ensures (fun path t₁ h₁ => (reading_from t.drawn).read s path t₁ trivial h₁)
      (ReadFrom.refl t.drawn)
  refine hdiff.mono (fun diff t₁ h₁ => ?_) (fun _ t₁ h₁ => hdrawn.read h₁)
  have htracks : Tracks initial live t₁ := hdrawn.read h₁
  obtain ⟨log, sources, rfl⟩ := h₁
  obtain ⟨records, images, hholds, hrecords, himages⟩ := htracks.store
  refine (buildImage_holds hholds).mono (fun _ st₁ h₂ => ?_) (fun _ st₁ h₂ => ?_)
  · obtain ⟨files, h₂⟩ := h₂
    refine (addRecord_holds h₂).mono (fun _ st₂ h₃ hfresh => ?_) (fun _ _ h₃ => h₃.elim)
    have hunused : t.store.Unused (kit.nextMutant t) := hfresh (Nat.succ_ne_self t.nextId)
    rw [← hholds.snapshots, ← hholds.images] at h₃
    exact h.created (m := ⟨kit.nextMutant t, s.name, ms⟩) hunused hbase h₃ rfl rfl
  · exact ⟨⟨records, images, h₂, hrecords, himages⟩, h.registry, h.distinct, h.unused⟩

/-- Mutating adds the mutant that is created, and nothing if it fails. -/
theorem mutate_tracks {name : String} {ms : List Mutation} (h : Tracks initial live t) :
    ((inMemory kit).mutate name ms).Ensures t
      (fun m t' => (t'.nextId ≠ t.nextId → t.store.Unused (kit.nextMutant t)) →
        Tracks initial (LiveMutant.after t.store.snapshots live (some (.created m))) t')
      (fun _ t' => Tracks initial live t') := by
  unfold mutate
  rw [ensures_bind, snapshot_ensures]
  refine (MemoryStore.lookup_ensures name).mono (fun s st h₁ => ?_) (fun _ st h₁ => ?_)
  · obtain ⟨hfound, log, rfl⟩ := h₁
    have hname : s.name = name := by simpa using List.find?_some hfound
    have hread : Tracks initial live { t with store := t.store.withLog log } :=
      h.read ⟨log, t.sources, rfl⟩
    exact generate_tracks hread (hname ▸ hfound)
  · obtain ⟨log, rfl⟩ := h₁
    exact h.read ⟨log, t.sources, rfl⟩

/-- Releasing a mutant leaves the other live ones. -/
theorem release_live (h : initial.HoldsLive live st) (hunused : initial.Unused m.id) :
    ((inMemory kit).release m).Ensures st
      (fun _ st' => initial.HoldsLive (live.filter (·.mutant.id ≠ m.id)) st')
      (fun _ _ => False) := by
  obtain ⟨records, images, hholds, hrecords, himages⟩ := h
  refine (release_holds hholds).mono (fun _ st' h₁ => ?_) (fun _ _ h₁ => h₁)
  rw [hunused.erase_record, hunused.erase_image] at h₁
  exact ⟨_, _, h₁, MemoryStore.recorded_erase hrecords, MemoryStore.imaged_erase himages⟩

/-- Releasing mutants ends their lives and no others. -/
theorem releases_live {ms : List Mutant} (h : initial.HoldsLive live st)
    (hunused : ∀ m ∈ ms, initial.Unused m.id) :
    (ms.forM (inMemory kit).release).Ensures st
      (fun _ st' => initial.HoldsLive (live.filter (·.mutant.id ∉ ms.map (·.id))) st')
      (fun _ _ => False) := by
  induction ms generalizing live st with
  | nil => simpa using h
  | cons m rest ih =>
    change ((inMemory kit).release m >>= fun _ =>
      rest.forM (inMemory kit).release).Ensures st _ _
    rw [ensures_bind]
    refine (release_live h (hunused m (by simp))).mono (fun _ st₁ h₁ => ?_) (fun _ _ h₁ => h₁)
    refine (ih h₁ fun m' hm' => hunused m' (by simp [hm'])).mono (fun _ st₂ h₂ => ?_)
      (fun _ _ h₂ => h₂)
    rw [List.filter_filter] at h₂
    have hboth : live.filter (·.mutant.id ∉ (m :: rest).map (·.id)) =
        live.filter fun l =>
          decide (l.mutant.id ∉ rest.map (·.id)) && decide (l.mutant.id ≠ m.id) :=
      List.filter_congr fun l _ => by simp [Bool.and_comm]
    rw [hboth]
    exact h₂

/-- Removing a mutant from the registry ends its life. -/
theorem remove_tracks (h : Tracks initial live t) :
    ((inMemory kit).remove id).Ensures t
      (fun m t' => m.id = id ∧
        Tracks initial (LiveMutant.after t.store.snapshots live (some (.removed id))) t')
      (fun _ t' => Tracks initial live t') := by
  refine remove_ensures (fun _ _ => h) fun m hget => ?_
  have hid : m.id = id := Registry.id_of_get hget
  have hunused : initial.Unused m.id := h.unused_registered (Registry.mem_of_get hget)
  refine (release_live h.store hunused).mono (fun _ st h₁ => ⟨hid, ?_⟩) (fun _ _ h₁ => h₁.elim)
  rw [hid] at h₁
  exact h.removed h₁ rfl

/-- Deleting a mutant ends its life. -/
theorem deleteMutant_tracks (h : Tracks initial live t) :
    ((inMemory kit).deleteMutant id).Ensures t
      (fun m t' =>
        Tracks initial (LiveMutant.after t.store.snapshots live (some (.removed m.id))) t')
      (fun _ t' => Tracks initial live t') := by
  refine deleteMutant_ensures ((remove_tracks h).mono (fun m t₁ h₁ => ?_) (fun _ _ h₁ => h₁))
  obtain ⟨rfl, h₁⟩ := h₁
  exact ⟨h₁.store, h₁.registry, h₁.distinct, h₁.unused⟩

/-- Discarding what is kept of a mutant finds its record, so it finds its image as well; or there is
nothing to discard. -/
theorem discardKept_live (h : initial.HoldsLive live st) (hunused : initial.Unused id) :
    ((inMemory kit).discardKept id).Ensures st
      (fun _ st' => initial.HoldsLive (live.filter (·.mutant.id ≠ id)) st')
      (fun _ st' => initial.HoldsLive live st') := by
  refine discardKept_ensures ?_
  refine (MemoryStore.lookup_ensures id.snapshotName).mono (fun record st₁ h₁ => ?_)
    (fun _ st₁ h₁ _ => ?_)
  · obtain ⟨hfound, log, rfl⟩ := h₁
    obtain ⟨records, images, hholds, hrecords, himages⟩ := h
    rw [hholds.snapshots] at hfound
    -- The record is that of a live mutant, since none was there at first.
    have hrecord : record ∈ records := by
      refine (List.mem_append.mp (List.mem_of_find?_eq_some hfound)).resolve_left fun hmem => ?_
      exact (hunused.1 record hmem).1 (by simpa using List.find?_some hfound)
    obtain ⟨l, hl, base, hbase, rfl⟩ := exists_of_mem_right hrecords hrecord
    have hid : l.mutant.id = id := by simpa using List.find?_some hfound
    subst hid
    obtain ⟨image, himage, himaged⟩ := exists_of_mem_right himages.flip hl
    refine ((hholds.withLog log).deregister _).mono (fun _ st₂ h₂ => ?_) (fun _ st₂ h₂ => ?_)
    · refine (h₂.deleteImage _).mono (fun _ st₃ h₃ => ?_) (fun _ st₃ h₃ => ?_)
      · rw [hunused.erase_record, hunused.erase_image] at h₃
        exact ⟨_, _, h₃, MemoryStore.recorded_erase hrecords, MemoryStore.imaged_erase himages⟩
      · refine absurd (List.mem_map.mpr ⟨image, ?_, himaged⟩) (Roster.find?_eq_none_iff.mp h₃.2)
        exact List.mem_append_right _ himage
    · exact absurd (hfound.symm.trans h₂.2) (by simp)
  · obtain ⟨log, rfl⟩ := h₁
    exact h.withLog log

/-- Discarding a mutant ends its life. -/
theorem discardMutant_tracks (h : Tracks initial live t) (hunused : initial.Unused id) :
    ((inMemory kit).discardMutant id).Ensures t
      (fun _ t' => Tracks initial (LiveMutant.after t.store.snapshots live (some (.removed id))) t')
      (fun _ t' => Tracks initial live t') := by
  have hregistered : ((inMemory kit).remove id).Ensures t
      (fun _ t₁ => Tracks initial (LiveMutant.after t.store.snapshots live (some (.removed id))) t₁)
      (fun _ t₁ => Tracks initial live t₁) :=
    (remove_tracks h).mono (fun _ _ h₁ => h₁.2) (fun _ _ h₁ => h₁)
  refine discardMutant_ensures (fun _ => hregistered) (fun hhas => ?_) fun t₁ h₁ => ?_
  · refine (discardKept_live h.store hunused).mono (fun _ st h₁ => ?_) (fun _ st h₁ => ?_)
    · exact h.removed h₁ (Registry.filter_of_not_has hhas).symm
    · exact ⟨h₁, h.registry, h.distinct, h.unused⟩
  · exact ⟨h₁.store, h₁.registry, h₁.distinct, h₁.unused⟩

/-- Clearing the registry ends all lives. -/
theorem clearMutants_tracks (h : Tracks initial live t) :
    ((inMemory kit).clearMutants).Ensures t
      (fun _ t' => Tracks initial (LiveMutant.after t.store.snapshots live (some .cleared)) t')
      (fun _ _ => False) := by
  refine clearMutants_ensures fun sources _ => ?_
  refine (releases_live h.store fun m hm => h.unused_registered hm).mono (fun _ st h₁ => ?_)
    (fun _ _ h₁ => h₁)
  rw [h.filter_cleared] at h₁
  refine ⟨h₁, ?_, h.distinct.sublist (List.filter_sublist.map _),
    fun l hl => h.unused l (List.mem_filter.mp hl).1⟩
  simp [LiveMutant.after, List.filter_filter]

/-- An operation that only reads edits nothing and keeps track. -/
theorem tracks_of_reading {α : Type} {act : Action (Session MemoryStore) α}
    {fresh : Session MemoryStore → Prop} (h : Tracks initial live t)
    (hact : act.Ensures t (fun _ t' => ReadFrom t t') (fun _ t' => ReadFrom t t')) :
    (discard act >>= fun _ => pure none :
        Action (Session MemoryStore) (Option RegistryEdit)).Ensures t
      (fun edit t' => fresh t' → Tracks initial (LiveMutant.after t.store.snapshots live edit) t')
      (fun _ t' => Tracks initial live t') := by
  rw [ensures_bind, Action.ensures_discard]
  exact hact.mono (fun _ _ hread _ => h.read hread) (fun _ _ hread => h.read hread)

end Installation

/-- The id that an operation discards. -/
def Operation.discarded? : Operation → Option MutantId
  | discardMutant id => some id
  | _ => none

namespace Installation

variable {kit : Toolkit} {initial : MemoryStore}
  {live : List LiveMutant} {t : Session MemoryStore}

/-- After every operation the backend holds the mutants that are live then, if an id that the
operation draws is unused, and one that it discards was unused at first. -/
theorem perform_tracks (op : Operation) (h : Tracks initial live t)
    (hdiscarded : ∀ id ∈ op.discarded?, initial.Unused id) :
    ((inMemory kit).perform op).Ensures t
      (fun edit t' => (t'.nextId ≠ t.nextId → t.store.Unused (kit.nextMutant t)) →
        Tracks initial (LiveMutant.after t.store.snapshots live edit) t')
      (fun _ t' => Tracks initial live t') := by
  have hreading : (inMemory kit).ReadingKeeps (fun _ => True) (ReadFrom t) :=
    reading_from t
  have hread := ReadFrom.refl t
  unfold perform
  cases op with
  | mutate name ms => exact ensures_bind.mpr (mutate_tracks h)
  | deleteMutant id =>
    exact ensures_bind.mpr
      ((deleteMutant_tracks h).mono (fun _ _ h₁ _ => h₁) (fun _ _ h₁ => h₁))
  | discardMutant id =>
    exact ensures_bind.mpr ((discardMutant_tracks h (hdiscarded id rfl)).mono
      (fun _ _ h₁ _ => h₁) (fun _ _ h₁ => h₁))
  | clearMutants =>
    exact ensures_bind.mpr
      ((clearMutants_tracks h).mono (fun _ _ h₁ _ => h₁) (fun _ _ h₁ => h₁.elim))
  | snapshot name => exact tracks_of_reading h (hreading.snapshot hread)
  | findMutations s path filter =>
    exact tracks_of_reading h (findMutations_ensures hreading trivial hread)
  | mutations name path filter => exact tracks_of_reading h (mutations_ensures hreading hread)
  | replacements name ms => exact tracks_of_reading h (replacements_ensures hreading hread)
  | diff name ms => exact tracks_of_reading h (diff_ensures hreading hread)
  | mutant id =>
    refine tracks_of_reading h ?_
    unfold mutant
    rw [ensures_bind, Action.ensures_get]
    exact Action.ensures_ofExcept.mpr ⟨fun _ _ => hread, fun _ _ => hread⟩
  | mutants => exact fun _ => h

/-- If an operation draws an id, nothing in the backend uses it. -/
def FreshStep (i : Installation MemoryStore) (op : Operation) (t : Session MemoryStore) : Prop :=
  (i.step op t).1.nextId ≠ t.nextId → t.store.Unused (i.nextMutant t)

instance (i : Installation MemoryStore) (op : Operation) (t : Session MemoryStore) :
    Decidable (i.FreshStep op t) :=
  inferInstanceAs (Decidable (_ → _))

/-- One operation keeps track of the live mutants. -/
theorem step_tracks {op : Operation} (h : Tracks initial live t)
    (hfresh : (inMemory kit).FreshStep op t)
    (hdiscarded : ∀ id ∈ op.discarded?, initial.Unused id) :
    Tracks initial
      (LiveMutant.after t.store.snapshots live ((inMemory kit).step op t).2)
      ((inMemory kit).step op t).1 := by
  have htracks : ((inMemory kit).perform op).Ensures t _ _ :=
    perform_tracks op h hdiscarded
  unfold Action.Ensures at htracks
  unfold FreshStep step at hfresh
  unfold step
  cases hperform : (inMemory kit).perform op t with
  | ok edit t' =>
    rw [hperform] at htracks hfresh
    exact htracks hfresh
  | error fault t' =>
    rw [hperform] at htracks
    exact htracks

end Installation

/-! ## Chronicles -/

/-- What can happen to a backend in memory. -/
inductive Turn where
  | operation (op : Operation)
  /-- The installation ends, and a new one with nothing registered takes the backend over. -/
  | restart (kit : Toolkit)
  /-- The number that the next id comes from is drawn by lot. -/
  | lot (next : Nat)
  /-- From here on builds end in failure with an output, or in success. -/
  | builds (failure : Option String)

/-- A backend in memory with the installation at work, and what has become of its mutants. -/
structure Chronicle where
  installation : Installation MemoryStore
  session : Session MemoryStore
  live : List LiveMutant := []
  /-- The ids drawn so far. -/
  drawn : List MutantId := []

namespace Chronicle

/-- The state after a turn. A mutant is live once its creation has succeeded, until it is deleted or
discarded with success, or cleared while it is registered. -/
def after (h : Chronicle) : Turn → Chronicle
  | .operation op =>
    let (t, edit) := h.installation.step op h.session
    { h with
      session := t
      live := LiveMutant.after h.session.store.snapshots h.live edit
      drawn := if t.nextId = h.session.nextId then h.drawn
        else h.drawn ++ [h.installation.nextMutant h.session] }
  | .restart kit =>
    { h with
      installation := .inMemory kit
      session := { store := h.session.store, nextId := h.session.nextId }
      live := LiveMutant.left h.live }
  | .lot next => { h with session := { h.session with nextId := next } }
  | .builds failure =>
    { h with
      session := { h.session with
        store := { h.session.store with
          failing := if failure.isSome then ["compile"] else []
          buildOutput := failure.getD "" } } }

def run (turns : List Turn) (h : Chronicle) : Chronicle :=
  turns.foldl after h

/-- The turn draws no id that something in the backend uses, and discards none that was not drawn
before. -/
def Allows (h : Chronicle) : Turn → Prop
  | .operation op =>
    h.installation.FreshStep op h.session ∧ ∀ id ∈ op.discarded?, id ∈ h.drawn
  | _ => True

/-- Each of the turns is allowed when it comes. -/
def AllowsAll : List Turn → Chronicle → Prop
  | [], _ => True
  | turn :: rest, h => h.Allows turn ∧ AllowsAll rest (h.after turn)

instance (h : Chronicle) : (turn : Turn) → Decidable (h.Allows turn)
  | .operation op => inferInstanceAs (Decidable (_ ∧ ∀ id ∈ op.discarded?, _))
  | .restart _ | .lot _ | .builds _ => isTrue trivial

instance decidableAllowsAll : (turns : List Turn) → (h : Chronicle) → Decidable (AllowsAll turns h)
  | [], _ => isTrue trivial
  | turn :: rest, h =>
    have := decidableAllowsAll rest (h.after turn)
    inferInstanceAs (Decidable (_ ∧ _))

/-- The backend holds the live mutants, and no id drawn so far was used at first. -/
structure Sound (initial : MemoryStore) (h : Chronicle) : Prop where
  backend : ∃ kit, h.installation = .inMemory kit
  tracks : Tracks initial h.live h.session
  drawn : ∀ u ∈ h.drawn, initial.Unused u

variable {initial : MemoryStore} {h : Chronicle}

/-- An operation that is allowed keeps a chronicle sound. -/
theorem Sound.operation {op : Operation} (hsound : Sound initial h)
    (hallows : h.Allows (.operation op)) : Sound initial (h.after (.operation op)) := by
  obtain ⟨kit, hbackend⟩ := hsound.backend
  obtain ⟨hfresh, hdiscarded⟩ := hallows
  have hdrawn : ∀ u ∈ (h.after (.operation op)).drawn, initial.Unused u := by
    intro u hu
    unfold after at hu
    dsimp only at hu
    split at hu
    · exact hsound.drawn u hu
    · next hnext =>
      rcases List.mem_append.mp hu with hu | hu
      · exact hsound.drawn u hu
      · rw [List.mem_singleton.mp hu]
        exact hsound.tracks.store.unused_initial (hfresh hnext)
  refine ⟨⟨kit, hbackend⟩, ?_, hdrawn⟩
  rw [hbackend] at hfresh
  have hstep := Installation.step_tracks hsound.tracks hfresh
    fun id hid => hsound.drawn id (hdiscarded id hid)
  rw [← hbackend] at hstep
  exact hstep

/-- When an installation ends, its mutants stay. -/
theorem Sound.restart (kit : Toolkit) (hsound : Sound initial h) :
    Sound initial (h.after (.restart kit)) := by
  have htracks := hsound.tracks
  obtain ⟨records, images, hholds, hrecords, himages⟩ := htracks.store
  refine ⟨⟨kit, rfl⟩, ⟨⟨records, images, hholds, ?_, ?_⟩, ?_, ?_, ?_⟩, hsound.drawn⟩
  · exact List.forall₂_map_left_iff.mpr hrecords
  · exact List.forall₂_map_left_iff.mpr himages
  · simp [after, LiveMutant.left]
  · simpa [after, LiveMutant.left, Function.comp_def] using htracks.distinct
  · intro l hl
    obtain ⟨l', hl', rfl⟩ := List.mem_map.mp hl
    exact htracks.unused l' hl'

/-- A turn keeps a chronicle sound. -/
theorem Sound.after {turn : Turn} (hsound : Sound initial h) (hallows : h.Allows turn) :
    Sound initial (h.after turn) := by
  have htracks := hsound.tracks
  cases turn with
  | operation op => exact hsound.operation hallows
  | restart kit => exact hsound.restart kit
  | lot next =>
    exact ⟨hsound.backend, ⟨htracks.store, htracks.registry, htracks.distinct, htracks.unused⟩,
      hsound.drawn⟩
  | builds failure =>
    obtain ⟨records, images, hholds, hrecords, himages⟩ := htracks.store
    have hreliable : (h.after (.builds failure)).session.store.Reliable := by
      cases failure <;> simp [Chronicle.after, MemoryStore.Reliable]
    exact ⟨hsound.backend, ⟨⟨records, images,
      ⟨hreliable, hholds.containers, hholds.snapshots, hholds.images⟩, hrecords, himages⟩,
      htracks.registry, htracks.distinct, htracks.unused⟩, hsound.drawn⟩

/-- Any allowed turns keep a chronicle sound. -/
theorem Sound.run {turns : List Turn} (hsound : Sound initial h) (hallows : AllowsAll turns h) :
    Sound initial (h.run turns) := by
  induction turns generalizing h with
  | nil => exact hsound
  | cons turn rest ih => exact ih (hsound.after hallows.1) hallows.2

/-- The first turns of allowed turns are allowed. -/
theorem AllowsAll.take {turns : List Turn} (hallows : AllowsAll turns h) (count : Nat) :
    AllowsAll (turns.take count) h := by
  induction turns generalizing h count with
  | nil => simpa using hallows
  | cons turn rest ih =>
    cases count with
    | zero => trivial
    | succ count => exact ⟨hallows.1, ih hallows.2 count⟩

/-- The first installation on a backend in memory. -/
def start (kit : Toolkit) (memory : MemoryStore) (first : Nat) : Chronicle where
  installation := .inMemory kit
  session := { store := memory, nextId := first }

/-- A chronicle that starts is sound. -/
theorem sound_start {memory : MemoryStore} (hreliable : memory.Reliable) (kit : Toolkit)
    (first : Nat) : Sound memory (start kit memory first) where
  backend := ⟨kit, rfl⟩
  tracks := @tracks_nil (start kit memory first).session hreliable rfl
  drawn _ hu := absurd hu List.not_mem_nil

/-- Whatever a backend in memory holds at first, and whatever operations and changes of the
installation come, if no call fails (builds may), every id is unused when it is drawn, and only ids
drawn before are discarded: after each turn

* the records are those of the start and then one for each live mutant, in the order of creation,
  which is the record of the snapshot it was made from with its own name and image;
* the images are those of the start and then one for each live mutant;
* there is no container;
* different live mutants have different ids, and those made by the installation at work are the
  registered ones. -/
theorem run_live (kit : Toolkit) (memory : MemoryStore) (first : Nat)
    (turns : List Turn) (hreliable : memory.Reliable) (hcontainers : memory.containers = [])
    (hallows : AllowsAll turns (start kit memory first)) (count : Nat) :
    let h := (start kit memory first).run (turns.take count)
    (∃ records, h.session.store.snapshots = memory.snapshots ++ records ∧
        List.Forall₂ LiveMutant.Recorded h.live records) ∧
      (∃ images, h.session.store.images = memory.images ++ images ∧
        List.Forall₂ LiveMutant.Imaged h.live images) ∧
      h.session.store.containers = [] ∧
      (h.live.map (·.mutant.id)).Nodup ∧
      h.session.registry = (h.live.filter (·.registered)).map (·.mutant) := by
  have hsound := (sound_start hreliable kit first).run (hallows.take count)
  obtain ⟨records, images, hholds, hrecords, himages⟩ := hsound.tracks.store
  rw [hcontainers] at hholds
  exact ⟨⟨records, hholds.snapshots, hrecords⟩, ⟨images, hholds.images, himages⟩,
    hholds.no_container, hsound.tracks.distinct, hsound.tracks.registry⟩

namespace Sample

def memory : MemoryStore where
  snapshots := [{ name := "base", image := "image", languages := ["c"] }]
  images := [⟨"image", [("f", "x\n")]⟩]

def onePut : Catalogue :=
  ⟨[], [⟨"put", NameSet.ofList ["c"], [⟨":[t]", "y", []⟩]⟩]⟩

def tools : Toolkit :=
  { catalogue := onePut, matcher := fun _ _ => .ok [] }

/-- A mutant, a mutant of that, and one whose build fails; then another installation makes one more,
discards the first, and clears its own. -/
def turns : List Turn :=
  [.operation (.mutate "base" [⟨"put", 0, ⟨"f", ⟨⟨1, 0⟩, ⟨1, 1⟩⟩⟩, .empty⟩]),
    .operation (.mutate (MutantId.ofNumber 0).snapshotName []),
    .builds (some "broken"), .operation (.mutate "base" []), .builds none,
    .restart tools, .lot 7, .operation (.mutate "base" []),
    .operation (.discardMutant (.ofNumber 0)), .operation .clearMutants]

def opening : Chronicle :=
  start tools memory 0

def final : Chronicle :=
  opening.run (turns.take 10)

end Sample

/-- After the sample turns one mutant is live, and it is not registered. -/
theorem run_live_sample :
    AllowsAll Sample.turns Sample.opening ∧
      Sample.final.live.map (fun l => (l.mutant.id, l.registered)) = [(.ofNumber 1, false)] ∧
      Sample.final.session.registry = [] ∧
      Sample.final.session.store.containers = [] ∧
      ∃ record, Sample.final.session.store.snapshots = Sample.memory.snapshots ++ [record] ∧
        record.name = (MutantId.ofNumber 1).snapshotName := by
  have hallows : AllowsAll Sample.turns Sample.opening := by decide +kernel
  have hlive : Sample.final.live.map (fun l => (l.mutant.id, l.registered)) =
      [(.ofNumber 1, false)] := by decide +kernel
  have hrun := run_live Sample.tools Sample.memory 0 Sample.turns
    (by decide) rfl hallows 10
  have hfinal : (start Sample.tools Sample.memory 0).run
      (Sample.turns.take 10) = Sample.final := rfl
  rw [hfinal] at hrun
  dsimp only at hrun
  -- From here on the final state is not to be computed again.
  generalize Sample.final = final at *
  obtain ⟨⟨records, hrecords, hrecorded⟩, -, hcontainers, -, hregistry⟩ := hrun
  obtain ⟨l, hl, hmutant⟩ := List.map_eq_singleton_iff.mp hlive
  obtain ⟨hid, hregistered⟩ := Prod.mk.inj hmutant
  rw [hl] at hrecorded hregistry
  rw [List.filter_cons_of_neg (by simp [hregistered])] at hregistry
  refine ⟨hallows, hlive, hregistry, hcontainers, ?_⟩
  cases hrecorded with
  | cons hrecord hrest =>
    cases hrest
    obtain ⟨base, -, rfl⟩ := hrecord
    exact ⟨_, hrecords, congrArg MutantId.snapshotName hid⟩

end Chronicle

end Mutagenesis
