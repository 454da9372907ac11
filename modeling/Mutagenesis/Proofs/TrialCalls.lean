import Mutagenesis.Proofs.BackendCalls
import Mutagenesis.Proofs.MemoryEffects

/-!
# What calls do to the record and the image of one mutant

The backend in memory is put on trial: its calls may fail by any plan, and all are noted. A mutant
is followed through such calls. What belongs to it is the record under its snapshot's name and the
image under its image's name (`Intact`, `Gone`), and the note of a failed call that should have
deleted one of them (`Spoiled`). A call that does not concern the mutant leaves all of this alone
(`run_same`, `run_quiet`).
-/

set_option autoImplicit false

namespace Mutagenesis

namespace MutantId

theorem digitChar_injective : ∀ a b : Fin 16, digitChar a = digitChar b → a = b := by
  decide

variable {a b : MutantId}

/-- Ids with the same text are the same. -/
theorem eq_of_text_eq (h : a.text = b.text) : a = b := by
  have hwrite : a.digits.map digitChar = b.digits.map digitChar := String.ofList_injective h
  have hdigits : a.digits = b.digits :=
    (List.map_inj_right fun x y hxy => digitChar_injective x y hxy).mp hwrite
  cases a
  cases b
  cases hdigits
  rfl

theorem eq_of_append_eq {lead : String} (h : lead ++ a.text = lead ++ b.text) : a = b := by
  have hlist := congrArg String.toList h
  rw [String.toList_append, String.toList_append] at hlist
  exact eq_of_text_eq (String.toList_inj.mp (List.append_cancel_left hlist))

/-- Different ids have different snapshots. -/
@[simp]
theorem snapshotName_inj : a.snapshotName = b.snapshotName ↔ a = b :=
  ⟨eq_of_append_eq, congrArg snapshotName⟩

/-- Different ids have different images. -/
@[simp]
theorem imageName_inj : a.imageName = b.imageName ↔ a = b :=
  ⟨eq_of_append_eq, congrArg imageName⟩

end MutantId

namespace MemoryStore

/-- The record of a mutant's snapshot. -/
def record? (m : MemoryStore) (u : MutantId) : Option Snapshot :=
  Roster.find? Snapshot.name u.snapshotName m.snapshots

/-- The image of a mutant is there. -/
def hasImage (m : MemoryStore) (u : MutantId) : Bool :=
  Roster.has FileSet.name u.imageName m.images

/-- The mutant's record names the mutant's image, and no other record does. -/
def Paired (m : MemoryStore) (u : MutantId) : Prop :=
  ∀ record ∈ m.snapshots, record.name = u.snapshotName ↔ record.image = u.imageName

/-- The record and the image of the mutant are there. -/
def Intact (m : MemoryStore) (u : MutantId) : Prop :=
  (∃ record, m.record? u = some record ∧ record.image = u.imageName) ∧ m.hasImage u = true

/-- Neither the record nor the image of the mutant is there. -/
def Gone (m : MemoryStore) (u : MutantId) : Prop :=
  m.record? u = none ∧ m.hasImage u = false

/-- No record has the name or the image of the mutant, and there is no such image. -/
def Unused (m : MemoryStore) (u : MutantId) : Prop :=
  (∀ record ∈ m.snapshots, record.name ≠ u.snapshotName ∧ record.image ≠ u.imageName) ∧
    m.hasImage u = false

instance (m : MemoryStore) (u : MutantId) : Decidable (m.Unused u) :=
  inferInstanceAs (Decidable (_ ∧ _))

/-- The record of a mutant names its image. -/
theorem Paired.of_record? {m : MemoryStore} {u : MutantId} (h : m.Paired u) {record : Snapshot}
    (hrecord : m.record? u = some record) : record.image = u.imageName := by
  have hname : record.name = u.snapshotName := by
    simpa using List.find?_some hrecord
  exact (h record (List.mem_of_find?_eq_some hrecord)).mp hname

theorem Unused.paired {m : MemoryStore} {u : MutantId} (h : m.Unused u) : m.Paired u :=
  fun record hrecord => iff_of_false (h.1 record hrecord).1 (h.1 record hrecord).2

/-- Of an id that is not used there is nothing. -/
theorem Unused.gone {m : MemoryStore} {u : MutantId} (h : m.Unused u) : m.Gone u := by
  refine ⟨List.find?_eq_none.mpr fun record hrecord => ?_, h.2⟩
  simpa using (h.1 record hrecord).1

end MemoryStore

/-- A call that should have deleted the record or the image of the mutant has failed. -/
def Spoiled (events : List Event) (u : MutantId) : Prop :=
  ∃ e ∈ events, e.Failed ∧ (e.call = .deregister u.snapshotName ∨ e.call = .deleteImage u.imageName)

/-- What was spoiled stays so. -/
theorem Spoiled.append {events : List Event} {u : MutantId} (h : Spoiled events u)
    (more : List Event) : Spoiled (events ++ more) u := by
  obtain ⟨e, he, hspoiled⟩ := h
  exact ⟨e, List.mem_append_left _ he, hspoiled⟩

/-- The backend in memory with a plan of failing calls and with all calls noted. -/
abbrev Trial := Recorded (Disturbed MemoryStore)

/-- What the backend on trial holds. -/
def Trial.memory (r : Trial) : MemoryStore :=
  r.store.store

/-- The backend in memory on trial. -/
def trialBackend : Backend Trial :=
  MemoryStore.backend.disturbed.recorded

/-! ## The effect of one call -/

namespace Call

/-- What a call that succeeds makes of the records. -/
def onRecords : Call → List Snapshot → List Snapshot
  | .register record, records => Roster.put Snapshot.name record records
  | .deregister name, records => Roster.erase Snapshot.name name records
  | _, records => records

/-- What a call that succeeds makes of the record of a mutant. -/
def onRecord (u : MutantId) : Call → Option Snapshot → Option Snapshot
  | .register record, old => if record.name = u.snapshotName then some record else old
  | .deregister name, old => if name = u.snapshotName then none else old
  | _, old => old

/-- What a call that succeeds makes of the images. -/
def OnImages : Call → (old new : List FileSet) → Prop
  | .persist _ image, old, new => ∃ files, new = Roster.put FileSet.name ⟨image, files⟩ old
  | .deleteImage image, old, new => new = Roster.erase FileSet.name image old
  | _, old, new => new = old

/-- Whether the image of a mutant is there after a call that succeeds. -/
def onImage (u : MutantId) : Call → Bool → Bool
  | .persist _ image, old => decide (image = u.imageName) || old
  | .deleteImage image, old => decide (image ≠ u.imageName) && old
  | _, old => old

/-- The call changes neither records nor images. -/
def Quiet : Call → Prop
  | .register _ | .deregister _ | .persist _ _ | .deleteImage _ => False
  | _ => True

/-- A record that the call adds is the mutant's exactly if it names the mutant's image. -/
def Pairs (u : MutantId) : Call → Prop
  | .register record => record.name = u.snapshotName ↔ record.image = u.imageName
  | _ => True

/-- A call does to a mutant's record what it does to the records. -/
theorem find?_onRecords (u : MutantId) (call : Call) (records : List Snapshot) :
    Roster.find? Snapshot.name u.snapshotName (call.onRecords records) =
      call.onRecord u (Roster.find? Snapshot.name u.snapshotName records) := by
  cases call with
  | register record => exact Roster.find?_put record u.snapshotName records
  | deregister name => exact Roster.find?_erase name u.snapshotName records
  | _ => rfl

end Call

namespace MemoryStore

variable {m m' : MemoryStore} {u : MutantId}

/-- A call with records that pairs them leaves them paired. -/
theorem Paired.onRecords {call : Call} (hpaired : m.Paired u) (hcall : call.Pairs u)
    (h : m'.snapshots = call.onRecords m.snapshots) : m'.Paired u := by
  intro record hrecord
  rw [h] at hrecord
  cases call with
  | register added =>
    rcases Roster.mem_put hrecord with rfl | hrecord
    · exact hcall
    · exact hpaired record hrecord
  | deregister name => exact hpaired record (List.mem_filter.mp hrecord).1
  | _ => exact hpaired record hrecord

/-- What a call does to the image of a mutant. -/
theorem hasImage_onImages {call : Call} (h : call.OnImages m.images m'.images) :
    m'.hasImage u = call.onImage u (m.hasImage u) := by
  unfold hasImage
  cases call with
  | persist c image =>
    obtain ⟨files, h⟩ := h
    rw [h]
    exact Roster.has_put _ u.imageName m.images
  | deleteImage image =>
    rw [show m'.images = _ from h]
    exact Roster.has_erase image u.imageName m.images
  | _ => exact congrArg _ h

/-- A call of the backend in memory has its effect, or none if it fails. -/
theorem run_effect (call : Call) (m : MemoryStore) :
    (MemoryStore.backend.run call).Ensures m
      (fun _ m' => m'.snapshots = call.onRecords m.snapshots ∧ call.OnImages m.images m'.images)
      (fun _ m' => m'.snapshots = m.snapshots ∧ m'.images = m.images) := by
  have hsame : ∀ m' : MemoryStore, (∃ log, m' = m.withLog log) →
      m'.snapshots = m.snapshots ∧ m'.images = m.images := by
    rintro _ ⟨log, rfl⟩
    exact ⟨rfl, rfl⟩
  cases call with
  | lookup name => exact (lookup_ensures name).mono (fun _ m' h => hsame m' h.2) (fun _ => hsame)
  | fileText snapshot path =>
    exact (fileText_ensures snapshot path).mono (fun _ m' h => hsame m' h.2) (fun _ => hsame)
  | provision snapshot =>
    refine (provision_ensures snapshot).mono ?_ (fun _ => hsame)
    rintro _ _ ⟨-, log, rfl⟩
    exact ⟨rfl, rfl⟩
  | applyPatch c diff =>
    refine (applyPatch_ensures c diff).mono ?_ (fun _ => hsame)
    rintro _ _ ⟨_, _, -, -, log, rfl⟩
    exact ⟨rfl, rfl⟩
  | build c => exact (build_ensures c).mono (fun _ => hsame) (fun _ => hsame)
  | persist c image =>
    refine (persist_ensures c image).mono ?_ (fun _ => hsame)
    rintro _ _ ⟨log, rfl⟩
    exact ⟨rfl, _, rfl⟩
  | destroy c =>
    refine (destroy_ensures c).mono ?_ (fun _ => hsame)
    rintro _ _ ⟨log, rfl⟩
    exact ⟨rfl, rfl⟩
  | register record =>
    refine (register_ensures record).mono ?_ (fun _ => hsame)
    rintro _ _ ⟨log, rfl⟩
    exact ⟨rfl, rfl⟩
  | deregister name =>
    refine (deregister_ensures name).mono ?_ (fun _ => hsame)
    rintro _ _ ⟨log, rfl⟩
    exact ⟨rfl, rfl⟩
  | deleteImage image =>
    refine (deleteImage_ensures image).mono ?_ (fun _ => hsame)
    rintro _ _ ⟨log, rfl⟩
    exact ⟨rfl, rfl⟩

end MemoryStore

/-! ## Following one mutant -/

/-- The record of the mutant and whether its image is there are these now; its records are paired if
they were, and calls were only added. -/
structure Leaves (u : MutantId) (record : Option Snapshot) (image : Bool) (r r' : Trial) :
    Prop where
  record : r'.memory.record? u = record
  image : r'.memory.hasImage u = image
  paired : r.memory.Paired u → r'.memory.Paired u
  events : ∃ more, r'.events = r.events ++ more

/-- What belongs to the mutant is the same. -/
abbrev Same (u : MutantId) (r r' : Trial) : Prop :=
  Leaves u (r.memory.record? u) (r.memory.hasImage u) r r'

/-- The mutant is gone, unless a call that should have deleted something of it has failed. -/
def Cleared (u : MutantId) (r : Trial) : Prop :=
  r.memory.Gone u ∨ Spoiled r.events u

section

variable {u : MutantId} {record record' : Option Snapshot} {image image' : Bool}
  {r r₁ r₂ r' : Trial}

theorem Same.refl (u : MutantId) (r : Trial) : Same u r r :=
  ⟨rfl, rfl, id, [], by simp⟩

/-- Two changes, one after the other. -/
theorem Leaves.trans (h₁ : Leaves u record image r r₁) (h₂ : Leaves u record' image' r₁ r₂) :
    Leaves u record' image' r r₂ := by
  obtain ⟨more₁, he₁⟩ := h₁.events
  obtain ⟨more₂, he₂⟩ := h₂.events
  refine ⟨h₂.record, h₂.image, h₂.paired ∘ h₁.paired, more₁ ++ more₂, ?_⟩
  rw [he₂, he₁, List.append_assoc]

theorem Leaves.same (h₁ : Leaves u record image r r₁) (h₂ : Same u r₁ r₂) :
    Leaves u record image r r₂ :=
  h₁.trans ⟨h₂.record.trans h₁.record, h₂.image.trans h₁.image, h₂.paired, h₂.events⟩

/-- A spoiled mutant stays spoiled. -/
theorem Leaves.spoiled (h : Leaves u record image r r') (hr : Spoiled r.events u) :
    Spoiled r'.events u := by
  obtain ⟨more, he⟩ := h.events
  rw [he]
  exact hr.append more

theorem Leaves.gone (h : Leaves u none false r r') : r'.memory.Gone u :=
  ⟨h.record, h.image⟩

/-- A mutant stays intact while nothing touches it. -/
theorem Same.intact (h : Same u r r') (hr : r.memory.Intact u) : r'.memory.Intact u := by
  unfold MemoryStore.Intact at hr ⊢
  rw [h.record, h.image]
  exact hr

/-- A mutant stays cleared while nothing touches it. -/
theorem Same.cleared (h : Same u r r') (hr : Cleared u r) : Cleared u r' := by
  refine hr.imp (fun hgone => ?_) h.spoiled
  unfold MemoryStore.Gone at hgone ⊢
  rw [h.record, h.image]
  exact hgone

end

namespace Trial

variable {u : MutantId} {r : Trial}

/-- A call has its effect, or none if it fails, and it is noted. -/
theorem run_effect (call : Call) :
    (trialBackend.run call).Ensures r
      (fun a r' => r'.events = r.events ++ [⟨call, .ok a⟩] ∧
        r'.memory.snapshots = call.onRecords r.memory.snapshots ∧
        call.OnImages r.memory.images r'.memory.images)
      (fun fault r' => r'.events = r.events ++ [⟨call, .error fault⟩] ∧
        r'.memory.snapshots = r.memory.snapshots ∧ r'.memory.images = r.memory.images) := by
  unfold trialBackend
  rw [Backend.recorded_ensures]
  have heffect := Backend.disturbed_ensures (MemoryStore.run_effect call r.store.store)
    fun _ => ⟨rfl, rfl⟩
  exact heffect.mono (fun _ _ h => ⟨rfl, h⟩) (fun _ _ h => ⟨rfl, h⟩)

/-- A call has its effect on what belongs to a mutant, or none if it fails, and it is noted. -/
theorem run_leaves (u : MutantId) (call : Call) (hcall : call.Pairs u) :
    (trialBackend.run call).Ensures r
      (fun _ r' => Leaves u (call.onRecord u (r.memory.record? u))
        (call.onImage u (r.memory.hasImage u)) r r')
      (fun fault r' => Same u r r' ∧ ⟨call, .error fault⟩ ∈ r'.events) := by
  refine (run_effect call).mono (fun a r' h => ?_) (fun fault r' h => ?_)
  · obtain ⟨hevents, hrecords, himages⟩ := h
    refine ⟨?_, MemoryStore.hasImage_onImages himages,
      fun hpaired => hpaired.onRecords hcall hrecords, _, hevents⟩
    rw [MemoryStore.record?, hrecords, Call.find?_onRecords]
    rfl
  · obtain ⟨hevents, hrecords, himages⟩ := h
    refine ⟨⟨?_, ?_, fun hpaired record hrecord => ?_, _, hevents⟩, by simp [hevents]⟩
    · rw [MemoryStore.record?, hrecords]
      rfl
    · rw [MemoryStore.hasImage, himages]
      rfl
    · exact hpaired record (hrecords ▸ hrecord)

/-- A call that has nothing to do with a mutant leaves all that belongs to it. -/
theorem run_same (u : MutantId) (call : Call) (hcall : call.Pairs u)
    (hrecord : ∀ old, call.onRecord u old = old) (himage : ∀ old, call.onImage u old = old) :
    (trialBackend.run call).Ensures r (fun _ r' => Same u r r') (fun _ r' => Same u r r') := by
  refine (run_leaves u call hcall).mono (fun _ r' h => ?_) (fun _ _ h => h.1)
  rw [hrecord, himage] at h
  exact h

/-- A quiet call touches no mutant. -/
theorem run_quiet (u : MutantId) (call : Call) (hcall : call.Quiet) :
    (trialBackend.run call).Ensures r (fun _ r' => Same u r r') (fun _ r' => Same u r r') := by
  cases call with
  | register record => exact hcall.elim
  | deregister name => exact hcall.elim
  | persist c image => exact hcall.elim
  | deleteImage image => exact hcall.elim
  | _ => exact run_same u _ trivial (fun _ => rfl) (fun _ => rfl)

/-- The record that is looked up is the one that is found. -/
theorem lookup_found (name : String) :
    (trialBackend.lookup name).Ensures r
      (fun record r' => Roster.find? Snapshot.name name r.memory.snapshots = some record ∧
        Same u r r')
      (fun _ r' => Same u r r') := by
  have hfound : (trialBackend.run (.lookup name)).Ensures r
      (fun record _ => Roster.find? Snapshot.name name r.memory.snapshots = some record)
      (fun _ _ => True) := by
    have hlookup : (MemoryStore.backend.run (.lookup name)).Ensures r.store.store
        (fun record _ => Roster.find? Snapshot.name name r.memory.snapshots = some record)
        (fun _ _ => True) :=
      (MemoryStore.lookup_ensures name).mono (fun _ _ h => h.1) (fun _ _ _ => trivial)
    unfold trialBackend
    rw [Backend.recorded_ensures]
    exact Backend.disturbed_ensures hlookup fun _ => trivial
  have hsame := run_quiet (r := r) u (.lookup name) trivial
  exact (hfound.and hsame).mono (fun _ _ h => h) (fun _ _ h => h.2)

/-- The record of the mutant is deleted, or the call that should have deleted it has failed. -/
theorem deregister_leaves :
    (trialBackend.deregister u.snapshotName).Ensures r
      (fun _ r' => Leaves u none (r.memory.hasImage u) r r')
      (fun _ r' => Same u r r' ∧ Spoiled r'.events u) := by
  refine (run_leaves u (.deregister u.snapshotName) trivial).mono (fun _ r' h => ?_)
    (fun fault r' h => ?_)
  · simpa [Call.onRecord, Call.onImage] using h
  · exact ⟨h.1, _, h.2, ⟨fault, rfl⟩, Or.inl rfl⟩

/-- The image of the mutant is deleted, or the call that should have deleted it has failed. -/
theorem deleteImage_leaves :
    (trialBackend.deleteImage u.imageName).Ensures r
      (fun _ r' => Leaves u (r.memory.record? u) false r r')
      (fun _ r' => Same u r r' ∧ Spoiled r'.events u) := by
  refine (run_leaves u (.deleteImage u.imageName) trivial).mono (fun _ r' h => ?_)
    (fun fault r' h => ?_)
  · simpa [Call.onRecord, Call.onImage] using h
  · exact ⟨h.1, _, h.2, ⟨fault, rfl⟩, Or.inr rfl⟩

/-- Deleting another record touches nothing of a mutant. -/
theorem deregister_same {name : String} (hname : name ≠ u.snapshotName) :
    (trialBackend.deregister name).Ensures r (fun _ r' => Same u r r') (fun _ r' => Same u r r') :=
  run_same u (.deregister name) trivial (fun _ => if_neg hname) (fun _ => rfl)

/-- Deleting another image touches nothing of a mutant. -/
theorem deleteImage_same {image : String} (himage : image ≠ u.imageName) :
    (trialBackend.deleteImage image).Ensures r
      (fun _ r' => Same u r r') (fun _ r' => Same u r r') :=
  run_same u (.deleteImage image) trivial (fun _ => rfl) (fun old => by simp [Call.onImage, himage])

end Trial

end Mutagenesis
