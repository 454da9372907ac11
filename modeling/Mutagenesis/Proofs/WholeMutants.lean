import Mutagenesis.Proofs.MutantFate

/-!
# A mutant is made wholly or not at all

What making a mutant leaves in the backend in memory, however its calls fail. Until its record is
added, only its image can have changed (`buildImage_reaches`). Then the record is added, or the
image is deleted again, or neither could be done (`addRecord_ends`). With names that are not in use,
all that was there before is still there, and what is new comes last (`generate_whole`).
-/

set_option autoImplicit false

namespace Mutagenesis

/-- Since the first state no call has tried to add a record, the records are the same, and the
images are these now. -/
structure Reaches (images : List FileSet) (r r' : Trial) : Prop where
  records : r'.memory.snapshots = r.memory.snapshots
  images : r'.memory.images = images
  calls : ∃ calls, r'.events = r.events ++ calls ∧ ∀ e ∈ calls, ∀ record, e.call ≠ .register record

/-- The last calls have tried to add the record, and then to delete its image, and both have
failed. -/
def Orphaned (record : Snapshot) (calls : List Event) : Prop :=
  ∃ earlier fault fault', calls = earlier ++
    [⟨.register record, .error fault⟩, ⟨.deleteImage record.image, .error fault'⟩]

/-- The mutant, its record and its image have been added. -/
structure Grown (record : Snapshot) (m : Mutant) (t t' : Session Trial) : Prop where
  registry : t'.registry = t.registry ++ [m]
  records : t'.store.memory.snapshots = t.store.memory.snapshots ++ [record]
  images : ∃ files, t'.store.memory.images = t.store.memory.images ++ [⟨record.image, files⟩]

/-- All is as it was, but for the image of a record that was neither added nor undone. -/
structure Undone (record : Snapshot) (t t' : Session Trial) : Prop where
  registry : t'.registry = t.registry
  records : t'.store.memory.snapshots = t.store.memory.snapshots
  images : ∃ calls, t'.store.events = t.store.events ++ calls ∧
    (¬Orphaned record calls → t'.store.memory.images = t.store.memory.images) ∧
    (Orphaned record calls → ∃ files,
      t'.store.memory.images = t.store.memory.images ++ [⟨record.image, files⟩])

/-- An image that was there is the same. -/
def ImageKept (image : String) (t t' : Session Trial) : Prop :=
  ∀ files, Roster.find? FileSet.name image t.store.memory.images = some files →
    Roster.find? FileSet.name image t'.store.memory.images = some files

section

variable {images images' : List FileSet} {r r₁ r₂ : Trial}

theorem Reaches.refl (r : Trial) : Reaches r.memory.images r r :=
  ⟨rfl, rfl, [], by simp, by simp⟩

theorem Reaches.trans (h₁ : Reaches images r r₁) (h₂ : Reaches images' r₁ r₂) :
    Reaches images' r r₂ := by
  obtain ⟨calls₁, he₁, hcalls₁⟩ := h₁.calls
  obtain ⟨calls₂, he₂, hcalls₂⟩ := h₂.calls
  refine ⟨h₂.records.trans h₁.records, h₂.images, calls₁ ++ calls₂, ?_, ?_⟩
  · rw [he₂, he₁, List.append_assoc]
  · intro e he
    exact (List.mem_append.mp he).elim (hcalls₁ e) (hcalls₂ e)

/-- What comes after leaves the images as they are. -/
theorem Reaches.still (h₁ : Reaches images r r₁) (h₂ : Reaches r₁.memory.images r₁ r₂) :
    Reaches images r r₂ :=
  h₁.images ▸ h₁.trans h₂

theorem Reaches.not_orphaned (h : Reaches images r r₁) (record : Snapshot) :
    ∃ calls, r₁.events = r.events ++ calls ∧ ¬Orphaned record calls := by
  obtain ⟨calls, he, hcalls⟩ := h.calls
  refine ⟨calls, he, ?_⟩
  rintro ⟨earlier, fault, fault', rfl⟩
  exact hcalls ⟨.register record, .error fault⟩ (by simp) record rfl

variable {record : Snapshot} {image : String} {t t' : Session Trial}

theorem ImageKept.of_isPrefix (h : t.store.memory.images <+: t'.store.memory.images) :
    ImageKept image t t' := by
  obtain ⟨more, hmore⟩ := h
  intro files hfiles
  unfold Roster.find? at hfiles ⊢
  rw [← hmore, List.find?_append, hfiles]
  rfl

/-- A failure before the record is tried leaves everything. -/
theorem Undone.of_reaches (h : Reaches t.store.memory.images t.store t'.store)
    (hregistry : t'.registry = t.registry) :
    Undone record t t' ∧ ImageKept image t t' := by
  obtain ⟨calls, hcalls, hnot⟩ := h.not_orphaned record
  refine ⟨⟨hregistry, h.records, calls, hcalls, fun _ => h.images, fun ho => absurd ho hnot⟩, ?_⟩
  exact .of_isPrefix (h.images ▸ List.prefix_refl _)

/-- A failure to add the record leaves the image of that record, if that could not be deleted. -/
theorem Undone.of_ends {earlier : List Event} {fault : Fault}
    {outcome : Except Fault (Call.deleteImage record.image).Result} {new : FileSet}
    (hregistry : t'.registry = t.registry)
    (hrecords : t'.store.memory.snapshots = t.store.memory.snapshots)
    (hevents : t'.store.events = t.store.events ++ (earlier ++
      [⟨.register record, .error fault⟩, ⟨.deleteImage record.image, outcome⟩]))
    (himages : t'.store.memory.images = if outcome.toBool then
      Roster.erase FileSet.name record.image (t.store.memory.images ++ [new])
        else t.store.memory.images ++ [new])
    (hnew : new.name = record.image)
    (hfree : Roster.find? FileSet.name record.image t.store.memory.images = none) :
    Undone record t t' ∧ ImageKept image t t' := by
  cases outcome with
  | error fault' =>
    have hleft : t'.store.memory.images = t.store.memory.images ++ [⟨record.image, new.files⟩] := by
      rw [himages, ← hnew]
      rfl
    refine ⟨⟨hregistry, hrecords, _, hevents, fun hnot => ?_, fun _ => ⟨_, hleft⟩⟩, ?_⟩
    · exact absurd ⟨earlier, fault, fault', rfl⟩ hnot
    · exact .of_isPrefix ⟨_, hleft.symm⟩
  | ok _ =>
    have hleft : t'.store.memory.images = t.store.memory.images := by
      have herase := Roster.erase_of_absent hfree
      unfold Roster.erase at herase
      rw [himages, if_pos (by rfl), Roster.erase, List.filter_append, herase]
      simp [hnew]
    refine ⟨⟨hregistry, hrecords, _, hevents, fun _ => hleft, ?_⟩, ?_⟩
    · rintro ⟨earlier', fault₁, fault₂, hcalls⟩
      have htail := (List.append_inj' hcalls rfl).2
      simp at htail
    · exact .of_isPrefix (hleft ▸ List.prefix_refl _)

end

namespace Trial

variable {r : Trial}

/-- A quiet call changes no image. -/
theorem run_reaches (call : Call) (hcall : call.Quiet) :
    (trialBackend.run call).Ensures r (fun _ r' => Reaches r.memory.images r r')
      (fun _ r' => Reaches r.memory.images r r') := by
  have hregister : ∀ record, call ≠ .register record := by
    rintro record rfl
    exact hcall
  have hrecords : call.onRecords r.memory.snapshots = r.memory.snapshots := by
    cases call with
    | register _ | deregister _ => exact hcall.elim
    | _ => rfl
  have himages : ∀ new, call.OnImages r.memory.images new → new = r.memory.images := by
    cases call with
    | persist _ _ | deleteImage _ => exact hcall.elim
    | _ => exact fun _ h => h
  refine (run_effect call).mono (fun a r' h => ?_) (fun fault r' h => ?_)
  · exact ⟨h.2.1.trans hrecords, himages _ h.2.2, _, h.1, by simpa using hregister⟩
  · exact ⟨h.2.1, h.2.2, _, h.1, by simpa using hregister⟩

end Trial

namespace Installation

open Trial (run_reaches run_effect)

variable {kit : Toolkit} {r : Trial} {s : Snapshot}

/-- Building in a container adds one image at most. -/
theorem buildIn_reaches (c : Container) (diff image : String) :
    ((onTrial kit).buildIn c diff image).Ensures r
      (fun _ r' => ∃ files,
        Reaches (Roster.put FileSet.name ⟨image, files⟩ r.memory.images) r r')
      (fun _ r' => Reaches r.memory.images r r') := by
  refine buildIn_ensures ?_
  refine (run_reaches (.applyPatch c diff) trivial).mono (fun _ r₁ h₁ => ?_)
    (fun _ _ h₁ => h₁)
  refine (run_reaches (.build c) trivial).mono (fun outcome r₂ h₂ => ?_)
    (fun _ _ h₂ => h₁.still h₂)
  have h := h₁.still h₂
  cases outcome with
  | failure output => exact h
  | success =>
    refine (run_effect (.persist c image)).mono (fun _ r₃ h₃ => ?_) (fun _ r₃ h₃ => ?_)
    · obtain ⟨hevents, hrecords, files, himages⟩ := h₃
      rw [h.images] at himages
      exact ⟨files, h.trans ⟨hrecords, himages, _, hevents, by simp⟩⟩
    · exact h.still ⟨h₃.2.1, h₃.2.2, _, h₃.1, by simp⟩

/-- Building an image changes nothing but that image, and that only if it succeeds. -/
theorem buildImage_reaches (diff image : String) :
    ((onTrial kit).buildImage s diff image).Ensures r
      (fun _ r' => ∃ files,
        Reaches (Roster.put FileSet.name ⟨image, files⟩ r.memory.images) r r')
      (fun _ r' => Reaches r.memory.images r r') := by
  refine buildImage_ensures ?_
  refine (run_reaches (.provision s) trivial).mono (fun c r₁ h₁ => ?_) (fun _ _ h₁ => h₁)
  have hdestroy (r₂ : Trial) := run_reaches (r := r₂) (.destroy c) trivial
  refine (buildIn_reaches c diff image).mono (fun _ r₂ h₂ => ?_) (fun _ r₂ h₂ => ?_)
  · obtain ⟨files, h₂⟩ := h₂
    rw [h₁.images] at h₂
    have h := h₁.trans h₂
    exact (hdestroy r₂).mono (fun _ _ h₃ => ⟨files, h.still h₃⟩) (fun _ _ h₃ => ⟨files, h.still h₃⟩)
  · have h := h₁.still h₂
    exact (hdestroy r₂).mono (fun _ _ h₃ => h.still h₃) (fun _ _ h₃ => h.still h₃)

/-- The record is added, or its image is deleted again, or both have failed. -/
theorem addRecord_ends (record : Snapshot) :
    ((onTrial kit).addRecord record).Ensures r
      (fun _ r' => r'.memory.snapshots = Roster.put Snapshot.name record r.memory.snapshots ∧
        r'.memory.images = r.memory.images)
      (fun _ r' => r'.memory.snapshots = r.memory.snapshots ∧ ∃ fault outcome, r'.events =
        r.events ++ [⟨.register record, .error fault⟩, ⟨.deleteImage record.image, outcome⟩] ∧
        r'.memory.images = if outcome.toBool then
            Roster.erase FileSet.name record.image r.memory.images
          else r.memory.images) := by
  refine addRecord_ensures ?_
  refine (run_effect (.register record)).mono (fun _ r₁ h₁ => h₁.2) (fun fault r₁ h₁ => ?_)
  obtain ⟨hevents, hrecords, himages⟩ := h₁
  refine (run_effect (.deleteImage record.image)).mono (fun a r₂ h₂ => ?_) (fun fault' r₂ h₂ => ?_)
  · refine ⟨h₂.2.1.trans hrecords, fault, .ok a, by rw [h₂.1, hevents]; simp, ?_⟩
    rw [show r₂.memory.images = _ from h₂.2.2, himages]
    rfl
  · refine ⟨h₂.2.1.trans hrecords, fault, .error fault', by rw [h₂.1, hevents]; simp, ?_⟩
    exact h₂.2.2.trans himages

/-- A diff is made by reading: records, images and mutants stay. -/
theorem diffOf_reaches {ms : List Mutation} (t : Session Trial) :
    ((onTrial kit).diffOf s ms).Ensures t
      (fun _ t' => Reaches t.store.memory.images t.store t'.store ∧ t'.registry = t.registry)
      (fun _ t' => Reaches t.store.memory.images t.store t'.store ∧ t'.registry = t.registry) := by
  refine diffOf_ensures (fun path t₁ h₁ => ?_) ⟨.refl _, rfl⟩
  refine Session.readSource_ensures (fun _ _ => h₁) fun _ => ?_
  exact (run_reaches (.fileText s path) trivial).mono (fun _ _ h₂ => ⟨h₁.1.still h₂, h₁.2⟩)
    (fun _ _ h₂ => ⟨h₁.1.still h₂, h₁.2⟩)

/-- Making a mutant whose names are not in use, however the calls fail. If it succeeds, there is one
record, one image and one mutant more, each the last. If it fails, all is as before, but for the new
image if the record could not be added and the image not be deleted. The image of the snapshot is
the same in both cases. -/
theorem generate_whole (kit : Toolkit) (t : Session Trial) (s : Snapshot) (ms : List Mutation)
    (hfresh : t.store.memory.Gone (kit.nextMutant t)) :
    let u := kit.nextMutant t
    let record := s.derive u.snapshotName u.imageName
    ((onTrial kit).generate s ms).Ensures t
      (fun m t' => m = ⟨u, s.name, ms⟩ ∧ Grown record m t t' ∧ ImageKept s.image t t')
      (fun _ t' => Undone record t t' ∧ ImageKept s.image t t') := by
  intro u record
  have himage : Roster.find? FileSet.name u.imageName t.store.memory.images = none := by
    have h := hfresh.2
    rw [MemoryStore.hasImage, Roster.has_eq_isSome_find?] at h
    simpa using h
  have hrecord : Roster.find? Snapshot.name record.name t.store.memory.snapshots = none := hfresh.1
  refine generate_ensures (fun _ => Undone.of_reaches (.refl _) rfl)
    (fun _ => Undone.of_reaches (.refl _) rfl) fun _ _ => ?_
  refine (diffOf_reaches t.drawn).mono (fun diff t₁ h₁ => ?_)
    (fun _ _ h₁ => Undone.of_reaches h₁.1 h₁.2)
  obtain ⟨(h₁ : Reaches t.store.memory.images t.store t₁.store), hregistry⟩ := h₁
  refine (buildImage_reaches _ u.imageName).mono (fun _ r₂ h₂ => ?_)
    (fun _ r₂ h₂ => Undone.of_reaches (h₁.still h₂) hregistry)
  obtain ⟨files, h₂⟩ := h₂
  rw [h₁.images, Roster.put_of_absent himage] at h₂
  have h := h₁.trans h₂
  refine (addRecord_ends record).mono (fun _ r₃ h₃ => ?_) (fun fault r₃ h₃ => ?_)
  · obtain ⟨hrecords, himages⟩ := h₃
    rw [h.records, Roster.put_of_absent hrecord] at hrecords
    rw [h.images] at himages
    exact ⟨rfl, ⟨congrArg (· ++ _) hregistry, hrecords, files, himages⟩,
      .of_isPrefix ⟨_, himages.symm⟩⟩
  · obtain ⟨hrecords, fault', outcome, hevents, himages⟩ := h₃
    obtain ⟨calls, hcalls, -⟩ := h.calls
    rw [hcalls, List.append_assoc] at hevents
    rw [h.images] at himages
    exact Undone.of_ends hregistry (hrecords.trans h.records) hevents himages rfl himage

namespace OrphanSample

def base : Snapshot := { name := "base", image := "image" }

def tools : Toolkit := { catalogue := .empty, matcher := fun _ _ => .ok [] }

/-- The sixth call and the seventh fail: adding the record and deleting the image. -/
def start : Session Trial where
  store := ⟨⟨{ snapshots := [base], images := [⟨"image", [("f", "x\n")]⟩] },
    List.replicate 5 none ++ List.replicate 2 (some (.unexpected "down"))⟩, []⟩

end OrphanSample

/-- A mutant whose record could not be written leaves its image behind. -/
theorem generate_whole_orphan :
    let u := OrphanSample.tools.nextMutant OrphanSample.start
    let record := OrphanSample.base.derive u.snapshotName u.imageName
    OrphanSample.start.store.memory.Gone u ∧
      ((onTrial OrphanSample.tools).generate OrphanSample.base []).Ensures OrphanSample.start
        (fun _ _ => False)
        (fun _ t' => Undone record OrphanSample.start t' ∧
          t'.store.memory.images.map FileSet.name = ["image", u.imageName]) := by
  intro u record
  have hgone : OrphanSample.start.store.memory.Gone u :=
    ⟨by decide +kernel, by decide +kernel⟩
  have hnames : ((onTrial OrphanSample.tools).generate OrphanSample.base []).Ensures
      OrphanSample.start (fun _ _ => False)
      (fun _ t' => t'.store.memory.images.map FileSet.name = ["image", u.imageName]) := by
    decide +kernel
  have hwhole := generate_whole OrphanSample.tools OrphanSample.start OrphanSample.base [] hgone
  exact ⟨hgone, (hnames.and hwhole).mono (fun _ _ h => h.1) (fun _ _ h => ⟨h.2.1, h.1⟩)⟩

end Installation

end Mutagenesis
