import Mutagenesis.Proofs.TrialCalls

/-!
# What becomes of a mutant

What the parts of an operation do to the record and the image of one mutant, on a backend whose
calls may fail. Making a mutant leaves both, or leaves neither unless its image could not be deleted
(`buildImage_leaves`, `addRecord_leaves`). Releasing it, alone or with others, leaves neither unless
a call that should have deleted one of them has failed (`release_ends`, `releases_end`). All other
mutants stay as they are.
-/

set_option autoImplicit false

namespace Mutagenesis

open Trial (run_leaves run_same run_quiet lookup_found deregister_leaves deleteImage_leaves
  deregister_same deleteImage_same)

/-- The mutant is cleared; its records are paired if they were. -/
structure Ended (u : MutantId) (r r' : Trial) : Prop where
  paired : r.memory.Paired u → r'.memory.Paired u
  cleared : Cleared u r'

section

variable {u : MutantId} {r r₁ r₂ : Trial}

theorem Same.ended (h₁ : Same u r r₁) (h₂ : Ended u r₁ r₂) : Ended u r r₂ :=
  ⟨h₂.paired ∘ h₁.paired, h₂.cleared⟩

theorem Ended.same (h₁ : Ended u r r₁) (h₂ : Same u r₁ r₂) : Ended u r r₂ :=
  ⟨h₂.paired ∘ h₁.paired, h₂.cleared h₁.cleared⟩

theorem Ended.trans (h₁ : Ended u r r₁) (h₂ : Ended u r₁ r₂) : Ended u r r₂ :=
  ⟨h₂.paired ∘ h₁.paired, h₂.cleared⟩

end

namespace Installation

variable {kit : Toolkit} {u v : MutantId} {r : Trial} {s : Snapshot}

/-- An installation with the backend in memory on trial. -/
def onTrial (kit : Toolkit) : Installation Trial :=
  { kit with backend := trialBackend }

theorem nextMutant_onTrial (kit : Toolkit) (t : Session Trial) :
    (onTrial kit).nextMutant t = kit.nextMutant t :=
  rfl

/-! ## Making a mutant -/

/-- The only change is the image of the mutant that is made. -/
theorem buildIn_leaves (u : MutantId) (c : Container) (diff : String) :
    ((onTrial kit).buildIn c diff v.imageName).Ensures r
      (fun _ r' => Leaves u (r.memory.record? u) (decide (v = u) || r.memory.hasImage u) r r')
      (fun _ r' => Same u r r') := by
  refine buildIn_ensures ?_
  refine (run_quiet u (.applyPatch c diff) trivial).mono (fun _ r₁ h₁ => ?_) (fun _ _ h₁ => h₁)
  refine (run_quiet u (.build c) trivial).mono
    (fun outcome r₂ h₂ => ?_) (fun _ _ h₂ => h₁.same h₂)
  cases outcome with
  | failure output => exact h₁.same h₂
  | success =>
    have h := h₁.same h₂
    refine (run_leaves u (.persist c v.imageName) trivial).mono (fun _ r₃ h₃ => ?_)
      (fun _ _ h₃ => h.same h₃.1)
    simp only [Call.onRecord, Call.onImage, MutantId.imageName_inj, h.record, h.image] at h₃
    exact h.trans h₃

/-- Building an image brings the mutant its image, or changes nothing. -/
theorem buildImage_leaves (u : MutantId) (diff : String) :
    ((onTrial kit).buildImage s diff v.imageName).Ensures r
      (fun _ r' => Leaves u (r.memory.record? u) (decide (v = u) || r.memory.hasImage u) r r')
      (fun _ r' => Same u r r') := by
  refine buildImage_ensures ?_
  refine (run_quiet u (.provision s) trivial).mono (fun c r₁ h₁ => ?_) (fun _ _ h₁ => h₁)
  have hdestroy (r₂ : Trial) := run_quiet (r := r₂) u (.destroy c) trivial
  refine (buildIn_leaves u c diff).mono (fun _ r₂ h₂ => ?_) (fun _ r₂ h₂ => ?_)
  · rw [h₁.record, h₁.image] at h₂
    have h := h₁.trans h₂
    exact (hdestroy r₂).mono (fun _ _ h₃ => h.same h₃) (fun _ _ h₃ => h.same h₃)
  · have h := h₁.same h₂
    exact (hdestroy r₂).mono (fun _ _ h₃ => h.same h₃) (fun _ _ h₃ => h.same h₃)

/-- Other mutants are not concerned by the record of a mutant. -/
theorem addRecord_same (hu : v ≠ u) :
    ((onTrial kit).addRecord (s.derive v.snapshotName v.imageName)).Ensures r
      (fun _ r' => Same u r r') (fun _ r' => Same u r r') := by
  have hpairs : (Call.register (s.derive v.snapshotName v.imageName)).Pairs u := by
    simp [Call.Pairs, Snapshot.derive]
  refine addRecord_ensures ?_
  refine (run_same u (.register _) hpairs (fun _ => if_neg ?_) fun _ => rfl).mono
    (fun _ _ h₁ => h₁) (fun _ r₁ h₁ => ?_)
  · simpa [Snapshot.derive] using hu
  · have himage : v.imageName ≠ u.imageName := by simpa using hu
    exact (deleteImage_same himage).mono (fun _ _ h₂ => h₁.same h₂) (fun _ _ h₂ => h₁.same h₂)

/-- A record is added, or the image is deleted again, or that has failed. -/
theorem addRecord_leaves :
    ((onTrial kit).addRecord (s.derive u.snapshotName u.imageName)).Ensures r
      (fun _ r' => Leaves u (some (s.derive u.snapshotName u.imageName)) (r.memory.hasImage u) r r')
      (fun _ r' => Leaves u (r.memory.record? u) false r r' ∨
        (Same u r r' ∧ Spoiled r'.events u)) := by
  have hpairs : (Call.register (s.derive u.snapshotName u.imageName)).Pairs u := by
    simp [Call.Pairs, Snapshot.derive]
  refine addRecord_ensures ?_
  refine (run_leaves u (.register _) hpairs).mono (fun _ r₁ h₁ => ?_) (fun _ r₁ h₁ => ?_)
  · simpa [Call.onRecord, Call.onImage, Snapshot.derive] using h₁
  · refine deleteImage_leaves.mono (fun _ r₂ h₂ => ?_) (fun _ r₂ h₂ => ?_)
    · rw [h₁.1.record] at h₂
      exact Or.inl (h₁.1.trans h₂)
    · exact Or.inr ⟨h₁.1.same h₂.1, h₂.2⟩

/-! ## Deleting mutants -/

theorem release_same {m : Mutant} (hu : m.id ≠ u) :
    ((onTrial kit).release m).Ensures r (fun _ r' => Same u r r')
      (fun _ _ => False) := by
  have hname : m.id.snapshotName ≠ u.snapshotName := by simpa using hu
  have himage : m.id.imageName ≠ u.imageName := by simpa using hu
  refine release_ensures (deregister_same hname) fun r₁ h₁ => ?_
  exact (deleteImage_same himage).mono (fun _ _ h₂ => h₁.same h₂) (fun _ _ h₂ => h₁.same h₂)

/-- A mutant that is released has neither record nor image. -/
theorem release_ends {m : Mutant} (hu : m.id = u) :
    ((onTrial kit).release m).Ensures r (fun _ r' => Ended u r r')
      (fun _ _ => False) := by
  subst hu
  -- Between the two calls the record is gone, or its deletion has failed.
  have hrecord : (trialBackend.deregister m.id.snapshotName).Ensures r
      (fun _ r₁ => (r.memory.Paired m.id → r₁.memory.Paired m.id) ∧
        (r₁.memory.record? m.id = none ∨ Spoiled r₁.events m.id))
      (fun _ r₁ => (r.memory.Paired m.id → r₁.memory.Paired m.id) ∧
        (r₁.memory.record? m.id = none ∨ Spoiled r₁.events m.id)) :=
    deregister_leaves.mono (fun _ _ h => ⟨h.paired, Or.inl h.record⟩)
      (fun _ _ h => ⟨h.1.paired, Or.inr h.2⟩)
  refine release_ensures hrecord fun r₁ h₁ => ?_
  refine deleteImage_leaves.mono (fun _ r₂ h₂ => ?_) (fun _ r₂ h₂ => ?_)
  · refine ⟨h₂.paired ∘ h₁.1, h₁.2.imp (fun hnone => ?_) h₂.spoiled⟩
    exact ⟨h₂.record.trans hnone, h₂.image⟩
  · exact ⟨h₂.1.paired ∘ h₁.1, Or.inr h₂.2⟩

theorem releases_same {ms : List Mutant} (hu : ∀ m ∈ ms, m.id ≠ u) :
    (ms.forM (onTrial kit).release).Ensures r (fun _ r' => Same u r r')
      (fun _ _ => False) :=
  Action.ensures_forM (Same.refl u r) fun m hm _ h₁ =>
    (release_same (hu m hm)).mono (fun _ _ h₂ => h₁.same h₂) (fun _ _ h => h)

/-- A mutant among those that are released has ended after all are released. -/
theorem releases_end {ms : List Mutant} (hu : ∃ m ∈ ms, m.id = u) :
    (ms.forM (onTrial kit).release).Ensures r (fun _ r' => Ended u r r')
      (fun _ _ => False) := by
  induction ms generalizing r with
  | nil => simp at hu
  | cons m rest ih =>
    change ((onTrial kit).release m >>= fun _ =>
      rest.forM (onTrial kit).release).Ensures r _ _
    rw [Action.ensures_bind]
    by_cases hrest : ∃ m ∈ rest, m.id = u
    · by_cases hm : m.id = u
      · refine (release_ends hm).mono (fun _ r₁ h₁ => ?_) (fun _ _ h => h)
        exact (ih hrest).mono (fun _ _ h₂ => h₁.trans h₂) (fun _ _ h => h)
      · refine (release_same hm).mono (fun _ r₁ h₁ => ?_) (fun _ _ h => h)
        exact (ih hrest).mono (fun _ _ h₂ => Same.ended h₁ h₂) (fun _ _ h => h)
    · have hm : m.id = u := by
        obtain ⟨m', hm', hid⟩ := hu
        rcases List.mem_cons.mp hm' with rfl | hm'
        · exact hid
        · exact absurd ⟨m', hm', hid⟩ hrest
      refine (release_ends hm).mono (fun _ r₁ h₁ => ?_) (fun _ _ h => h)
      have hothers : ∀ m ∈ rest, m.id ≠ u := fun m hm hid => hrest ⟨m, hm, hid⟩
      exact (releases_same hothers).mono (fun _ _ h₂ => h₁.same h₂) (fun _ _ h => h)

/-- Discarding what is kept of another mutant deletes nothing of a mutant whose records are
paired. -/
theorem discardKept_same (hu : v ≠ u) (hpaired : r.memory.Paired u) :
    ((onTrial kit).discardKept v).Ensures r (fun _ r' => Same u r r')
      (fun _ r' => Same u r r') := by
  have hname : v.snapshotName ≠ u.snapshotName := by simpa using hu
  refine discardKept_ensures ?_
  refine (lookup_found v.snapshotName).mono (fun record r₁ h₁ => ?_) (fun _ _ h₁ _ => h₁)
  obtain ⟨hfound, h₁⟩ := h₁
  refine (deregister_same hname).mono (fun _ r₂ h₂ => ?_) (fun _ _ h₂ => h₁.same h₂)
  have himage : record.image ≠ u.imageName := by
    have hrecord : record.name = v.snapshotName := by simpa using List.find?_some hfound
    rw [Ne, ← hpaired record (List.mem_of_find?_eq_some hfound), hrecord]
    exact hname
  have h := h₁.same h₂
  exact (deleteImage_same himage).mono (fun _ _ h₃ => h.same h₃) (fun _ _ h₃ => h.same h₃)

/-- Discarding what is kept of a mutant ends it, unless it fails before anything is deleted. -/
theorem discardKept_ends (hpaired : r.memory.Paired u) :
    ((onTrial kit).discardKept u).Ensures r (fun _ r' => Ended u r r')
      (fun _ r' => Same u r r' ∨ Ended u r r') := by
  refine discardKept_ensures ?_
  refine (lookup_found u.snapshotName).mono (fun record r₁ h₁ => ?_) (fun _ _ h₁ _ => Or.inl h₁)
  obtain ⟨hfound, h₁⟩ := h₁
  refine deregister_leaves.mono (fun _ r₂ h₂ => ?_) (fun _ _ h₂ => Or.inl (h₁.same h₂.1))
  have himage : record.image = u.imageName := hpaired.of_record? hfound
  have h := h₁.trans h₂
  change (trialBackend.deleteImage record.image).Ensures r₂ _ _
  rw [himage]
  refine deleteImage_leaves.mono (fun _ r₃ h₃ => ?_) (fun _ r₃ h₃ => ?_)
  · rw [h.record] at h₃
    exact ⟨h₃.paired ∘ h.paired, Or.inl h₃.gone⟩
  · exact Or.inr ⟨h₃.1.paired ∘ h.paired, Or.inr h₃.2⟩

end Installation

end Mutagenesis
