import Mutagenesis.Proofs.MutantFate

/-!
# Runs of operations

A run is a sequence of operations of one installation, each of which may succeed or fail, and of
which each call of the backend may fail. What one operation can do is said once (`Moves`,
`perform_moves`); that records, images and the registry agree after a run follows by induction on
its operations (`Consistent`, `run_keeps`).
-/

set_option autoImplicit false

namespace Mutagenesis

open Trial (run_quiet)

/-- An operation with its arguments. -/
inductive Operation where
  | mutate (name : String) (ms : List Mutation)
  | deleteMutant (id : MutantId)
  | discardMutant (id : MutantId)
  | clearMutants
  | snapshot (name : String)
  | findMutations (s : Snapshot) (path : String) (filter : SearchFilter)
  | mutations (name path : String) (filter : SearchFilter)
  | replacements (name : String) (ms : List Mutation)
  | diff (name : String) (ms : List Mutation)
  | mutant (id : MutantId)
  | mutants

/-- What an operation that has succeeded did to the registered mutants. -/
inductive RegistryEdit where
  | created (m : Mutant)
  | removed (id : MutantId)
  | cleared
  deriving DecidableEq, Repr

namespace RegistryEdit

/-- The registry after a change. -/
def applyTo (registry : Registry) : Option RegistryEdit → Registry
  | none => registry
  | some (created m) => registry ++ [m]
  | some (removed id) => registry.filter (·.id ≠ id)
  | some cleared => []

/-- The change takes the mutant with the id away. -/
def takes (id : MutantId) : RegistryEdit → Bool
  | created _ => false
  | removed id' => id' = id
  | cleared => true

/-- The mutants created in a sequence of changes and not taken away after that, in the order of
their creation. -/
def survivors : List RegistryEdit → List Mutant
  | [] => []
  | created m :: later =>
    if later.any (takes m.id) then survivors later else m :: survivors later
  | _ :: later => survivors later

/-- What is registered after changes: the mutants of before that no change takes away, and then
the survivors. -/
def remaining (registry : Registry) (changes : List RegistryEdit) : Registry :=
  registry.filter (fun m => !changes.any (takes m.id)) ++ survivors changes

theorem remaining_nil (registry : Registry) : remaining registry [] = registry := by
  simp [remaining, survivors]

/-- Changes that follow a change act on what the change has left. -/
theorem remaining_applyTo (registry : Registry) (change : Option RegistryEdit)
    (later : List RegistryEdit) :
    remaining (applyTo registry change) later = remaining registry (change.toList ++ later) := by
  match change with
  | none => rfl
  | some (created m) =>
    unfold remaining applyTo
    rw [List.filter_append, List.append_assoc]
    by_cases hm : later.any (takes m.id)
    · simp [survivors, takes, hm]
    · simp [survivors, takes, hm]
  | some (removed id) =>
    unfold remaining applyTo
    rw [List.filter_filter]
    have htakes : ∀ m : Mutant, (!later.any (takes m.id) && decide (m.id ≠ id)) =
        !(removed id :: later).any (takes m.id) := by
      intro m
      simp [takes, Bool.and_comm, eq_comm]
    exact congrArg (· ++ survivors later) (List.filter_congr fun m _ => htakes m)
  | some cleared => simp [remaining, applyTo, survivors, takes]

end RegistryEdit

namespace Installation

variable {σ : Type}

/-- Carries an operation out, and says what it did to the registered mutants. -/
def perform (i : Installation σ) : Operation → Action (Session σ) (Option RegistryEdit)
  | .mutate name ms => do return some (.created (← i.mutate name ms))
  | .deleteMutant id => do return some (.removed (← i.deleteMutant id).id)
  | .discardMutant id => do
    i.discardMutant id
    return some (.removed id)
  | .clearMutants => do
    i.clearMutants
    return some .cleared
  | .snapshot name => do
    discard (i.snapshot name)
    return none
  | .findMutations s path filter => do
    discard (i.findMutations s path filter)
    return none
  | .mutations name path filter => do
    discard (i.mutations name path filter)
    return none
  | .replacements name ms => do
    discard (i.replacements name ms)
    return none
  | .diff name ms => do
    discard (i.diff name ms)
    return none
  | .mutant id => do
    discard (i.mutant id)
    return none
  | .mutants => do
    let _ := (← get).registry
    return none

/-- The state after an operation, and what the operation did if it succeeded. -/
def step (i : Installation σ) (op : Operation) (t : Session σ) : Session σ × Option RegistryEdit :=
  match i.perform op t with
  | .ok change t' => (t', change)
  | .error _ t' => (t', none)

/-- The state after a run, and what its operations did. -/
def run (i : Installation σ) : List Operation → Session σ → Session σ × List RegistryEdit
  | [], t => (t, [])
  | op :: ops, t =>
    let (t', change) := i.step op t
    let (final, changes) := i.run ops t'
    (final, change.toList ++ changes)

theorem run_cons (i : Installation σ) (op : Operation) (ops : List Operation) (t : Session σ) :
    i.run (op :: ops) t =
      ((i.run ops (i.step op t).1).1, (i.step op t).2.toList ++ (i.run ops (i.step op t).1).2) :=
  rfl

end Installation

/-- Whenever a run draws an id, nothing in the backend uses it. -/
def FreshRun (i : Installation Trial) : List Operation → Session Trial → Prop
  | [], _ => True
  | op :: ops, t =>
    ((i.step op t).1.nextId ≠ t.nextId → t.store.memory.Unused (i.nextMutant t)) ∧
      FreshRun i ops (i.step op t).1

instance decidableFreshRun (i : Installation Trial) :
    (ops : List Operation) → (t : Session Trial) → Decidable (FreshRun i ops t)
  | [], _ => isTrue trivial
  | op :: ops, t =>
    have := decidableFreshRun i ops (i.step op t).1
    inferInstanceAs (Decidable (_ ∧ _))

variable {id : MutantId}

namespace Registry

/-- A mutant that is added is in the registry. -/
theorem has_append (registry : Registry) (m : Mutant) (u : MutantId) :
    has (registry ++ [m]) u = (registry.has u || decide (m.id = u)) := by
  simp [has]

/-- A mutant that is removed is no longer in the registry. -/
theorem has_filter (registry : Registry) (id u : MutantId) :
    has (registry.filter (·.id ≠ id)) u = (decide (id ≠ u) && registry.has u) := by
  unfold has
  rw [Bool.eq_iff_iff]
  simp only [List.any_filter, Bool.and_eq_true, List.any_eq_true, decide_eq_true_eq]
  constructor
  · rintro ⟨m, hm, hid, rfl⟩
    exact ⟨Ne.symm hid, m, hm, rfl⟩
  · rintro ⟨hid, m, hm, rfl⟩
    exact ⟨m, hm, Ne.symm hid, rfl⟩

theorem filter_of_not_has {registry : Registry} (h : registry.has id = false) :
    registry.filter (·.id ≠ id) = registry := by
  unfold has at h
  rw [List.any_eq_false] at h
  exact List.filter_eq_self.mpr fun m hm => by simpa using h m hm

/-- A mutant is found under its own id. -/
theorem id_of_get {registry : Registry} {m : Mutant} (h : registry.get id = .ok m) : m.id = id := by
  unfold get at h
  split at h
  · next found hfound =>
    cases h
    simpa using List.find?_some hfound
  · cases h

/-- What cannot be found is not in the registry. -/
theorem has_of_get_error {registry : Registry} {fault : Fault}
    (h : registry.get id = .error fault) : registry.has id = false := by
  unfold get at h
  split at h
  · cases h
  · next hnone =>
    unfold has
    rw [List.any_eq_false]
    exact List.find?_eq_none.mp hnone

end Registry

/-! ## What one operation can do -/

/-- The records of the mutant are paired; a registered mutant is intact, any other is cleared. -/
structure Kept (u : MutantId) (t : Session Trial) : Prop where
  paired : t.store.memory.Paired u
  intact : t.registry.has u = true → t.store.memory.Intact u
  cleared : t.registry.has u = false → Cleared u t.store

/-- A mutant with paired records is as before and registered as before, or it has ended and is not
registered. -/
def Follows (u : MutantId) (t t' : Session Trial) : Prop :=
  t.store.memory.Paired u →
    (t'.registry.has u = t.registry.has u ∧ Same u t.store t'.store) ∨
      (t'.registry.has u = false ∧ Ended u t.store t'.store)

/-- What an operation can do to the registry, to ids, and to one mutant. -/
structure Moves (kit : Toolkit) (u : MutantId) (t t' : Session Trial)
    (change : Option RegistryEdit) : Prop where
  registry : t'.registry = RegistryEdit.applyTo t.registry change
  nextId : t'.nextId = t.nextId ∨ t'.nextId = t.nextId + 1
  created : ∀ m, change = some (.created m) → m.id = kit.nextMutant t ∧ t'.nextId = t.nextId + 1
  follows : t'.nextId = t.nextId ∨ kit.nextMutant t ≠ u → Follows u t t'
  made : t'.nextId = t.nextId + 1 → kit.nextMutant t = u → t.registry.has u = false →
    t.store.memory.Paired u → t.store.memory.Gone u → Kept u t'

section

variable {kit : Toolkit} {u : MutantId} {t t' : Session Trial}

/-- What was kept for an id stays kept in a state that follows. -/
theorem Kept.follows (h : Kept u t) (hfollows : Follows u t t') : Kept u t' := by
  rcases hfollows h.paired with ⟨hregistered, hsame⟩ | ⟨hregistered, hended⟩
  · refine ⟨hsame.paired h.paired, fun hhas => ?_, fun hhas => ?_⟩
    · exact hsame.intact (h.intact (hregistered ▸ hhas))
    · exact hsame.cleared (h.cleared (hregistered ▸ hhas))
  · refine ⟨hended.paired h.paired, fun hhas => ?_, fun _ => hended.cleared⟩
    rw [hregistered] at hhas
    cases hhas

theorem Follows.of_same (hregistry : t'.registry = t.registry) (hsame : Same u t.store t'.store) :
    Follows u t t' :=
  fun _ => Or.inl ⟨by rw [hregistry], hsame⟩

variable {change : Option RegistryEdit}

/-- An operation that draws no id moves a mutant on if what becomes of the mutant follows. -/
theorem Moves.of_follows (hregistry : t'.registry = RegistryEdit.applyTo t.registry change)
    (hnext : t'.nextId = t.nextId) (hcreated : ∀ m, change ≠ some (.created m))
    (hfollows : Follows u t t') :
    Moves kit u t t' change where
  registry := hregistry
  nextId := Or.inl hnext
  created m hm := absurd hm (hcreated m)
  follows _ := hfollows
  made h := by omega

/-- The cached sources do not matter. -/
theorem Moves.withSources (h : Moves kit u t t' change) (sources : SourceCache) :
    Moves kit u t { t' with sources := sources } change where
  registry := h.registry
  nextId := h.nextId
  created := h.created
  follows := h.follows
  made hnext hu hhas hpaired hgone :=
    have hkept := h.made hnext hu hhas hpaired hgone
    ⟨hkept.paired, hkept.intact, hkept.cleared⟩

/-- Nothing but cached sources, the log and the plan of failures is changed. -/
structure Still (u : MutantId) (t t' : Session Trial) : Prop where
  registry : t'.registry = t.registry
  nextId : t'.nextId = t.nextId
  same : Same u t.store t'.store

theorem Still.refl (u : MutantId) (t : Session Trial) : Still u t t :=
  ⟨rfl, rfl, Same.refl u t.store⟩

theorem Still.moves (h : Still u t t') : Moves kit u t t' none :=
  Moves.of_follows h.registry h.nextId nofun (Follows.of_same h.registry h.same)

theorem Still.nextMutant (h : Still u t t') : kit.nextMutant t' = kit.nextMutant t := by
  unfold Toolkit.nextMutant
  rw [h.nextId]

/-- What moves after nothing has changed moves from the start. -/
theorem Still.trans_moves {t₁ : Session Trial} (h : Still u t t₁)
    (hmoves : Moves kit u t₁ t' change) : Moves kit u t t' change where
  registry := by rw [hmoves.registry, h.registry]
  nextId := by
    rw [← h.nextId]
    exact hmoves.nextId
  created m hm := by
    rw [← h.nextMutant, ← h.nextId]
    exact hmoves.created m hm
  follows hdrawn hpaired := by
    rw [← h.nextMutant, ← h.nextId] at hdrawn
    refine (hmoves.follows hdrawn (h.same.paired hpaired)).imp (fun hkeeps => ?_) (fun hends => ?_)
    · exact ⟨hkeeps.1.trans (by rw [h.registry]), h.same.same hkeeps.2⟩
    · exact ⟨hends.1, h.same.ended hends.2⟩
  made hnext hu hhas hpaired hgone := by
    rw [← h.nextId] at hnext
    rw [← h.nextMutant] at hu
    refine hmoves.made hnext hu (by rw [h.registry, hhas]) (h.same.paired hpaired) ?_
    exact ⟨h.same.record.trans hgone.1, h.same.image.trans hgone.2⟩

end

namespace Installation

variable {kit : Toolkit} {u : MutantId} {t t' : Session Trial}

/-- All that reads leaves everything about an id still. -/
theorem reading_still (u : MutantId) (t : Session Trial) :
    (onTrial kit).ReadingKeeps (fun _ => True) (Still u t) where
  lookup name t₁ h₁ := by
    rw [snapshot_ensures]
    exact (run_quiet u (.lookup name) trivial).mono
      (fun _ _ h₂ => ⟨trivial, h₁.registry, h₁.nextId, h₁.same.same h₂⟩)
      (fun _ _ h₂ => ⟨h₁.registry, h₁.nextId, h₁.same.same h₂⟩)
  read s path t₁ _ h₁ := by
    refine Session.readSource_ensures (fun _ _ => h₁) fun _ => ?_
    exact (run_quiet u (.fileText s path) trivial).mono
      (fun _ _ h₂ => ⟨h₁.registry, h₁.nextId, h₁.same.same h₂⟩)
      (fun _ _ h₂ => ⟨h₁.registry, h₁.nextId, h₁.same.same h₂⟩)

/-- An id was drawn, and then nothing came of it. -/
theorem moves_of_drawn (hregistry : t'.registry = t.registry) (hnext : t'.nextId = t.nextId + 1)
    (hfollows : kit.nextMutant t ≠ u → Same u t.store t'.store)
    (hmade : kit.nextMutant t = u → (t.store.memory.Paired u → t'.store.memory.Paired u) ∧
      (t.registry.has u = false → t.store.memory.Gone u → Cleared u t'.store)) :
    Moves kit u t t' none where
  registry := hregistry
  nextId := Or.inr hnext
  created _ := nofun
  follows h := Follows.of_same hregistry (hfollows (h.resolve_left (by omega)))
  made _ hu hhas hpaired hgone := by
    obtain ⟨hpaired', hcleared⟩ := hmade hu
    refine ⟨hpaired' hpaired, fun h => ?_, fun _ => hcleared hhas hgone⟩
    rw [hregistry, hhas] at h
    cases h

/-- Drawing an id for nothing moves the ids on only. -/
theorem moves_of_drawn_same (hregistry : t'.registry = t.registry)
    (hnext : t'.nextId = t.nextId + 1) (hsame : Same u t.store t'.store) : Moves kit u t t' none :=
  moves_of_drawn hregistry hnext (fun _ => hsame)
    (fun _ => ⟨hsame.paired, fun _ hgone => hsame.cleared (Or.inl hgone)⟩)

/-- A mutant was made and registered. -/
theorem moves_of_made {m : Mutant} (hm : m.id = kit.nextMutant t)
    (hregistry : t'.registry = t.registry ++ [m]) (hnext : t'.nextId = t.nextId + 1)
    (hfollows : kit.nextMutant t ≠ u → Same u t.store t'.store)
    (hmade : kit.nextMutant t = u →
      (t.store.memory.Paired u → t'.store.memory.Paired u) ∧ t'.store.memory.Intact u) :
    Moves kit u t t' (some (.created m)) where
  registry := hregistry
  nextId := Or.inr hnext
  created m' hm' := by
    cases hm'
    exact ⟨hm, hnext⟩
  follows h := by
    have hu : kit.nextMutant t ≠ u := h.resolve_left (by omega)
    refine fun _ => Or.inl ⟨?_, hfollows hu⟩
    simp [hregistry, Registry.has_append, hm, hu]
  made _ hu _ hpaired _ := by
    obtain ⟨hpaired', hintact⟩ := hmade hu
    refine ⟨hpaired' hpaired, fun _ => hintact, fun h => ?_⟩
    simp [hregistry, Registry.has_append, hm, hu] at h

/-- Generating moves as creating the mutant, or as nothing if it fails. -/
theorem generate_moves {s : Snapshot} {ms : List Mutation} :
    ((onTrial kit).generate s ms).Ensures t
      (fun m t' => Moves kit u t t' (some (.created m))) (fun _ t' => Moves kit u t t' none) := by
  refine generate_ensures (fun _ => (Still.refl u t).moves) (fun hused => ?_) (fun _ hfree => ?_)
  · exact moves_of_drawn rfl rfl (fun _ => Same.refl u t.store)
      (fun hu => ⟨id, fun hhas => absurd (hu ▸ hused) (by simp [hhas])⟩)
  rw [nextMutant_onTrial]
  have hdiff : ((onTrial kit).diffOf s ms).Ensures t.drawn
      (fun _ t₁ => Still u t.drawn t₁) (fun _ t₁ => Still u t.drawn t₁) :=
    diffOf_ensures (fun path t₁ h₁ => (reading_still u t.drawn).read s path t₁ trivial h₁)
      (Still.refl u t.drawn)
  refine hdiff.mono (fun diff t₁ h₁ => ?_)
    (fun _ t₁ h₁ => moves_of_drawn_same h₁.registry h₁.nextId h₁.same)
  have hsame : Same u t.store t₁.store := h₁.same
  refine (buildImage_leaves u (String.ofList diff)).mono (fun _ r₁ h₂ => ?_)
    (fun _ r₁ h₂ => moves_of_drawn_same h₁.registry h₁.nextId (hsame.same h₂))
  rw [hsame.record, hsame.image] at h₂
  have himage := hsame.trans h₂
  by_cases hu : kit.nextMutant t = u
  · -- The mutant that is made: its image is there, and its record is added next.
    subst hu
    rw [decide_eq_true rfl, Bool.true_or] at himage
    refine addRecord_leaves.mono (fun _ r₂ h₃ => ?_) (fun _ r₂ h₃ => ?_)
    · rw [himage.image] at h₃
      have h := himage.trans h₃
      exact moves_of_made rfl (congrArg (· ++ _) h₁.registry) h₁.nextId (fun hne => absurd rfl hne)
        (fun _ => ⟨h.paired, ⟨_, h.record, rfl⟩, h.image⟩)
    · refine moves_of_drawn h₁.registry h₁.nextId (fun hne => absurd rfl hne) fun _ => ?_
      rcases h₃ with h₃ | ⟨h₃, hspoiled⟩
      · rw [himage.record] at h₃
        have h := himage.trans h₃
        exact ⟨h.paired, fun _ hgone => Or.inl ⟨h.record.trans hgone.1, h.image⟩⟩
      · exact ⟨(himage.same h₃).paired, fun _ _ => Or.inr hspoiled⟩
  · rw [decide_eq_false hu, Bool.false_or] at himage
    refine (addRecord_same hu).mono (fun _ r₂ h₃ => ?_) (fun _ r₂ h₃ => ?_)
    · exact moves_of_made rfl (congrArg (· ++ _) h₁.registry) h₁.nextId
        (fun _ => himage.same h₃) (fun h => absurd h hu)
    · exact moves_of_drawn_same h₁.registry h₁.nextId (himage.same h₃)

/-- Mutating moves as creating the mutant, or as nothing if it fails. -/
theorem mutate_moves {name : String} {ms : List Mutation} :
    ((onTrial kit).mutate name ms).Ensures t
      (fun m t' => Moves kit u t t' (some (.created m))) (fun _ t' => Moves kit u t t' none) := by
  unfold mutate
  rw [Action.ensures_bind]
  refine ((reading_still u t).lookup name t (Still.refl u t)).mono (fun s t₁ h₁ => ?_)
    (fun _ _ h₁ => h₁.moves)
  exact generate_moves.mono (fun _ _ h₂ => h₁.2.trans_moves h₂)
    (fun _ _ h₂ => h₁.2.trans_moves h₂)

/-- Removing a mutant ends it; all others stay as they are. -/
theorem remove_moves :
    ((onTrial kit).remove id).Ensures t
      (fun m t' => m.id = id ∧ Moves kit u t t' (some (.removed id)))
      (fun _ t' => t.registry.has id = false ∧ Moves kit u t t' none) := by
  refine remove_ensures (fun fault hget => ?_) (fun m hget => ?_)
  · exact ⟨Registry.has_of_get_error hget, (Still.refl u t).moves⟩
  · have hid : m.id = id := Registry.id_of_get hget
    by_cases hu : m.id = u
    · refine (release_ends hu).mono (fun _ r' h => ⟨hid, ?_⟩) (fun _ _ h => h.elim)
      refine Moves.of_follows rfl rfl nofun fun _ => Or.inr ⟨?_, h⟩
      change Registry.has (t.registry.filter (·.id ≠ id)) u = _
      rw [Registry.has_filter, ← hid]
      simp [hu]
    · refine (release_same hu).mono (fun _ r' h => ⟨hid, ?_⟩) (fun _ _ h => h.elim)
      refine Moves.of_follows rfl rfl nofun fun _ => Or.inl ⟨?_, h⟩
      change Registry.has (t.registry.filter (·.id ≠ id)) u = _
      rw [Registry.has_filter, ← hid]
      simp [hu]

/-- Deleting moves as removing the mutant, or as nothing if it fails. -/
theorem deleteMutant_moves :
    ((onTrial kit).deleteMutant id).Ensures t
      (fun m t' => Moves kit u t t' (some (.removed m.id)))
      (fun _ t' => Moves kit u t t' none) := by
  refine deleteMutant_ensures (remove_moves.mono (fun m t₁ h₁ => ?_) (fun _ _ h₁ => h₁.2))
  rw [h₁.1]
  exact h₁.2.withSources _

/-- Discarding what is kept of a mutant leaves all others, and it or ends it. -/
theorem discardKept_follows (u : MutantId) {r : Trial} :
    ((onTrial kit).discardKept id).Ensures r
      (fun _ r' => r.memory.Paired u → Same u r r' ∨ (id = u ∧ Ended u r r'))
      (fun _ r' => r.memory.Paired u → Same u r r' ∨ (id = u ∧ Ended u r r')) := by
  by_cases hpaired : r.memory.Paired u
  · by_cases hu : id = u
    · subst hu
      exact (discardKept_ends hpaired).mono (fun _ _ h _ => Or.inr ⟨rfl, h⟩)
        (fun _ _ h _ => h.imp_right fun hended => ⟨rfl, hended⟩)
    · exact (discardKept_same hu hpaired).mono (fun _ _ h _ => Or.inl h) (fun _ _ h _ => Or.inl h)
  · exact Action.ensures_of_forall (fun _ _ h => absurd h hpaired) (fun _ _ h => absurd h hpaired)

/-- Discarding moves as removing the mutant, or as nothing if it fails. -/
theorem discardMutant_moves :
    ((onTrial kit).discardMutant id).Ensures t
      (fun _ t' => Moves kit u t t' (some (.removed id))) (fun _ t' => Moves kit u t t' none) := by
  refine discardMutant_ensures (fun hhas => ?_) (fun hhas => ?_)
    (fun t₁ (h₁ : Moves kit u t t₁ (some (.removed id))) => h₁.withSources _)
  · exact remove_moves.mono (fun _ _ h => h.2) (fun _ _ h => absurd hhas (by simp [h.1]))
  · have hfollows : ∀ r', (t.store.memory.Paired u → Same u t.store r' ∨
        (id = u ∧ Ended u t.store r')) → Follows u t { t with store := r' } := by
      intro r' h hpaired
      refine (h hpaired).imp (fun hsame => ⟨rfl, hsame⟩) fun hends => ⟨?_, hends.2⟩
      rw [← hends.1]
      exact hhas
    refine (discardKept_follows u).mono (fun _ r' h => ?_) (fun _ r' h => ?_)
    · exact Moves.of_follows (Registry.filter_of_not_has hhas).symm rfl nofun (hfollows r' h)
    · exact Moves.of_follows rfl rfl nofun (hfollows r' h)

/-- Clearing moves as clearing the registry, or as nothing if it fails. -/
theorem clearMutants_moves :
    ((onTrial kit).clearMutants).Ensures t
      (fun _ t' => Moves kit u t t' (some .cleared)) (fun _ t' => Moves kit u t t' none) := by
  refine clearMutants_ensures fun sources _ => ?_
  by_cases hu : ∃ m ∈ t.registry, m.id = u
  · refine (releases_end hu).mono (fun _ r' h => ?_) (fun _ _ h => h.elim)
    exact Moves.of_follows rfl rfl nofun fun _ => Or.inr ⟨rfl, h⟩
  · have hothers : ∀ m ∈ t.registry, m.id ≠ u := fun m hm hid => hu ⟨m, hm, hid⟩
    refine (releases_same hothers).mono (fun _ r' h => ?_) (fun _ _ h => h.elim)
    refine Moves.of_follows rfl rfl nofun fun _ => Or.inl ⟨?_, h⟩
    simpa [Registry.has] using hothers

/-- An operation that only reads moves nothing. -/
theorem moves_of_reading {α : Type} {act : Action (Session Trial) α}
    (h : act.Ensures t (fun _ t' => Still u t t') (fun _ t' => Still u t t')) :
    (discard act >>= fun _ => pure none : Action (Session Trial) (Option RegistryEdit)).Ensures t
      (fun change t' => Moves kit u t t' change) (fun _ t' => Moves kit u t t' none) := by
  rw [Action.ensures_bind, Action.ensures_discard]
  exact h.mono (fun _ _ hstill => hstill.moves) (fun _ _ hstill => hstill.moves)

/-- What an operation does, whether it succeeds or fails. -/
theorem perform_moves (op : Operation) :
    ((onTrial kit).perform op).Ensures t (fun change t' => Moves kit u t t' change)
      (fun _ t' => Moves kit u t t' none) := by
  have hreading : (onTrial kit).ReadingKeeps (fun _ => True) (Still u t) :=
    reading_still u t
  have hstill := Still.refl u t
  unfold perform
  cases op with
  | mutate name ms => exact Action.ensures_bind.mpr mutate_moves
  | deleteMutant id => exact Action.ensures_bind.mpr deleteMutant_moves
  | discardMutant id => exact Action.ensures_bind.mpr discardMutant_moves
  | clearMutants => exact Action.ensures_bind.mpr clearMutants_moves
  | snapshot name => exact moves_of_reading (hreading.snapshot hstill)
  | findMutations s path filter =>
    exact moves_of_reading (findMutations_ensures hreading trivial hstill)
  | mutations name path filter => exact moves_of_reading (mutations_ensures hreading hstill)
  | replacements name ms => exact moves_of_reading (replacements_ensures hreading hstill)
  | diff name ms => exact moves_of_reading (diff_ensures hreading hstill)
  | mutant id =>
    refine moves_of_reading ?_
    unfold mutant
    rw [Action.ensures_bind, Action.ensures_get]
    exact Action.ensures_ofExcept.mpr ⟨fun _ _ => hstill, fun _ _ => hstill⟩
  | mutants => exact hstill.moves

/-- What one operation does to an id is told by its edit of the registry. -/
theorem step_moves (u : MutantId) (op : Operation) (t : Session Trial) :
    Moves kit u t ((onTrial kit).step op t).1
      ((onTrial kit).step op t).2 := by
  have hmoves : ((onTrial kit).perform op).Ensures t
      (fun change t' => Moves kit u t t' change) (fun _ t' => Moves kit u t t' none) :=
    perform_moves op
  unfold Action.Ensures at hmoves
  unfold step
  cases hperform : (onTrial kit).perform op t with
  | ok change t' =>
    rw [hperform] at hmoves
    exact hmoves
  | error fault t' =>
    rw [hperform] at hmoves
    exact hmoves

end Installation

/-! ## What a run keeps -/

/-- The id was drawn since the next one had the number `first`. -/
def Drawn (kit : Toolkit) (first : Nat) (t : Session Trial) (u : MutantId) : Prop :=
  ∃ k, first ≤ k ∧ k < t.nextId ∧ kit.ids k = u

/-- All ids drawn in a run so far are kept, and only such ids are registered. -/
structure Consistent (kit : Toolkit) (first : Nat) (t : Session Trial) : Prop where
  first_le : first ≤ t.nextId
  kept : ∀ u, Drawn kit first t u → Kept u t
  registered : ∀ u, t.registry.has u = true → Drawn kit first t u

section

variable {kit : Toolkit} {first : Nat} {t t' : Session Trial} {change : Option RegistryEdit}
variable {u : MutantId}

theorem Drawn.mono (h : Drawn kit first t u) (hle : t.nextId ≤ t'.nextId) :
    Drawn kit first t' u := by
  obtain ⟨k, hfirst, hk, hu⟩ := h
  exact ⟨k, hfirst, by omega, hu⟩

/-- An id that is drawn is the next one or was drawn before. -/
theorem Drawn.cases (h : Drawn kit first t' u) (hmoves : Moves kit u t t' change) :
    Drawn kit first t u ∨ (t'.nextId = t.nextId + 1 ∧ kit.nextMutant t = u) := by
  obtain ⟨k, hfirst, hk, hu⟩ := h
  by_cases hlt : k < t.nextId
  · exact Or.inl ⟨k, hfirst, hlt, hu⟩
  · have hnext : t'.nextId = t.nextId + 1 := by
      have := hmoves.nextId
      omega
    have hlast : k = t.nextId := by omega
    rw [hlast] at hu
    exact Or.inr ⟨hnext, hu⟩

/-- An id that nothing uses is not registered. -/
theorem Consistent.not_has (h : Consistent kit first t) (hgone : t.store.memory.Gone u) :
    t.registry.has u = false := by
  rw [Bool.eq_false_iff]
  intro hhas
  obtain ⟨⟨record, hrecord, -⟩, -⟩ := (h.kept u (h.registered u hhas)).intact hhas
  rw [hgone.1] at hrecord
  cases hrecord

/-- A step keeps what is kept for each id that was drawn. -/
theorem Consistent.kept_step (h : Consistent kit first t)
    (hfresh : t'.nextId ≠ t.nextId → t.store.memory.Unused (kit.nextMutant t))
    (hmoves : Moves kit u t t' change) (hdrawn : Drawn kit first t' u) : Kept u t' := by
  by_cases hnow : t'.nextId = t.nextId + 1 ∧ kit.nextMutant t = u
  · obtain ⟨hnext, rfl⟩ := hnow
    have hunused := hfresh (by omega)
    exact hmoves.made hnext rfl (h.not_has hunused.gone) hunused.paired hunused.gone
  · have hbefore : Drawn kit first t u := (hdrawn.cases hmoves).resolve_right hnow
    refine (h.kept u hbefore).follows (hmoves.follows ?_)
    refine hmoves.nextId.imp_right fun hnext hu => ?_
    exact hnow ⟨hnext, hu⟩

/-- Each registered id was drawn in the run, also after a step. -/
theorem Consistent.registered_step (h : Consistent kit first t) (hmoves : Moves kit u t t' change)
    (hhas : t'.registry.has u = true) : Drawn kit first t' u := by
  have hle : t.nextId ≤ t'.nextId := by
    have := hmoves.nextId
    omega
  rw [hmoves.registry] at hhas
  match change, hmoves with
  | none, _ => exact (h.registered u hhas).mono hle
  | some (.created m), hmoves =>
    obtain ⟨hm, hnext⟩ := hmoves.created m rfl
    by_cases hbefore : t.registry.has u = true
    · exact (h.registered u hbefore).mono hle
    · have hu : m.id = u := by
        rw [RegistryEdit.applyTo, Registry.has_append, Bool.eq_false_iff.mpr hbefore] at hhas
        simpa using hhas
      exact ⟨t.nextId, h.first_le, by omega, hm.symm.trans hu⟩
  | some (.removed id), _ =>
    have hbefore : t.registry.has u = true := by
      rw [RegistryEdit.applyTo, Registry.has_filter, Bool.and_eq_true] at hhas
      exact hhas.2
    exact (h.registered u hbefore).mono hle
  | some .cleared, _ => simp [RegistryEdit.applyTo, Registry.has] at hhas

/-- An operation keeps a session consistent. -/
theorem Consistent.step (h : Consistent kit first t)
    (hfresh : t'.nextId ≠ t.nextId → t.store.memory.Unused (kit.nextMutant t))
    (hmoves : ∀ u, Moves kit u t t' change) : Consistent kit first t' where
  first_le := by
    have := h.first_le
    have := (hmoves (kit.nextMutant t)).nextId
    omega
  kept u hdrawn := h.kept_step hfresh (hmoves u) hdrawn
  registered u hhas := h.registered_step (hmoves u) hhas

end

namespace Installation

variable {kit : Toolkit} {first : Nat}

/-- A run keeps a session consistent. -/
theorem run_keeps {ops : List Operation} {t : Session Trial} (h : Consistent kit first t)
    (hfresh : FreshRun (onTrial kit) ops t) :
    Consistent kit first ((onTrial kit).run ops t).1 := by
  induction ops generalizing t with
  | nil => exact h
  | cons op ops ih => exact ih (h.step hfresh.1 fun u => step_moves u op t) hfresh.2

/-- After a run there is what its changes leave of the registry of before. -/
theorem run_registry (ops : List Operation) (t : Session Trial) :
    ((onTrial kit).run ops t).1.registry =
      RegistryEdit.remaining t.registry ((onTrial kit).run ops t).2 := by
  induction ops generalizing t with
  | nil => exact (RegistryEdit.remaining_nil t.registry).symm
  | cons op ops ih =>
    have hstep : ((onTrial kit).step op t).1.registry =
        RegistryEdit.applyTo t.registry ((onTrial kit).step op t).2 :=
      (step_moves (kit.nextMutant t) op t).registry
    rw [run_cons, ih, hstep, RegistryEdit.remaining_applyTo]

/-- The start of a run: nothing is registered and no call was made. -/
def opening (memory : MemoryStore) (plan : List (Option Fault)) (sources : SourceCache)
    (first : Nat) : Session Trial where
  store := ⟨⟨memory, plan⟩, []⟩
  sources := sources
  nextId := first

/-- Whatever the backend holds at first, whichever of its calls fail, and whatever operations are
carried out: if every id is unused when it is drawn, then after the run

* a mutant made in the run and registered has its record, which names its image, and its image;
* an id drawn in the run that is not registered has a record or an image only if a call that
  should have deleted one of them has failed;
* the registered mutants are those created in the run and not deleted, discarded or cleared since,
  in the order of their creation. -/
theorem run_consistent (kit : Toolkit) (memory : MemoryStore)
    (plan : List (Option Fault)) (sources : SourceCache) (first : Nat) (ops : List Operation)
    (hfresh : FreshRun (onTrial kit) ops (opening memory plan sources first)) :
    let final := (onTrial kit).run ops (opening memory plan sources first)
    let t := final.1
    (∀ k, first ≤ k → k < t.nextId →
      let u := kit.ids k
      (t.registry.has u = true → t.store.memory.Intact u) ∧
        (t.registry.has u = false →
          (t.store.memory.record? u).isSome = true ∨ t.store.memory.hasImage u = true →
            Spoiled t.store.events u)) ∧
      t.registry = RegistryEdit.survivors final.2 := by
  have hopening : Consistent kit first (opening memory plan sources first) :=
    { first_le := Nat.le_refl first
      kept := fun u ⟨k, hfirst, hk, _⟩ => absurd hk (Nat.not_lt.mpr hfirst)
      registered := fun u hhas => absurd hhas (by simp [opening, Registry.has]) }
  have hconsistent := run_keeps hopening hfresh
  refine ⟨fun k hfirst hk => ?_, run_registry ops _⟩
  have hkept := hconsistent.kept _ ⟨k, hfirst, hk, rfl⟩
  refine ⟨hkept.intact, fun hhas hleft => (hkept.cleared hhas).resolve_left fun hgone => ?_⟩
  rcases hleft with hrecord | himage
  · simp [hgone.1] at hrecord
  · simp [hgone.2] at himage

namespace RunSample

def memory : MemoryStore where
  snapshots := [{ name := "base", image := "image" }]
  images := [⟨"image", [("f", "x\n")]⟩]

def onePut : Catalogue :=
  ⟨[], [⟨"put", NameSet.ofList ["c"], [⟨":[t]", "y", []⟩]⟩]⟩

def tools : Toolkit :=
  { catalogue := onePut, matcher := fun _ _ => .ok [] }

/-- Three mutants are made, of which the second gets no record; the first is deleted only in part,
and then discarded. -/
def ops : List Operation :=
  [.mutate "base" [⟨"put", 0, ⟨"f", ⟨⟨1, 0⟩, ⟨1, 1⟩⟩⟩, .empty⟩], .mutate "base" [],
    .mutate "base" [], .deleteMutant (.ofNumber 0), .discardMutant (.ofNumber 0)]

/-- The calls that fail: adding the second record, deleting its image, and deleting the first
record. -/
def plan : List (Option Fault) :=
  let fault := some (Fault.unexpected "down")
  List.replicate 14 none ++ [fault, fault] ++ List.replicate 7 none ++ [fault]

def final : Session Trial × List RegistryEdit :=
  (onTrial tools).run ops (opening memory plan [] 0)

end RunSample

/-- After the sample run one mutant is registered and intact, and the image of another is left. -/
theorem run_consistent_sample :
    FreshRun (onTrial RunSample.tools) RunSample.ops
        (opening RunSample.memory RunSample.plan [] 0) ∧
      RunSample.final.1.registry = [⟨.ofNumber 2, "base", []⟩] ∧
      RunSample.final.1.store.memory.Intact (.ofNumber 2) ∧
      RunSample.final.1.store.memory.hasImage (.ofNumber 1) = true ∧
      Spoiled RunSample.final.1.store.events (.ofNumber 1) := by
  have hfresh : FreshRun (onTrial RunSample.tools) RunSample.ops
      (opening RunSample.memory RunSample.plan [] 0) := by decide +kernel
  have himage : RunSample.final.1.store.memory.hasImage (.ofNumber 1) = true := by decide +kernel
  have hnext : RunSample.final.1.nextId = 3 := by decide +kernel
  have hsecond : RunSample.final.1.registry.has (.ofNumber 1) = false := by decide +kernel
  have hthird : RunSample.final.1.registry.has (.ofNumber 2) = true := by decide +kernel
  have hsurvivors : RegistryEdit.survivors RunSample.final.2 = [⟨.ofNumber 2, "base", []⟩] := by
    decide +kernel
  have hrun := run_consistent RunSample.tools RunSample.memory
    RunSample.plan [] 0 RunSample.ops hfresh
  have hfinal : (onTrial RunSample.tools).run RunSample.ops
      (opening RunSample.memory RunSample.plan [] 0) = RunSample.final := rfl
  rw [hfinal] at hrun
  dsimp only at hrun
  -- From here on the final state is not to be computed again.
  generalize RunSample.final = final at *
  obtain ⟨hkept, hlist⟩ := hrun
  refine ⟨hfresh, hlist.trans hsurvivors, ?_, himage, ?_⟩
  · exact (hkept 2 (by decide) (by rw [hnext]; decide)).1 hthird
  · exact (hkept 1 (by decide) (by rw [hnext]; decide)).2 hsecond (Or.inr himage)

end Installation

end Mutagenesis
