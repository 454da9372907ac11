import Mutagenesis.Installation
import Mutagenesis.Proofs.Action

/-!
# Laws of the operations of an installation

One law for each operation, over any backend: what has to hold after its parts so that something
holds after it. Reading operations (`diffOf` and those made of it) keep whatever reading a source
keeps; making a mutant goes through the diff, the image and the record (`generate_ensures`), and
deleting mutants goes through `release`, which does not fail.
-/

set_option autoImplicit false

namespace Mutagenesis

open Mutagenesis.Action (ensures_bind ensures_ofExcept ensures_on ensures_ignoring ensures_attempt
  ensures_discard ensures_forM)

variable {σ α β : Type}

/-- What holds of the state is kept by a loop with results if every pass keeps it. -/
theorem Action.ensures_mapM {act : α → Action σ β} {xs : List α} {s : σ} {inv : σ → Prop}
    (hs : inv s)
    (hact : ∀ x ∈ xs, ∀ s, inv s → (act x).Ensures s (fun _ s' => inv s') (fun _ s' => inv s')) :
    (xs.mapM act).Ensures s (fun _ s' => inv s') (fun _ s' => inv s') := by
  induction xs generalizing s with
  | nil => exact hs
  | cons x rest ih =>
    rw [List.mapM_cons, ensures_bind]
    refine (hact x (by simp) s hs).mono (fun _ s' hs' => ?_) (fun _ _ hs' => hs')
    rw [ensures_bind]
    exact (ih hs' fun y hy => hact y (by simp [hy])).mono (fun _ _ h => h) (fun _ _ h => h)

variable {failed : Fault → Session σ → Prop}

namespace Session

variable {t : Session σ}

/-- The state after an id was drawn. -/
def drawn (t : Session σ) : Session σ :=
  { t with nextId := t.nextId + 1 }

theorem onStore_ensures {act : Action σ α} {done : α → Session σ → Prop} :
    (onStore act).Ensures t done failed ↔
      act.Ensures t.store (fun a store => done a { t with store := store })
        (fun fault store => failed fault { t with store := store }) :=
  ensures_on

/-- A source is kept already, or read from the backend and kept then. -/
theorem readSource_ensures {backend : Backend σ} {s : Snapshot} {path : String}
    {done : String → Session σ → Prop}
    (hkept : ∀ text, t.sources.text? s.name path = some text → done text t)
    (hread : t.sources.text? s.name path = none →
      (backend.fileText s path).Ensures t.store
        (fun text store => done text
          { t with store := store, sources := t.sources.add s.name path text })
        (fun fault store => failed fault { t with store := store })) :
    (readSource backend s path).Ensures t done failed := by
  unfold readSource
  rw [ensures_bind, Action.ensures_get]
  split
  · next text htext => exact hkept text htext
  · next htext =>
    rw [ensures_bind, onStore_ensures]
    exact hread htext

end Session

/-- The id that is drawn next. -/
def Toolkit.nextMutant (kit : Toolkit) (t : Session σ) : MutantId :=
  kit.ids t.nextId

namespace Installation

variable {i : Installation σ} {t : Session σ} {inv : Session σ → Prop} {s : Snapshot}

/-! ## Reading -/

variable {ms : List Mutation} {name : String} {id : MutantId}

/-- Making a diff reads sources and does nothing else. -/
theorem diffOf_ensures
    (hread : ∀ path t, inv t → (Session.readSource i.backend s path).Ensures t
      (fun _ t' => inv t') (fun _ t' => inv t')) (ht : inv t) :
    (i.diffOf s ms).Ensures t (fun _ t' => inv t') (fun _ t' => inv t') := by
  unfold diffOf
  rw [ensures_bind, ensures_ofExcept]
  refine ⟨fun edits _ => ?_, fun _ _ => ht⟩
  rw [ensures_bind]
  have hprefetch : (Session.prefetch i.backend s (edits.map (·.file))).Ensures t
      (fun _ t' => inv t') (fun _ t' => inv t') :=
    ensures_forM ht fun path _ t' ht' => ensures_discard.mpr (hread path t' ht')
  refine hprefetch.mono (fun _ t₁ ht₁ => ?_) (fun _ _ h => h)
  rw [ensures_bind]
  refine (Action.ensures_mapM ht₁ fun e _ t₂ ht₂ => ?_).mono (fun _ _ h => h) (fun _ _ h => h)
  rw [ensures_bind]
  refine (hread e.file t₂ ht₂).mono (fun text t₃ ht₃ => ?_) (fun _ _ h => h)
  exact ensures_ofExcept.mpr ⟨fun _ _ => ht₃, fun _ _ => ht₃⟩

theorem snapshot_ensures {done : Snapshot → Session σ → Prop} :
    (i.snapshot name).Ensures t done failed ↔
      (i.backend.lookup name).Ensures t.store (fun s store => done s { t with store := store })
        (fun fault store => failed fault { t with store := store }) :=
  Session.onStore_ensures

/-- Looking a snapshot up and reading a source of a known snapshot keep what holds of the state, and
a snapshot that is looked up is known. -/
structure ReadingKeeps (i : Installation σ) (known : Snapshot → Prop) (inv : Session σ → Prop) :
    Prop where
  lookup : ∀ name t, inv t →
    (i.snapshot name).Ensures t (fun s t' => known s ∧ inv t') (fun _ t' => inv t')
  read : ∀ s path t, known s → inv t → (Session.readSource i.backend s path).Ensures t
    (fun _ t' => inv t') (fun _ t' => inv t')

section

variable {known : Snapshot → Prop} (hkeeps : i.ReadingKeeps known inv)

include hkeeps

theorem ReadingKeeps.snapshot (ht : inv t) :
    (i.snapshot name).Ensures t (fun _ t' => inv t') (fun _ t' => inv t') :=
  (hkeeps.lookup name t ht).mono (fun _ _ h => h.2) (fun _ _ h => h)

theorem findMutations_ensures {path : String} {filter : SearchFilter} (hs : known s) (ht : inv t) :
    (i.findMutations s path filter).Ensures t (fun _ t' => inv t') (fun _ t' => inv t') := by
  unfold findMutations search
  rw [ensures_bind, ensures_bind, ensures_ofExcept]
  refine ⟨fun _ _ => ?_, fun _ _ => ht⟩
  rw [ensures_bind]
  exact (hkeeps.read s path t hs ht).mono (fun _ _ h => h) (fun _ _ h => h)

theorem mutations_ensures {name path : String} {filter : SearchFilter} (ht : inv t) :
    (i.mutations name path filter).Ensures t (fun _ t' => inv t') (fun _ t' => inv t') := by
  unfold mutations
  rw [ensures_bind]
  refine (hkeeps.lookup name t ht).mono (fun s t₁ h₁ => ?_) (fun _ _ h => h)
  rw [ensures_bind]
  refine (findMutations_ensures hkeeps h₁.1 h₁.2).mono (fun _ t₂ ht₂ => ?_) (fun _ _ h => h)
  exact ensures_ofExcept.mpr ⟨fun _ _ => ht₂, fun _ _ => ht₂⟩

theorem replacements_ensures (ht : inv t) :
    (i.replacements name ms).Ensures t (fun _ t' => inv t') (fun _ t' => inv t') := by
  unfold replacements
  rw [ensures_bind, ensures_discard]
  refine (hkeeps.snapshot ht).mono (fun _ t₁ ht₁ => ?_) (fun _ _ h => h)
  exact ensures_ofExcept.mpr ⟨fun _ _ => ht₁, fun _ _ => ht₁⟩

theorem diff_ensures (ht : inv t) :
    (i.diff name ms).Ensures t (fun _ t' => inv t') (fun _ t' => inv t') := by
  unfold diff
  rw [ensures_bind]
  refine (hkeeps.lookup name t ht).mono (fun s t₁ h₁ => ?_) (fun _ _ h => h)
  exact diffOf_ensures (fun path t₂ ht₂ => hkeeps.read s path t₂ h₁.1 ht₂) h₁.2

end

/-! ## Making a mutant -/

/-- A build that fails stops before the image is kept. -/
theorem buildIn_ensures {c : Container} {diff image : String} {st : σ} {done : Unit → σ → Prop}
    {failed : Fault → σ → Prop}
    (h : (i.backend.applyPatch c diff).Ensures st
      (fun _ st₁ => (i.backend.build c).Ensures st₁
        (fun outcome st₂ => match outcome with
          | .success => (i.backend.persist c image).Ensures st₂ done failed
          | .failure output => failed (.buildFailure output) st₂)
        failed)
      failed) :
    (i.buildIn c diff image).Ensures st done failed := by
  unfold buildIn
  rw [ensures_bind]
  refine h.mono (fun _ st₁ h₁ => ?_) (fun _ _ h => h)
  rw [ensures_bind]
  refine h₁.mono (fun outcome st₂ h₂ => ?_) (fun _ _ h => h)
  cases outcome with
  | success => exact h₂
  | failure output => exact h₂

/-- The container is destroyed after the build, whatever came of both. -/
theorem buildImage_ensures {diff image : String} {st : σ} {done : Unit → σ → Prop}
    {failed : Fault → σ → Prop}
    (h : (i.backend.provision s).Ensures st
      (fun c st₁ => (i.buildIn c diff image).Ensures st₁
        (fun _ st₂ => (i.backend.destroy c).Ensures st₂ (fun _ st₃ => done () st₃)
          (fun _ st₃ => done () st₃))
        (fun fault st₂ => (i.backend.destroy c).Ensures st₂ (fun _ st₃ => failed fault st₃)
          (fun _ st₃ => failed fault st₃)))
      failed) :
    (i.buildImage s diff image).Ensures st done failed := by
  unfold buildImage
  rw [ensures_bind]
  refine h.mono (fun c st₁ h₁ => ?_) (fun _ _ h => h)
  rw [ensures_bind, ensures_attempt]
  refine h₁.mono (fun _ st₂ h₂ => ?_) (fun fault st₂ h₂ => ?_)
  · rw [ensures_bind, ensures_ignoring]
    exact h₂
  · rw [ensures_bind, ensures_ignoring]
    exact h₂

/-- If the record is refused, the image is deleted, as far as that succeeds. -/
theorem addRecord_ensures {record : Snapshot} {st : σ} {done : Unit → σ → Prop}
    {failed : Fault → σ → Prop}
    (h : (i.backend.register record).Ensures st done
      (fun fault st₁ => (i.backend.deleteImage record.image).Ensures st₁
        (fun _ st₂ => failed fault st₂) (fun _ st₂ => failed fault st₂))) :
    (i.addRecord record).Ensures st done failed := by
  unfold addRecord
  rw [ensures_bind, ensures_attempt]
  refine h.mono (fun _ st₁ h₁ => h₁) (fun fault st₁ h₁ => ?_)
  rw [ensures_bind, ensures_ignoring]
  exact h₁

/-- A mutant whose id is not in use is registered last. -/
theorem register_ensures {m : Mutant} {done : Unit → Session σ → Prop}
    (hfree : t.registry.has m.id = false) (h : done () { t with registry := t.registry ++ [m] }) :
    (Session.register m).Ensures t done failed := by
  unfold Session.register
  rw [ensures_bind, Action.ensures_get, Registry.insert?, if_neg (by simp [hfree])]
  exact Action.ensures_modify.mpr h

/-- A mutant is made in four steps: an id, a diff, an image, and a record. -/
theorem generate_ensures {done : Mutant → Session σ → Prop}
    (hmany : 1 < ms.length → failed (.higherOrder ms.length) t)
    (hused : t.registry.has (i.nextMutant t) →
      failed (.unexpected s!"UUID collision: {(i.nextMutant t).hyphenated}") t.drawn)
    (hmake : ms.length ≤ 1 → t.registry.has (i.nextMutant t) = false →
      (i.diffOf s ms).Ensures t.drawn
        (fun diff t₁ =>
          (i.buildImage s (String.ofList diff) (i.nextMutant t).imageName).Ensures t₁.store
            (fun _ st₁ =>
              (i.addRecord (s.derive (i.nextMutant t).snapshotName
                  (i.nextMutant t).imageName)).Ensures st₁
                (fun _ st₂ => done ⟨i.nextMutant t, s.name, ms⟩
                  { t₁ with
                    store := st₂
                    registry := t₁.registry ++ [⟨i.nextMutant t, s.name, ms⟩] })
                (fun fault st₂ => failed fault { t₁ with store := st₂ }))
            (fun fault st₁ => failed fault { t₁ with store := st₁ }))
        failed) : (i.generate s ms).Ensures t done failed := by
  unfold generate
  dsimp only
  split
  · next hlength => exact hmany hlength
  · next hlength =>
    rw [ensures_bind]
    change Action.Ensures _ t.drawn done failed
    rw [ensures_bind, Action.ensures_get]
    split
    · next hregistered => exact hused hregistered
    · next hregistered =>
      have hfree : t.registry.has (i.nextMutant t) = false := Bool.eq_false_iff.mpr hregistered
      -- Reading sources leaves the registry alone, so the id is not in use at the end either.
      have hkept : (i.diffOf s ms).Ensures t.drawn (fun _ t₁ => t₁.registry = t.registry)
          (fun _ t₁ => t₁.registry = t.registry) := by
        refine diffOf_ensures (fun path t₁ h₁ => ?_) rfl
        exact Session.readSource_ensures (fun _ _ => h₁) fun _ =>
          Action.ensures_of_forall (fun _ _ => h₁) (fun _ _ => h₁)
      rw [ensures_bind]
      refine ((hmake (by omega) hfree).and hkept).mono (fun diff t₁ h₁ => ?_) (fun _ _ h => h.1)
      rw [ensures_bind, Session.onStore_ensures]
      refine h₁.1.mono (fun _ st₁ h₂ => ?_) (fun _ _ h => h)
      rw [ensures_bind, Session.onStore_ensures]
      refine h₂.mono (fun _ st₂ h₃ => ?_) (fun _ _ h => h)
      rw [ensures_bind]
      refine register_ensures ?_ h₃
      change t₁.registry.has _ = false
      rw [h₁.2]
      exact hfree

/-! ## Deleting mutants -/

/-- A mutant is released by two calls, of which neither has to succeed. -/
theorem release_ensures {m : Mutant} {st : σ} {done : Unit → σ → Prop} {failed : Fault → σ → Prop}
    {half : σ → Prop}
    (hrecord : (i.backend.deregister m.id.snapshotName).Ensures st (fun _ st₁ => half st₁)
      (fun _ st₁ => half st₁))
    (himage : ∀ st₁, half st₁ → (i.backend.deleteImage m.id.imageName).Ensures st₁
      (fun _ st₂ => done () st₂) (fun _ st₂ => done () st₂)) :
    (i.release m).Ensures st done failed := by
  unfold release
  rw [ensures_bind, ensures_ignoring]
  refine hrecord.mono (fun _ st₁ h₁ => ?_) (fun _ st₁ h₁ => ?_)
  · exact ensures_ignoring.mpr (himage st₁ h₁)
  · exact ensures_ignoring.mpr (himage st₁ h₁)

/-- A mutant leaves the registry before it is released. -/
theorem remove_ensures {done : Mutant → Session σ → Prop}
    (hmissing : ∀ fault, t.registry.get id = .error fault → failed fault t)
    (hremove : ∀ m, t.registry.get id = .ok m →
      (i.release m).Ensures t.store
        (fun _ st => done m { t with store := st, registry := t.registry.filter (·.id ≠ id) })
        (fun fault st => failed fault
          { t with store := st, registry := t.registry.filter (·.id ≠ id) })) :
    (i.remove id).Ensures t done failed := by
  unfold remove Registry.remove
  rw [ensures_bind, Action.ensures_get, ensures_bind, ensures_ofExcept]
  cases hget : t.registry.get id with
  | error fault => exact ⟨nofun, fun fault' h => by cases h; exact hmissing fault hget⟩
  | ok m =>
    refine ⟨fun pair hpair => ?_, nofun⟩
    cases hpair
    change (Session.onStore (i.release m) >>= fun _ => pure m).Ensures
      { t with registry := t.registry.filter (·.id ≠ id) } done failed
    rw [ensures_bind, Session.onStore_ensures]
    exact hremove m hget

theorem deleteMutant_ensures {done : Mutant → Session σ → Prop}
    (h : (i.remove id).Ensures t
      (fun m t' => done m
        { t' with sources := t'.sources.forgetSnapshot id.snapshotName }) failed) :
    (i.deleteMutant id).Ensures t done failed := by
  unfold deleteMutant
  rw [ensures_bind]
  exact h

/-- What is kept of a mutant is deleted after its record was found, the record first. -/
theorem discardKept_ensures {st : σ} {done : Unit → σ → Prop} {failed : Fault → σ → Prop}
    (h : (i.backend.lookup id.snapshotName).Ensures st
      (fun record st₁ => (i.backend.deregister id.snapshotName).Ensures st₁
        (fun _ st₂ => (i.backend.deleteImage record.image).Ensures st₂ done failed) failed)
      (fun _ st₁ => ∀ fault, failed fault st₁)) : (i.discardKept id).Ensures st done failed := by
  unfold discardKept
  rw [ensures_bind, ensures_attempt]
  refine h.mono (fun record st₁ h₁ => ?_) (fun fault st₁ h₁ => ?_)
  · change (i.backend.deregister id.snapshotName >>= fun _ =>
      i.backend.deleteImage record.image).Ensures st₁ done failed
    rw [ensures_bind]
    exact h₁
  · cases fault <;> exact h₁ _

/-- Discarding removes a registered mutant, and deletes what is kept of any other. -/
theorem discardMutant_ensures {done : Unit → Session σ → Prop} {half : Session σ → Prop}
    (hregistered : t.registry.has id = true →
      (i.remove id).Ensures t (fun _ t₁ => half t₁) failed)
    (hkept : t.registry.has id = false →
      (i.discardKept id).Ensures t.store (fun _ st => half { t with store := st })
        (fun fault st => failed fault { t with store := st }))
    (hdone : ∀ t₁, half t₁ →
      done () { t₁ with sources := t₁.sources.forgetSnapshot id.snapshotName }) :
    (i.discardMutant id).Ensures t done failed := by
  unfold discardMutant
  rw [ensures_bind, Action.ensures_get]
  cases hhas : t.registry.has id with
  | true =>
    rw [if_pos rfl, ensures_bind, ensures_discard]
    exact (hregistered hhas).mono (fun _ t₁ h₁ => hdone t₁ h₁) (fun _ _ h => h)
  | false =>
    rw [if_neg (by decide), ensures_bind, Session.onStore_ensures]
    exact (hkept hhas).mono (fun _ st h₁ => hdone _ h₁) (fun _ _ h => h)

/-- All registered mutants are released after the registry was emptied; no source is cached that was
not before. -/
theorem clearMutants_ensures {done : Unit → Session σ → Prop}
    (h : ∀ sources : SourceCache, sources.Within t.sources →
      (t.registry.forM i.release).Ensures t.store
        (fun _ st => done () { t with store := st, sources := sources, registry := [] })
        (fun fault st => failed fault
          { t with store := st, sources := sources, registry := [] })) :
    (i.clearMutants).Ensures t done failed := by
  unfold clearMutants
  rw [ensures_bind, Action.ensures_get, ensures_bind]
  have hforget : (t.registry.forM fun m =>
      Session.updateSources (·.forgetSnapshot m.id.snapshotName)).Ensures t
        (fun _ t₁ => ∃ sources : SourceCache, sources.Within t.sources ∧
          t₁ = { t with sources := sources }) (fun _ _ => False) := by
    refine ensures_forM ⟨t.sources, fun _ _ _ h => h, rfl⟩ fun m _ t₁ h₁ => ?_
    obtain ⟨sources, hwithin, rfl⟩ := h₁
    refine ⟨_, fun name path text htext => ?_, rfl⟩
    exact hwithin _ _ _ (sources.forgetSnapshot_within _ _ _ _ htext)
  refine hforget.mono (fun _ t₁ h₁ => ?_) (fun _ _ h => h.elim)
  obtain ⟨sources, hwithin, rfl⟩ := h₁
  rw [ensures_bind]
  exact Session.onStore_ensures.mpr (h sources hwithin)

end Installation

end Mutagenesis
