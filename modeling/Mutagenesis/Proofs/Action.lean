import Mathlib.Data.List.Forall2
import Mutagenesis.Session

/-!
# Outcomes of actions

How the outcome of an action put together from others comes from theirs. A chain succeeds exactly
when each of its actions does (`bind_eq_ok_iff`), so that later files take an action apart with
`obtain` and never unfold the monad.

* `Ensures` says what holds after an action, whether it succeeds or fails. It goes through chains
  from the last action to the first (`ensures_bind`), so one law for each call of a backend is
  enough for all that is made of such calls.
* The last part is about reading sources: what was read once is kept, and what is kept is read
  again without the backend.
-/

set_option autoImplicit false

namespace Mutagenesis

/-- A chain of computations succeeds exactly when each of them does. -/
theorem Except.bind_eq_ok_iff {ε α β : Type} {x : Except ε α} {f : α → Except ε β} {b : β} :
    (x >>= f) = .ok b ↔ ∃ a, x = .ok a ∧ f a = .ok b := by
  cases x with
  | error e => exact ⟨nofun, nofun⟩
  | ok a => exact ⟨fun h => ⟨a, rfl, h⟩, fun ⟨_, ha, h⟩ => by cases ha; exact h⟩

theorem Except.ok_bind {ε α β : Type} (a : α) (f : α → Except ε β) : (.ok a >>= f) = f a := rfl

/-- A result that is seen as an option is the result. -/
theorem Except.eq_ok_of_toOption {ε α : Type} {x : Except ε α} {a : α}
    (h : x.toOption = some a) : x = .ok a := by
  cases x with
  | error e => cases h
  | ok b => exact congrArg Except.ok (Option.some.inj h)

/-- A loop succeeds exactly when each of its passes does. -/
theorem Except.mapM_eq_ok_iff {ε α β : Type} {f : α → Except ε β} {xs : List α} {ys : List β} :
    xs.mapM f = .ok ys ↔ List.Forall₂ (fun x y => f x = .ok y) xs ys := by
  induction xs generalizing ys with
  | nil => cases ys <;> simp [pure, Except.pure]
  | cons x rest ih =>
    rw [List.mapM_cons, Except.bind_eq_ok_iff, List.forall₂_cons_left_iff]
    refine exists_congr fun y => ?_
    simp only [Except.bind_eq_ok_iff, ih, ← exists_and_left]
    refine exists_congr fun later => ?_
    change _ ∧ _ ∧ Except.ok (y :: later) = .ok ys ↔ _
    rw [Except.ok.injEq, eq_comm (a := ys)]

/-- An entry on one side of related lists has its partner on the other. -/
theorem exists_of_mem_right {α β : Type} {R : α → β → Prop} {xs : List α} {ys : List β}
    (h : List.Forall₂ R xs ys) {y : β} (hy : y ∈ ys) : ∃ x ∈ xs, R x y := by
  induction h with
  | nil => simp at hy
  | cons hxy _ ih =>
    rcases List.mem_cons.mp hy with rfl | hy
    · exact ⟨_, by simp, hxy⟩
    · obtain ⟨x, hx, hxy⟩ := ih hy
      exact ⟨x, by simp [hx], hxy⟩

namespace Action

variable {σ τ α β : Type}
variable {x : Action σ α} {act : Action σ α}

/-- Two actions in a row succeed if the first one does and the second one does after it. -/
theorem bind_eq_ok_iff {f : α → Action σ β} {s s' : σ} {b : β} :
    (x >>= f) s = .ok b s' ↔ ∃ a s₁, x s = .ok a s₁ ∧ f a s₁ = .ok b s' := by
  change EStateM.bind x f s = _ ↔ _
  unfold EStateM.bind
  cases x s with
  | ok a s₁ =>
    constructor
    · intro h
      exact ⟨a, s₁, rfl, h⟩
    · rintro ⟨a', s₁', hx, h⟩
      cases hx
      exact h
  | error fault s₁ => exact ⟨nofun, nofun⟩

/-- After an action that succeeds, the next one goes on from its state. -/
theorem bind_of_ok {s s₁ : σ} {a : α} (h : x s = .ok a s₁) (f : α → Action σ β) :
    (x >>= f) s = f a s₁ := by
  change EStateM.bind x f s = _
  unfold EStateM.bind
  rw [h]

/-- An action that fails ends the run. -/
theorem bind_of_error {s s₁ : σ} {fault : Fault} (h : x s = .error fault s₁) (f : α → Action σ β) :
    (x >>= f) s = .error fault s₁ := by
  change EStateM.bind x f s = _
  unfold EStateM.bind
  rw [h]

/-- Chains are equal if they start alike and go on alike after a success. -/
theorem bind_congr {x y : Action σ α} {f g : α → Action σ β} {s : σ} (h : x s = y s)
    (hnext : ∀ a s₁, y s = .ok a s₁ → f a s₁ = g a s₁) : (x >>= f) s = (y >>= g) s := by
  cases hy : y s with
  | ok a s₁ => rw [bind_of_ok hy, bind_of_ok (h.trans hy), hnext a s₁ hy]
  | error fault s₁ => rw [bind_of_error hy, bind_of_error (h.trans hy)]

@[simp]
theorem pure_apply (a : α) (s : σ) : (pure a : Action σ α) s = .ok a s := rfl

@[simp]
theorem get_apply (s : σ) : (get : Action σ σ) s = .ok s s := rfl

theorem pure_eq_ok_iff {a b : α} {s s' : σ} :
    (pure a : Action σ α) s = .ok b s' ↔ b = a ∧ s' = s := by
  rw [pure_apply]
  constructor
  · intro h
    cases h
    exact ⟨rfl, rfl⟩
  · rintro ⟨rfl, rfl⟩
    rfl

/-- A result as an action succeeds with its value and changes nothing. -/
theorem ofExcept_eq_ok_iff {x : Except Fault α} {a : α} {s s' : σ} :
    ofExcept x s = .ok a s' ↔ x = .ok a ∧ s' = s := by
  cases x with
  | ok b =>
    constructor
    · intro h
      cases h
      exact ⟨rfl, rfl⟩
    · rintro ⟨hx, rfl⟩
      cases hx
      rfl
  | error fault => exact ⟨nofun, nofun⟩

/-- An action that comes to a result goes on with what is computed from it. -/
theorem bind_ofExcept {s s' : σ} {outcome : Except Fault α} (h : x s = ofExcept outcome s')
    (f : α → Except Fault β) :
    (x >>= fun a => ofExcept (f a)) s = ofExcept (outcome.bind f) s' := by
  cases outcome with
  | ok a => exact bind_of_ok h _
  | error fault => exact bind_of_error h _

theorem discard_of_error {s s' : σ} {fault : Fault} (h : x s = .error fault s') :
    (discard x : Action σ PUnit) s = .error fault s' := by
  change EStateM.map (fun _ => PUnit.unit) x s = _
  unfold EStateM.map
  rw [h]

/-- An action whose value is dropped succeeds exactly if the action does. -/
theorem discard_eq_ok_iff {s s' : σ} {u : PUnit} :
    (discard x : Action σ PUnit) s = .ok u s' ↔ ∃ a, x s = .ok a s' := by
  change EStateM.map (fun _ => PUnit.unit) x s = _ ↔ _
  unfold EStateM.map
  cases x s with
  | ok a s₁ =>
    constructor
    · intro h
      cases h
      exact ⟨a, rfl⟩
    · rintro ⟨a', h⟩
      cases h
      rfl
  | error fault s₁ => exact ⟨nofun, nofun⟩

/-- An action on a part of the state succeeds exactly if it does there, and only the part
changes. -/
theorem on_eq_ok_iff {view : τ → σ} {update : τ → σ → τ} {t t' : τ} {a : α} :
    on view update x t = .ok a t' ↔ ∃ s, x (view t) = .ok a s ∧ t' = update t s := by
  unfold on
  cases x (view t) with
  | ok b s =>
    constructor
    · intro h
      cases h
      exact ⟨s, rfl, rfl⟩
    · rintro ⟨s', hx, rfl⟩
      cases hx
      rfl
  | error fault s => exact ⟨nofun, nofun⟩

/-- An action on a part of the state comes to the result that it comes to there. -/
theorem on_of_ofExcept {view : τ → σ} {update : τ → σ → τ} {t : τ} {s : σ}
    {outcome : Except Fault α} (h : x (view t) = ofExcept outcome s) :
    on view update x t = ofExcept outcome (update t s) := by
  unfold on
  rw [h]
  cases outcome <;> rfl

/-! ## What holds after an action -/

/-- After the action either its value and the state are as `done` says, or its fault and the state
are as `failed` says. -/
def Ensures (act : Action σ α) (s : σ) (done : α → σ → Prop) (failed : Fault → σ → Prop) : Prop :=
  match act s with
  | .ok a s' => done a s'
  | .error fault s' => failed fault s'

variable {done : α → σ → Prop} {failed : Fault → σ → Prop} {s : σ}

instance (act : Action σ α) (s : σ) [∀ a s, Decidable (done a s)]
    [∀ fault s, Decidable (failed fault s)] : Decidable (act.Ensures s done failed) :=
  match hact : act s with
  | .ok a s' => decidable_of_iff (done a s') (by rw [Ensures, hact])
  | .error fault s' => decidable_of_iff (failed fault s') (by rw [Ensures, hact])

/-- What an action ensures holds after it succeeds. -/
theorem Ensures.of_ok (h : act.Ensures s done failed) {a : α} {s' : σ} (hact : act s = .ok a s') :
    done a s' := by
  rw [Ensures, hact] at h
  exact h

/-- What an action ensures of failures holds after it fails. -/
theorem Ensures.of_error (h : act.Ensures s done failed) {fault : Fault} {s' : σ}
    (hact : act s = .error fault s') : failed fault s' := by
  rw [Ensures, hact] at h
  exact h

/-- An action that cannot fail succeeds. -/
theorem Ensures.exists_ok (h : act.Ensures s done (fun _ _ => False)) :
    ∃ a s', act s = .ok a s' ∧ done a s' := by
  unfold Ensures at h
  cases hact : act s with
  | ok a s' =>
    rw [hact] at h
    exact ⟨a, s', rfl, h⟩
  | error fault s' =>
    rw [hact] at h
    exact h.elim

/-- An action that cannot succeed fails. -/
theorem Ensures.exists_error (h : act.Ensures s (fun _ _ => False) failed) :
    ∃ fault s', act s = .error fault s' ∧ failed fault s' := by
  unfold Ensures at h
  cases hact : act s with
  | ok a s' =>
    rw [hact] at h
    exact h.elim
  | error fault s' =>
    rw [hact] at h
    exact ⟨fault, s', rfl, h⟩

/-- What holds whether an action succeeds or fails holds of the state it ends in. -/
theorem Ensures.final {inv : σ → Prop}
    (h : act.Ensures s (fun _ s' => inv s') (fun _ s' => inv s')) :
    ∃ s', act.Ensures s (fun _ s'' => s'' = s') (fun _ s'' => s'' = s') ∧ inv s' := by
  unfold Ensures at h ⊢
  cases hact : act s with
  | ok a s' =>
    rw [hact] at h
    exact ⟨s', rfl, h⟩
  | error fault s' =>
    rw [hact] at h
    exact ⟨s', rfl, h⟩

/-- What holds after an action may be used together with its outcome. -/
theorem Ensures.withOutcome (h : act.Ensures s done failed) :
    act.Ensures s (fun a s' => act s = .ok a s' ∧ done a s')
      (fun fault s' => act s = .error fault s' ∧ failed fault s') := by
  unfold Ensures at h ⊢
  cases hact : act s with
  | ok a s' =>
    rw [hact] at h
    exact ⟨rfl, h⟩
  | error fault s' =>
    rw [hact] at h
    exact ⟨rfl, h⟩

/-- What an action ensures may be weakened. -/
theorem Ensures.mono (h : act.Ensures s done failed) {done' : α → σ → Prop}
    {failed' : Fault → σ → Prop} (hdone : ∀ a s', done a s' → done' a s')
    (hfailed : ∀ fault s', failed fault s' → failed' fault s') : act.Ensures s done' failed' := by
  unfold Ensures at h ⊢
  cases hact : act s with
  | ok a s' =>
    rw [hact] at h
    exact hdone a s' h
  | error fault s' =>
    rw [hact] at h
    exact hfailed fault s' h

/-- An action ensures what always holds. -/
theorem ensures_of_forall (hdone : ∀ a s', done a s') (hfailed : ∀ fault s', failed fault s') :
    act.Ensures s done failed := by
  unfold Ensures
  cases act s with
  | ok a s' => exact hdone a s'
  | error fault s' => exact hfailed fault s'

/-- What follows from either outcome holds. -/
theorem Ensures.elim {p : Prop} (h : act.Ensures s done failed) (hdone : ∀ a s', done a s' → p)
    (hfailed : ∀ fault s', failed fault s' → p) : p := by
  unfold Ensures at h
  cases hact : act s with
  | ok a s' =>
    rw [hact] at h
    exact hdone a s' h
  | error fault s' =>
    rw [hact] at h
    exact hfailed fault s' h

/-- An action ensures all that it ensures one by one. -/
theorem Ensures.and (h : act.Ensures s done failed) {done' : α → σ → Prop}
    {failed' : Fault → σ → Prop} (h' : act.Ensures s done' failed') :
    act.Ensures s (fun a s' => done a s' ∧ done' a s')
      (fun fault s' => failed fault s' ∧ failed' fault s') := by
  unfold Ensures at h h' ⊢
  cases hact : act s with
  | ok a s' =>
    rw [hact] at h h'
    exact ⟨h, h'⟩
  | error fault s' =>
    rw [hact] at h h'
    exact ⟨h, h'⟩

/-- Two actions in a row: the first one ensures that the second one ensures. -/
theorem ensures_bind {x : Action σ β} {f : β → Action σ α} :
    (x >>= f).Ensures s done failed ↔
      x.Ensures s (fun b s' => (f b).Ensures s' done failed) failed := by
  unfold Ensures
  cases hx : x s with
  | ok b s' => rw [bind_of_ok hx]
  | error fault s' => rw [bind_of_error hx]

@[simp]
theorem ensures_pure {a : α} : (pure a : Action σ α).Ensures s done failed ↔ done a s := Iff.rfl

@[simp]
theorem ensures_throw {fault : Fault} :
    (throw fault : Action σ α).Ensures s done failed ↔ failed fault s := Iff.rfl

@[simp]
theorem ensures_get {done : σ → σ → Prop} :
    (get : Action σ σ).Ensures s done failed ↔ done s s := Iff.rfl

@[simp]
theorem ensures_set {s' : σ} {done : PUnit → σ → Prop} :
    (set s' : Action σ PUnit).Ensures s done failed ↔ done ⟨⟩ s' := Iff.rfl

@[simp]
theorem ensures_modify {f : σ → σ} {done : PUnit → σ → Prop} :
    (modify f : Action σ PUnit).Ensures s done failed ↔ done ⟨⟩ (f s) := Iff.rfl

/-- A result as an action ensures what holds of the result. -/
theorem ensures_ofExcept {x : Except Fault α} :
    (ofExcept x).Ensures s done failed ↔
      (∀ a, x = .ok a → done a s) ∧ (∀ fault, x = .error fault → failed fault s) := by
  cases x with
  | ok a => simp [Ensures, ofExcept]
  | error fault => simp [Ensures, ofExcept]

/-- An action that is attempted never fails, and hands on its result or its fault. -/
theorem ensures_attempt {done : Except Fault α → σ → Prop} :
    x.attempt.Ensures s done failed ↔
      x.Ensures s (fun a s' => done (.ok a) s') (fun fault s' => done (.error fault) s') := by
  unfold Ensures attempt
  cases x s <;> rfl

/-- An action whose value is dropped ensures what it ensures of any value. -/
theorem ensures_discard {done : PUnit → σ → Prop} :
    (discard x : Action σ PUnit).Ensures s done failed ↔
      x.Ensures s (fun _ s' => done ⟨⟩ s') failed := by
  change Ensures (EStateM.map (fun _ => PUnit.unit) x) s done failed ↔ _
  unfold Ensures EStateM.map
  cases x s <;> rfl

/-- An action that is run whether it fails or not does not fail. -/
theorem ensures_ignoring {done : Unit → σ → Prop} :
    x.ignoring.Ensures s done failed ↔
      x.Ensures s (fun _ s' => done () s') (fun _ s' => done () s') := by
  unfold ignoring
  rw [ensures_discard, ensures_attempt]

/-- An action on a part of the state ensures what it ensures there of the part. -/
theorem ensures_on {view : τ → σ} {update : τ → σ → τ} {t : τ} {done : α → τ → Prop}
    {failed : Fault → τ → Prop} :
    (on view update x).Ensures t done failed ↔
      x.Ensures (view t) (fun a s' => done a (update t s'))
        (fun fault s' => failed fault (update t s')) := by
  unfold Ensures on
  cases x (view t) <;> rfl

/-- What holds of the state is kept by a loop if every pass keeps it; what holds after a pass that
fails holds after the loop. -/
theorem ensures_forM {act : β → Action σ Unit} {xs : List β} {inv : σ → Prop} (hs : inv s)
    (hact : ∀ x ∈ xs, ∀ s, inv s → (act x).Ensures s (fun _ s' => inv s') failed) :
    (xs.forM act).Ensures s (fun _ s' => inv s') failed := by
  induction xs generalizing s with
  | nil => exact hs
  | cons x rest ih =>
    change (act x >>= fun _ => rest.forM act).Ensures s _ _
    rw [ensures_bind]
    refine (hact x (by simp) s hs).mono (fun _ s' hs' => ?_) (fun _ _ hs' => hs')
    exact ih hs' fun y hy => hact y (by simp [hy])

end Action

namespace SourceCache

/-- A text that is added is found, unless there was one under its name and path already. -/
theorem text?_add (c : SourceCache) (snapshot path text snapshot' path' : String) :
    (c.add snapshot path text).text? snapshot' path' =
      (c.text? snapshot' path').or
        (if snapshot = snapshot' ∧ path = path' then some text else none) := by
  unfold add
  cases hold : c.text? snapshot path with
  | some old =>
    by_cases hkey : snapshot = snapshot' ∧ path = path'
    · obtain ⟨rfl, rfl⟩ := hkey
      simp [hold]
    · simp [hkey]
  | none =>
    unfold text?
    rw [List.find?_append]
    cases hfind : List.find? (fun file => decide (file.snapshot = snapshot' ∧ file.path = path')) c
    · by_cases hkey : snapshot = snapshot' ∧ path = path' <;> simp [hkey]
    · simp

/-- What is kept after some files were forgotten. -/
theorem text?_filter {c : SourceCache} {p : CachedFile → Bool} (forgotten : String → String → Bool)
    (hp : ∀ file, p file = !forgotten file.snapshot file.path) (name path : String) :
    text? (c.filter p) name path = if forgotten name path then none else c.text? name path := by
  have hfind (file : CachedFile) :
      decide (p file = true ∧ decide (file.snapshot = name ∧ file.path = path) = true) =
        (!forgotten name path && decide (file.snapshot = name ∧ file.path = path)) := by
    by_cases hfile : file.snapshot = name ∧ file.path = path
    · simp [hp, hfile]
    · simp [hfile]
  unfold text?
  rw [List.find?_filter, funext hfind]
  cases forgotten name path <;> simp

/-- What is cached in the first is cached in the second. -/
def Within (c c' : SourceCache) : Prop :=
  ∀ name path text, c.text? name path = some text → c'.text? name path = some text

/-- Forgetting a snapshot only removes entries. -/
theorem forgetSnapshot_within (c : SourceCache) (snapshot : String) :
    (c.forgetSnapshot snapshot).Within c := by
  intro name path text h
  rw [show (c.forgetSnapshot snapshot).text? name path = _ from
    text?_filter (fun name _ => decide (name = snapshot)) (fun file => by simp) name path] at h
  split at h
  · simp at h
  · exact h

end SourceCache

namespace Session

variable {σ : Type} {backend : Backend σ} {snapshot : Snapshot} {path text : String}
  {s s' : Session σ}

/-- What is kept is read without the backend. -/
theorem readSource_of_kept (h : s.sources.text? snapshot.name path = some text) :
    readSource backend snapshot path s = .ok text s := by
  unfold readSource
  rw [Action.bind_of_ok (Action.get_apply s), h]
  rfl

/-- Reading a source keeps its text; it either was kept before, or comes from the backend. -/
theorem readSource_cases (h : readSource backend snapshot path s = .ok text s') :
    (s.sources.text? snapshot.name path = some text ∧ s' = s) ∨
      (s.sources.text? snapshot.name path = none ∧
        ∃ store, backend.fileText snapshot path s.store = .ok text store ∧
          s' = { s with store := store, sources := s.sources.add snapshot.name path text }) := by
  unfold readSource at h
  rw [Action.bind_of_ok (Action.get_apply s)] at h
  cases hkept : s.sources.text? snapshot.name path with
  | some old =>
    rw [hkept] at h
    obtain ⟨rfl, rfl⟩ := Action.pure_eq_ok_iff.mp h
    exact Or.inl ⟨rfl, rfl⟩
  | none =>
    rw [hkept] at h
    obtain ⟨text', s₁, hread, h⟩ := Action.bind_eq_ok_iff.mp h
    obtain ⟨store, hfile, rfl⟩ := Action.on_eq_ok_iff.mp hread
    obtain ⟨_, s₂, hupdate, h⟩ := Action.bind_eq_ok_iff.mp h
    cases hupdate
    obtain ⟨rfl, rfl⟩ := Action.pure_eq_ok_iff.mp h
    exact Or.inr ⟨rfl, store, hfile, rfl⟩

/-- A source that was read is in the cache. -/
theorem kept_of_readSource (h : readSource backend snapshot path s = .ok text s') :
    s'.sources.text? snapshot.name path = some text := by
  rcases readSource_cases h with ⟨hkept, rfl⟩ | ⟨hnone, store, -, rfl⟩
  · exact hkept
  · simp [SourceCache.text?_add, hnone]

/-- Nothing that is kept gets lost by reading. -/
theorem readSource_keeps (h : readSource backend snapshot path s = .ok text s')
    {name path' text' : String} (hkept : s.sources.text? name path' = some text') :
    s'.sources.text? name path' = some text' := by
  rcases readSource_cases h with ⟨-, rfl⟩ | ⟨-, store, -, rfl⟩
  · exact hkept
  · simp [SourceCache.text?_add, hkept]

theorem prefetch_cons (path : String) (paths : List String) :
    prefetch backend snapshot (path :: paths) =
      (discard (readSource backend snapshot path) >>= fun _ =>
        prefetch backend snapshot paths) := by
  simp [prefetch]

/-- What is in the cache stays there when sources are fetched. -/
theorem prefetch_keeps {paths : List String} {u : Unit}
    (h : prefetch backend snapshot paths s = .ok u s') {name path' text' : String}
    (hkept : s.sources.text? name path' = some text') :
    s'.sources.text? name path' = some text' := by
  induction paths generalizing s with
  | nil =>
    cases h
    exact hkept
  | cons path rest ih =>
    rw [prefetch_cons] at h
    obtain ⟨_, s₁, hread, hrest⟩ := Action.bind_eq_ok_iff.mp h
    obtain ⟨text, hread⟩ := Action.discard_eq_ok_iff.mp hread
    exact ih hrest (readSource_keeps hread hkept)

/-- After files were read ahead, each of them is kept. -/
theorem kept_of_prefetch {paths : List String} {u : Unit}
    (h : prefetch backend snapshot paths s = .ok u s') (hpath : path ∈ paths) :
    ∃ text, s'.sources.text? snapshot.name path = some text := by
  induction paths generalizing s with
  | nil => simp at hpath
  | cons first rest ih =>
    rw [prefetch_cons] at h
    obtain ⟨_, s₁, hread, hrest⟩ := Action.bind_eq_ok_iff.mp h
    obtain ⟨text, hread⟩ := Action.discard_eq_ok_iff.mp hread
    rcases List.mem_cons.mp hpath with rfl | hpath
    · exact ⟨text, prefetch_keeps hrest (kept_of_readSource hread)⟩
    · exact ih hrest hpath

end Session

end Mutagenesis
