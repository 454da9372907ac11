import Mathlib.Data.List.Induction
import Mutagenesis.Proofs.BackendCalls

/-!
# The history of cached sources

What is done with cached sources is told as a history: texts that were wanted, each with the calls
of the backend that it took, and files that were forgotten (`Told`). Between the steps the backend
may become another one. The cache holds for each file the text that the backend gave first since the
file was last forgotten (`firstGiven`, `Faithful`), so a text that is wanted takes a call exactly if
there is none (`Lawful`). A step keeps this (`Faithful.step`), so it holds of every history, and the
calls can be counted (`cache_history`).
-/

set_option autoImplicit false

namespace Mutagenesis

namespace SourceCache

/-- The snapshots and paths of the files that are kept. -/
def keys (c : SourceCache) : List (String × String) :=
  c.map fun file => (file.snapshot, file.path)

theorem mem_keys {c : SourceCache} {name path : String} :
    (name, path) ∈ c.keys ↔ (c.text? name path).isSome = true := by
  unfold keys text?
  rw [Option.isSome_map, List.find?_isSome, List.mem_map]
  simp only [Prod.mk.injEq, decide_eq_true_eq]

theorem nodup_keys_add {c : SourceCache} {name path text : String} (hc : c.keys.Nodup)
    (hnone : c.text? name path = none) : (c.add name path text).keys.Nodup := by
  have hnew : (name, path) ∉ c.keys := by simp [mem_keys, hnone]
  unfold add keys
  rw [hnone, List.map_append]
  refine List.nodup_append.mpr ⟨hc, by simp, ?_⟩
  intro key hkey last hlast hsame
  rw [List.map_singleton, List.mem_singleton] at hlast
  exact hnew (hlast ▸ hsame ▸ hkey)

end SourceCache

/-! ## Histories -/

/-- What is done with cached sources, or happens to the backend in between. -/
inductive CacheStep (σ : Type) where
  | ask (snapshot : Snapshot) (q : SourceQuestion)
  | prefetch (snapshot : Snapshot) (paths : List String)
  | forget (snapshot : Snapshot) (path : String)
  | forgetSnapshot (name : String)
  /-- The backend comes to be in another state. -/
  | change (store : σ)

/-- A text that was wanted: the calls of the backend that it took, and what came of it. -/
structure Access where
  snapshot : Snapshot
  path : String
  calls : List Event
  outcome : Except Fault String

/-- What a history tells of. -/
inductive Moment where
  | access (a : Access)
  /-- A file is forgotten, or all files of a snapshot. -/
  | forget (name : String) (path? : Option String)

/-- The access is to the file. -/
def Access.isOf (a : Access) (name path : String) : Bool :=
  a.snapshot.name = name ∧ a.path = path

theorem Access.isOf_iff {a : Access} {name path : String} :
    a.isOf name path = true ↔ a.snapshot.name = name ∧ a.path = path := by
  simp [Access.isOf]

namespace Moment

variable (name path : String)

def calls : Moment → List Event
  | access a => a.calls
  | _ => []

/-- The file is forgotten. -/
def forgets : Moment → Bool
  | access _ => false
  | forget name' path? => name' = name ∧ path?.getD path = path

/-- The file is wanted or forgotten. -/
def concerns : Moment → Bool
  | access a => a.isOf name path
  | m => m.forgets name path

/-- The backend is called for the file. -/
def callsFor : Moment → Bool
  | access a => a.isOf name path && !a.calls.isEmpty
  | _ => false

/-- The text of the file is wanted in vain. -/
def failsFor : Moment → Bool
  | access a => a.isOf name path && a.outcome.toOption.isNone
  | _ => false

/-- The text that the backend gives for the file. -/
def given? : Moment → Option String
  | access a => if a.isOf name path && !a.calls.isEmpty then a.outcome.toOption else none
  | _ => none

end Moment

/-- What was since a file was last forgotten. -/
def since (name path : String) (past : List Moment) : List Moment :=
  (past.reverse.takeWhile fun m => !m.forgets name path).reverse

/-- The text that the backend gave first since a file was last forgotten. -/
def firstGiven (name path : String) (past : List Moment) : Option String :=
  (since name path past).findSome? (·.given? name path)

/-- A text that is wanted after a history is the one that the backend gave, and takes no call; but
if it gave none, then what comes of one call is the outcome. -/
def Access.LawfulAfter (past : List Moment) (a : Access) : Prop :=
  match firstGiven a.snapshot.name a.path past with
  | some text => a.calls = [] ∧ a.outcome = .ok text
  | none => a.calls = [⟨.fileText a.snapshot a.path, a.outcome⟩]

/-- Every access is lawful after what was before it. -/
def Lawful (past : List Moment) : Prop :=
  ∀ before a later, past = before ++ .access a :: later → a.LawfulAfter before

section

variable {name path : String} {past : List Moment} {m : Moment} {a : Access}

theorem since_concat : since name path (past ++ [m]) =
    if m.forgets name path then [] else since name path past ++ [m] := by
  unfold since
  rw [List.reverse_append, List.reverse_singleton, List.singleton_append, List.takeWhile_cons]
  cases m.forgets name path <;> simp

theorem firstGiven_concat : firstGiven name path (past ++ [m]) =
    if m.forgets name path then none
    else (firstGiven name path past).or (m.given? name path) := by
  unfold firstGiven
  rw [since_concat]
  split
  · rfl
  · rw [List.findSome?_append, List.findSome?_singleton]

/-- After a lawful access its outcome is what is given for its file; nothing changes for others. -/
theorem firstGiven_access (h : a.LawfulAfter past) :
    firstGiven name path (past ++ [.access a]) =
      if a.isOf name path then a.outcome.toOption else firstGiven name path past := by
  rw [firstGiven_concat]
  cases hof : a.isOf name path with
  | false => simp [Moment.forgets, Moment.given?, hof]
  | true =>
    obtain ⟨rfl, rfl⟩ := Access.isOf_iff.mp hof
    unfold Access.LawfulAfter at h
    cases hfirst : firstGiven a.snapshot.name a.path past with
    | some text =>
      rw [hfirst] at h
      simp [Moment.forgets, h.2, Except.toOption]
    | none =>
      rw [hfirst] at h
      simp [Moment.forgets, Moment.given?, hof, h]

theorem Lawful.concat (h : Lawful past) (hm : ∀ a, m = .access a → a.LawfulAfter past) :
    Lawful (past ++ [m]) := by
  intro before a later hsplit
  rcases List.eq_nil_or_concat later with rfl | ⟨later, last, rfl⟩
  · obtain ⟨rfl, hlast⟩ := List.append_inj' hsplit rfl
    exact hm a (List.singleton_inj.mp hlast)
  · rw [List.concat_eq_append, ← List.cons_append, ← List.append_assoc] at hsplit
    exact h before a later (List.append_inj' hsplit rfl).1

theorem Lawful.of_append {later : List Moment} (h : Lawful (past ++ later)) : Lawful past := by
  rintro before a rest rfl
  exact h before a (rest ++ later) (by simp)

/-- Since a file was last forgotten, the backend was called for it once if it gave its text, and
once for every time that the text was wanted in vain. -/
theorem countP_callsFor (h : Lawful past) :
    (since name path past).countP (·.callsFor name path) =
      (firstGiven name path past).toList.length +
        (since name path past).countP (·.failsFor name path) := by
  induction past using List.reverseRecOn with
  | nil => rfl
  | append_singleton past m ih =>
    specialize ih h.of_append
    rw [since_concat]
    cases m with
    | access a =>
      have ha : a.LawfulAfter past := h past a [] rfl
      rw [firstGiven_access ha, if_neg (by simp [Moment.forgets]), List.countP_append,
        List.countP_append, ih]
      cases hof : a.isOf name path with
      | false => simp [Moment.callsFor, Moment.failsFor, hof]
      | true =>
        obtain ⟨rfl, rfl⟩ := Access.isOf_iff.mp hof
        unfold Access.LawfulAfter at ha
        cases hfirst : firstGiven a.snapshot.name a.path past with
        | some text =>
          rw [hfirst] at ha
          simp [Moment.callsFor, Moment.failsFor, ha.1, ha.2, Except.toOption]
        | none =>
          rw [hfirst] at ha
          cases hout : a.outcome <;>
            simp [Moment.callsFor, Moment.failsFor, hof, ha, hout, Except.toOption]
          all_goals omega
    | forget name' path? =>
      rw [firstGiven_concat]
      split
      · rfl
      · rw [List.countP_append, List.countP_append, ih]
        simp [Moment.callsFor, Moment.failsFor, Moment.given?]

theorem firstGiven_append_accesses {text : String} (h : firstGiven name path past = some text)
    (as : List Access) : firstGiven name path (past ++ as.map .access) = some text := by
  induction as generalizing past with
  | nil => simpa using h
  | cons a as ih =>
    have hnext : firstGiven name path (past ++ [.access a]) = some text := by
      rw [firstGiven_concat, h]
      rfl
    simpa using ih hnext

end

/-! ## What comes of a step -/

/-- Files of a snapshot are wanted one after the other, until one fails. -/
inductive InTurn (snapshot : Snapshot) : List String → List Access → Except Fault Unit → Prop where
  | done : InTurn snapshot [] [] (.ok ())
  | next {a : Access} {text : String} {paths : List String} {as : List Access}
      {outcome : Except Fault Unit} (hsnapshot : a.snapshot = snapshot)
      (ha : a.outcome = .ok text) (rest : InTurn snapshot paths as outcome) :
      InTurn snapshot (a.path :: paths) (a :: as) outcome
  | fail {a : Access} {fault : Fault} {paths : List String} (hsnapshot : a.snapshot = snapshot)
      (ha : a.outcome = .error fault) : InTurn snapshot (a.path :: paths) [a] (.error fault)

/-- After files were wanted in turn, those that could be read are held, and the one that could not
is not; nothing changes for others. -/
theorem InTurn.firstGiven_accesses {snapshot : Snapshot} {paths : List String} {as : List Access}
    {outcome : Except Fault Unit} {past : List Moment} (h : InTurn snapshot paths as outcome)
    (hlawful : Lawful (past ++ as.map .access)) :
    (∀ a ∈ as, firstGiven a.snapshot.name a.path (past ++ as.map .access) = a.outcome.toOption) ∧
      ∀ name path, (∀ a ∈ as, a.isOf name path = false) →
        firstGiven name path (past ++ as.map .access) = firstGiven name path past := by
  induction h generalizing past with
  | done => simp
  | @fail a fault paths hsnapshot ha =>
    have hafter : a.LawfulAfter past := hlawful past a [] rfl
    rw [List.map_singleton]
    refine ⟨?_, fun name path hother => ?_⟩
    · simp [firstGiven_access hafter, Access.isOf]
    · rw [firstGiven_access hafter, hother a (by simp)]
      rfl
  | @next a text paths as outcome hsnapshot ha rest ih =>
    have hafter : a.LawfulAfter past := hlawful past a _ rfl
    rw [List.map_cons, List.append_cons] at hlawful ⊢
    obtain ⟨hrest, hothers⟩ := ih hlawful
    have hheld : firstGiven a.snapshot.name a.path (past ++ [.access a]) = some text := by
      simp [firstGiven_access hafter, Access.isOf, ha, Except.toOption]
    refine ⟨?_, fun name path hother => ?_⟩
    · rintro a' (_ | ⟨_, hmem⟩)
      · rw [firstGiven_append_accesses hheld, ha]
        rfl
      · exact hrest a' hmem
    · rw [hothers name path fun a' hmem => hother a' (by simp [hmem]), firstGiven_access hafter,
        hother a (by simp)]
      rfl

/-- What is answered to a question about a file with a text: the text itself, or what is computed
from it. -/
inductive SourceQuestion.Answers (cs : List Char) :
    (q : SourceQuestion) → Except PositionFault q.Answer → Prop where
  | text {path : String} : Answers cs (.text path) (.ok cs)
  | lineStarts {path : String} : Answers cs (.lineStarts path) (.ok (SourceText.lineStarts cs))
  | lineCount {path : String} : Answers cs (.lineCount path) (.ok (SourceText.lineCount cs))
  | offset {path : String} {line column : Nat} :
      Answers cs (.offset path line column) (SourceText.offsetOf cs line column)
  | location {path : String} {offset : Nat} :
      Answers cs (.location path offset) (SourceText.locationOf cs offset)
  | line {path : String} {line : Nat} : Answers cs (.line path line) (SourceText.line cs line)
  | chars {span : FileSpan} : Answers cs (.chars span) (SourceText.chars cs span)

/-- Every question has its answer. -/
theorem SourceQuestion.answers_answer (q : SourceQuestion) (cs : List Char) :
    q.Answers cs (q.answer cs) := by
  cases q <;> constructor

section

variable {σ : Type}

/-- What comes of a step with a backend whose calls are noted, and what is told of it. A question is
answered from the text that was wanted for it, and fails if that was wanted in vain. -/
inductive Tells (b : Backend σ) :
    Session (Recorded σ) → CacheStep σ → List Moment → Session (Recorded σ) → Prop where
  | ask {t t' : Session (Recorded σ)} {q : SourceQuestion} {a : Access} {text : String}
      {answer : Except PositionFault q.Answer} (hpath : a.path = q.path) (ha : a.outcome = .ok text)
      (hanswer : q.Answers text.toList answer)
      (h : Session.ask b.recorded a.snapshot q t =
        Action.ofExcept (formatted .position answer) t') :
      Tells b t (.ask a.snapshot q) [.access a] t'
  | askInVain {t t' : Session (Recorded σ)} {q : SourceQuestion} {a : Access} {fault : Fault}
      (hpath : a.path = q.path) (ha : a.outcome = .error fault)
      (h : Session.ask b.recorded a.snapshot q t = .error fault t') :
      Tells b t (.ask a.snapshot q) [.access a] t'
  | prefetch {t t' : Session (Recorded σ)} {snapshot : Snapshot} {paths : List String}
      {as : List Access} {outcome : Except Fault Unit} (hturn : InTurn snapshot paths as outcome)
      (h : Session.prefetch b.recorded snapshot paths t = Action.ofExcept outcome t') :
      Tells b t (.prefetch snapshot paths) (as.map .access) t'
  | forget {t t' : Session (Recorded σ)} {snapshot : Snapshot} {path : String}
      (h : Session.updateSources (·.forget snapshot.name path) t = .ok () t') :
      Tells b t (.forget snapshot path) [.forget snapshot.name (some path)] t'
  | forgetSnapshot {t t' : Session (Recorded σ)} {name : String}
      (h : Session.updateSources (·.forgetSnapshot name) t = .ok () t') :
      Tells b t (.forgetSnapshot name) [.forget name none] t'
  | change {t : Session (Recorded σ)} {store : σ} :
      Tells b t (.change store) [] { t with store := { t.store with store := store } }

/-- What a step leaves in the cache: the texts of the files that were wanted, unless they could not
be read, none of those that were forgotten, and of all others what was there. -/
structure LeavesCached (c : SourceCache) (ms : List Moment) (c' : SourceCache) : Prop where
  accessed : ∀ a, .access a ∈ ms → c'.text? a.snapshot.name a.path = a.outcome.toOption
  forgotten : ∀ name path, ms.any (·.forgets name path) = true → c'.text? name path = none
  others : ∀ name path, ms.any (·.concerns name path) = false →
    c'.text? name path = c.text? name path

/-- What is told of steps that follow each other. -/
inductive Told (b : Backend σ) :
    Session (Recorded σ) → List (CacheStep σ) → List Moment → Session (Recorded σ) → Prop where
  | nil {t : Session (Recorded σ)} : Told b t [] [] t
  | cons {t t₁ t' : Session (Recorded σ)} {step : CacheStep σ} {steps : List (CacheStep σ)}
      {ms past : List Moment} (first : Tells b t step ms t₁)
      (leaves : LeavesCached t.sources ms t₁.sources) (rest : Told b t₁ steps past t') :
      Told b t (step :: steps) (ms ++ past) t'

/-- A session is as its history says: it holds the texts that were given, each once, the calls of
the backend are those that were told of, and all accesses were lawful. -/
structure Faithful (t : Session (Recorded σ)) (past : List Moment) : Prop where
  held : ∀ name path, t.sources.text? name path = firstGiven name path past
  distinct : t.sources.keys.Nodup
  calls : t.store.events = past.flatMap Moment.calls
  lawful : Lawful past

/-- A text that is not kept takes one call, and is kept if there is one. -/
theorem Session.readSource_of_none (b : Backend σ) {t : Session (Recorded σ)} {snapshot : Snapshot}
    {path : String} (h : t.sources.text? snapshot.name path = none) :
    ∃ outcome store, readSource b.recorded snapshot path t = Action.ofExcept outcome
      { t with
        store := ⟨store, t.store.events ++ [⟨.fileText snapshot path, outcome⟩]⟩
        sources :=
          match outcome with
          | .ok text => t.sources.add snapshot.name path text
          | .error _ => t.sources } := by
  obtain ⟨outcome, store, hcall⟩ := b.recorded_run (.fileText snapshot path) t.store
  have hread : onStore (b.recorded.fileText snapshot path) t = Action.ofExcept outcome
      { t with store := ⟨store, t.store.events ++ [⟨.fileText snapshot path, outcome⟩]⟩ } :=
    Action.on_of_ofExcept hcall
  refine ⟨outcome, store, ?_⟩
  unfold readSource
  rw [Action.bind_of_ok (Action.get_apply t), h]
  cases outcome with
  | ok text => exact Action.bind_of_ok hread _
  | error fault => exact Action.bind_of_error hread _

namespace Faithful

variable {t t' : Session (Recorded σ)} {past : List Moment} (h : Faithful t past)
include h

/-- A lawful access keeps a history faithful. -/
theorem access {a : Access} (ha : a.LawfulAfter past)
    (hheld : ∀ name path, t'.sources.text? name path =
      if a.isOf name path then a.outcome.toOption else t.sources.text? name path)
    (hdistinct : t'.sources.keys.Nodup) (hcalls : t'.store.events = t.store.events ++ a.calls) :
    Faithful t' (past ++ [.access a]) where
  held name path := by rw [hheld, firstGiven_access ha, h.held]
  distinct := hdistinct
  calls := by simp [hcalls, h.calls, Moment.calls]
  lawful := h.lawful.concat fun a' h' => by
    cases h'
    exact ha

/-- Reading a source is a lawful access. -/
theorem read (b : Backend σ) (snapshot : Snapshot) (path : String) :
    ∃ a t', a.snapshot = snapshot ∧ a.path = path ∧
      Session.readSource b.recorded snapshot path t = Action.ofExcept a.outcome t' ∧
      Faithful t' (past ++ [.access a]) := by
  have hfirst := h.held snapshot.name path
  cases hkept : t.sources.text? snapshot.name path with
  | some text =>
    rw [hkept] at hfirst
    refine ⟨⟨snapshot, path, [], .ok text⟩, t, rfl, rfl, Session.readSource_of_kept hkept, ?_⟩
    refine h.access (by simp [Access.LawfulAfter, ← hfirst]) ?_ h.distinct (by simp)
    intro name' path'
    by_cases hof : snapshot.name = name' ∧ path = path'
    · obtain ⟨rfl, rfl⟩ := hof
      simp [Access.isOf, hkept, Except.toOption]
    · simp [Access.isOf, hof]
  | none =>
    rw [hkept] at hfirst
    obtain ⟨outcome, store, hread⟩ := Session.readSource_of_none b hkept
    refine ⟨⟨snapshot, path, [⟨.fileText snapshot path, outcome⟩], outcome⟩, _, rfl, rfl, hread, ?_⟩
    refine h.access (by simp [Access.LawfulAfter, ← hfirst]) ?_ ?_ rfl
    · intro name' path'
      by_cases hof : snapshot.name = name' ∧ path = path'
      · obtain ⟨rfl, rfl⟩ := hof
        cases outcome <;> simp [Access.isOf, SourceCache.text?_add, hkept, Except.toOption]
      · cases outcome <;> simp [Access.isOf, SourceCache.text?_add, hof]
    · cases outcome with
      | ok text => exact SourceCache.nodup_keys_add h.distinct hkept
      | error fault => exact h.distinct

/-- Fetching sources makes accesses in turn, which keep the history faithful. -/
theorem prefetch (b : Backend σ) (snapshot : Snapshot) (paths : List String) :
    ∃ as outcome t', InTurn snapshot paths as outcome ∧
      Session.prefetch b.recorded snapshot paths t = Action.ofExcept outcome t' ∧
      Faithful t' (past ++ as.map .access) := by
  induction paths generalizing t past with
  | nil => exact ⟨[], .ok (), t, .done, rfl, by simpa using h⟩
  | cons path paths ih =>
    obtain ⟨a, t₁, hsnapshot, rfl, hread, hnext⟩ := h.read b snapshot path
    cases ha : a.outcome with
    | error fault =>
      refine ⟨[a], .error fault, t₁, .fail hsnapshot ha, ?_, hnext⟩
      rw [ha] at hread
      rw [Session.prefetch_cons, Action.bind_of_error (Action.discard_of_error hread)]
      rfl
    | ok text =>
      obtain ⟨as, outcome, t', hturn, hrest, hlast⟩ := ih hnext
      refine ⟨a :: as, outcome, t', .next hsnapshot ha hturn, ?_, by simpa using hlast⟩
      rw [ha] at hread
      rw [Session.prefetch_cons,
        Action.bind_of_ok (Action.discard_eq_ok_iff (u := ()).mpr ⟨text, hread⟩), hrest]

/-- Forgetting files leaves a session as the history says. -/
theorem forget {name : String} {path? : Option String} {p : CachedFile → Bool}
    (hp : ∀ file, p file = !(Moment.forget name path?).forgets file.snapshot file.path) :
    Faithful { t with sources := t.sources.filter p } (past ++ [.forget name path?]) where
  held name' path' := by
    rw [firstGiven_concat, ← h.held]
    refine (SourceCache.text?_filter (fun name' path' =>
      (Moment.forget name path?).forgets name' path') hp name' path').trans ?_
    simp [Moment.given?]
  distinct := h.distinct.sublist (List.filter_sublist.map _)
  calls := by simp [h.calls, Moment.calls]
  lawful := h.lawful.concat (by simp)

theorem leaves_forget {name : String} {path? : Option String}
    (h' : Faithful t' (past ++ [.forget name path?])) :
    LeavesCached t.sources [.forget name path?] t'.sources where
  accessed := by simp
  forgotten name' path' hforgets := by
    rw [h'.held, firstGiven_concat, if_pos (by simpa using hforgets)]
  others name' path' hother := by
    rw [h'.held, h.held, firstGiven_concat, if_neg (by simpa [Moment.concerns] using hother)]
    simp [Moment.given?]

/-- After accesses in turn, the cache holds what they got. -/
theorem leaves_inTurn {snapshot : Snapshot} {paths : List String} {as : List Access}
    {outcome : Except Fault Unit} (hturn : InTurn snapshot paths as outcome)
    (h' : Faithful t' (past ++ as.map .access)) :
    LeavesCached t.sources (as.map .access) t'.sources where
  accessed a ha := by
    rw [h'.held]
    exact (hturn.firstGiven_accesses h'.lawful).1 a (by simpa using ha)
  forgotten := by simp [Moment.forgets]
  others name path hother := by
    rw [h'.held, h.held]
    exact (hturn.firstGiven_accesses h'.lawful).2 name path
      (by simpa [Moment.concerns] using hother)

theorem leaves_access {a : Access} (h' : Faithful t' (past ++ [.access a])) :
    LeavesCached t.sources [.access a] t'.sources := by
  cases ha : a.outcome with
  | ok text => exact h.leaves_inTurn (.next rfl ha .done) h'
  | error fault =>
    have hturn : InTurn a.snapshot [a.path] [a] (.error fault) := .fail rfl ha
    exact h.leaves_inTurn hturn h'

/-- A step keeps a session as its history says. -/
theorem step (b : Backend σ) (step : CacheStep σ) :
    ∃ ms t', Tells b t step ms t' ∧ LeavesCached t.sources ms t'.sources ∧
      Faithful t' (past ++ ms) := by
  cases step with
  | ask snapshot q =>
    obtain ⟨a, t', rfl, hpath, hread, hnext⟩ := h.read b snapshot q.path
    refine ⟨[.access a], t', ?_, h.leaves_access hnext, hnext⟩
    cases ha : a.outcome with
    | ok text =>
      rw [ha] at hread
      exact .ask hpath ha (q.answers_answer _) (Action.bind_ofExcept hread _)
    | error fault =>
      rw [ha] at hread
      exact .askInVain hpath ha (Action.bind_ofExcept hread _)
  | prefetch snapshot paths =>
    obtain ⟨as, outcome, t', hturn, hprefetch, hnext⟩ := h.prefetch b snapshot paths
    exact ⟨as.map .access, t', .prefetch hturn hprefetch, h.leaves_inTurn hturn hnext, hnext⟩
  | forget snapshot path =>
    have hnext : Faithful { t with sources := t.sources.forget snapshot.name path }
        (past ++ [.forget snapshot.name (some path)]) :=
      h.forget fun file => by simp [Moment.forgets, eq_comm]
    exact ⟨_, _, .forget rfl, h.leaves_forget hnext, hnext⟩
  | forgetSnapshot name =>
    have hnext : Faithful { t with sources := t.sources.forgetSnapshot name }
        (past ++ [.forget name none]) :=
      h.forget fun file => by simp [Moment.forgets, eq_comm]
    exact ⟨_, _, .forgetSnapshot rfl, h.leaves_forget hnext, hnext⟩
  | change store =>
    refine ⟨[], _, .change, ⟨by simp, by simp, fun _ _ _ => rfl⟩, ?_⟩
    rw [List.append_nil]
    exact ⟨h.held, h.distinct, h.calls, h.lawful⟩

theorem run (b : Backend σ) (steps : List (CacheStep σ)) :
    ∃ told t', Told b t steps told t' ∧ Faithful t' (past ++ told) := by
  induction steps generalizing t past with
  | nil => exact ⟨[], t, .nil, by simpa using h⟩
  | cons step steps ih =>
    obtain ⟨ms, t₁, htells, hleaves, hnext⟩ := h.step b step
    obtain ⟨told, t', htold, hlast⟩ := ih hnext
    exact ⟨ms ++ told, t', .cons htells hleaves htold, by simpa using hlast⟩

end Faithful

/-- Whatever is done with cached sources, and whatever becomes of the backend in between: a text
that is wanted is the one that the backend gave first since the file was last forgotten, and takes a
call only if there is none. So since then a file took one call if its text is held, and one for each
time that it could not be read. A step leaves exactly what it should, and as many texts are held as
there are files whose text was given. -/
theorem cache_history (b : Backend σ) (store : σ) (steps : List (CacheStep σ)) :
    ∃ past t, Told b { store := { store := store } } steps past t ∧ Faithful t past ∧
      (∀ before later, past = before ++ later → ∀ name path,
        (since name path before).countP (·.callsFor name path) =
          (firstGiven name path before).toList.length +
            (since name path before).countP (·.failsFor name path)) ∧
      ∃ keys : List (String × String), keys.Nodup ∧ t.sources.length = keys.length ∧
        ∀ name path, (name, path) ∈ keys ↔ (firstGiven name path past).isSome = true := by
  have hstart : Faithful (σ := σ) { store := { store := store } } [] :=
    ⟨fun _ _ => rfl, .nil, rfl, by simp [Lawful]⟩
  obtain ⟨past, t, htold, h⟩ := hstart.run b steps
  rw [List.nil_append] at h
  refine ⟨past, t, htold, h, ?_, t.sources.keys, h.distinct, by simp [SourceCache.keys], ?_⟩
  · rintro before later rfl name path
    exact countP_callsFor h.lawful.of_append
  · intro name path
    rw [SourceCache.mem_keys, h.held]

end

end Mutagenesis
