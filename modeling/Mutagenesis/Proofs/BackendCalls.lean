import Mutagenesis.Proofs.OperationLaws

/-!
# Backends as calls with outcomes

A backend carries out calls, and each call has a type of results. Seen this way, a backend can be
changed for all calls at once: `recorded` notes every call with its outcome, and `disturbed` makes
calls fail by a plan, before they have done anything. Statements about sequences of calls are
statements about the events of a recorded backend; statements about all ways in which calls may
fail are statements about all plans of a disturbed one.
-/

set_option autoImplicit false

namespace Mutagenesis

/-- A call of a backend with its arguments. -/
inductive Call where
  | lookup (name : String)
  | fileText (snapshot : Snapshot) (path : String)
  | provision (snapshot : Snapshot)
  | applyPatch (container : Container) (diff : String)
  | build (container : Container)
  | persist (container : Container) (image : String)
  | destroy (container : Container)
  | register (record : Snapshot)
  | deregister (name : String)
  | deleteImage (image : String)
  deriving DecidableEq, Repr

/-- What a call gives when it succeeds. -/
abbrev Call.Result : Call → Type
  | lookup _ => Snapshot
  | fileText _ _ => String
  | provision _ => Container
  | build _ => BuildOutcome
  | _ => Unit

/-- A call that was made, and what came of it. -/
structure Event where
  call : Call
  outcome : Except Fault call.Result

/-- The call failed. -/
def Event.Failed (e : Event) : Prop :=
  ∃ fault, e.outcome = .error fault

namespace Backend

variable {σ : Type}

/-- Makes a call. -/
def run (b : Backend σ) : (call : Call) → Action σ call.Result
  | .lookup name => b.lookup name
  | .fileText snapshot path => b.fileText snapshot path
  | .provision snapshot => b.provision snapshot
  | .applyPatch container diff => b.applyPatch container diff
  | .build container => b.build container
  | .persist container image => b.persist container image
  | .destroy container => b.destroy container
  | .register record => b.register record
  | .deregister name => b.deregister name
  | .deleteImage image => b.deleteImage image

/-- The backend that carries out calls in a given way. -/
def ofRun (run : (call : Call) → Action σ call.Result) : Backend σ where
  lookup name := run (.lookup name)
  fileText snapshot path := run (.fileText snapshot path)
  provision snapshot := run (.provision snapshot)
  applyPatch container diff := run (.applyPatch container diff)
  build container := run (.build container)
  persist container image := run (.persist container image)
  destroy container := run (.destroy container)
  register record := run (.register record)
  deregister name := run (.deregister name)
  deleteImage image := run (.deleteImage image)

@[simp]
theorem run_ofRun (run : (call : Call) → Action σ call.Result) (call : Call) :
    (ofRun run).run call = run call := by
  cases call <;> rfl

end Backend

/-- The state of a backend with the calls made so far. -/
structure Recorded (σ : Type) where
  store : σ
  events : List Event := []

/-- The state of a backend with a plan: for each of the next calls, the fault it fails with, if it
has to fail. -/
structure Disturbed (σ : Type) where
  store : σ
  plan : List (Option Fault) := []

namespace Backend

variable {σ : Type}

/-- Makes a call and notes it with its outcome. -/
def runNoted (b : Backend σ) (call : Call) : Action (Recorded σ) call.Result := fun r =>
  match b.run call r.store with
  | .ok a store => .ok a ⟨store, r.events ++ [⟨call, .ok a⟩]⟩
  | .error fault store => .error fault ⟨store, r.events ++ [⟨call, .error fault⟩]⟩

/-- The same backend, with every call and its outcome noted. -/
def recorded (b : Backend σ) : Backend (Recorded σ) :=
  ofRun b.runNoted

/-- Makes a call, unless the plan has a fault for it. -/
def runPlanned (b : Backend σ) (call : Call) : Action (Disturbed σ) call.Result := fun d =>
  match d.plan.head?.join with
  | some fault => .error fault ⟨d.store, d.plan.tail⟩
  | none =>
    match b.run call d.store with
    | .ok a store => .ok a ⟨store, d.plan.tail⟩
    | .error fault store => .error fault ⟨store, d.plan.tail⟩

/-- The same backend, with calls that fail by a plan. -/
def disturbed (b : Backend σ) : Backend (Disturbed σ) :=
  ofRun b.runPlanned

theorem recorded_ensures {b : Backend σ} {call : Call} {r : Recorded σ}
    {done : call.Result → Recorded σ → Prop} {failed : Fault → Recorded σ → Prop} :
    (b.recorded.run call).Ensures r done failed ↔
      (b.run call).Ensures r.store
        (fun a store => done a ⟨store, r.events ++ [⟨call, .ok a⟩]⟩)
        (fun fault store => failed fault ⟨store, r.events ++ [⟨call, .error fault⟩]⟩) := by
  rw [recorded, run_ofRun]
  unfold Action.Ensures runNoted
  cases b.run call r.store <;> rfl

/-- A call either succeeds or fails, and is noted with that. -/
theorem recorded_noted (b : Backend σ) (call : Call) (r : Recorded σ) :
    (b.recorded.run call).Ensures r (fun a r' => r'.events = r.events ++ [⟨call, .ok a⟩])
      (fun fault r' => r'.events = r.events ++ [⟨call, .error fault⟩]) := by
  rw [recorded_ensures]
  unfold Action.Ensures
  cases b.run call r.store <;> rfl

/-- A call is noted with its outcome. -/
theorem recorded_run (b : Backend σ) (call : Call) (r : Recorded σ) :
    ∃ outcome store,
      b.recorded.run call r = Action.ofExcept outcome ⟨store, r.events ++ [⟨call, outcome⟩]⟩ := by
  rw [recorded, run_ofRun]
  unfold runNoted
  cases b.run call r.store with
  | ok a store => exact ⟨.ok a, store, rfl⟩
  | error fault store => exact ⟨.error fault, store, rfl⟩

/-- What a call ensures when it is made it ensures also under a plan, if nothing happens when it
fails. -/
theorem disturbed_ensures {b : Backend σ} {call : Call} {d : Disturbed σ}
    {done : call.Result → σ → Prop} {failed : Fault → σ → Prop}
    (hcall : (b.run call).Ensures d.store done failed) (hfail : ∀ fault, failed fault d.store) :
    (b.disturbed.run call).Ensures d (fun a d' => done a d'.store)
      (fun fault d' => failed fault d'.store) := by
  rw [disturbed, run_ofRun]
  unfold Action.Ensures at hcall ⊢
  unfold runPlanned
  cases d.plan.head?.join with
  | some fault => exact hfail fault
  | none =>
    cases hrun : b.run call d.store with
    | ok a store =>
      rw [hrun] at hcall
      exact hcall
    | error fault store =>
      rw [hrun] at hcall
      exact hcall

end Backend

/-- The same installation, with every call of its backend noted. -/
def Installation.recorded {σ : Type} (i : Installation σ) : Installation (Recorded σ) :=
  { i.toToolkit with backend := i.backend.recorded }

end Mutagenesis
