import Mutagenesis.MemoryStore
import Mutagenesis.Proofs.Action
import Mutagenesis.Proofs.Rosters

/-!
# What the calls of the backend in memory do

Each call of the backend in memory has one law: what it leaves when it succeeds, and that it leaves
all but the log as it was when it fails.
-/

set_option autoImplicit false

namespace Mutagenesis

namespace MemoryStore

open Mutagenesis.Action (ensures_bind)

variable {s : MemoryStore}

/-- The same store with another log. -/
def withLog (s : MemoryStore) (log : List String) : MemoryStore :=
  { s with log := log }

/-- Entering a call changes only the log. -/
theorem enter_ensures (call : String) (about : List String) :
    (enter call about).Ensures s (fun _ s' => ∃ log, s' = s.withLog log)
      (fun _ s' => ∃ log, s' = s.withLog log) := by
  unfold Action.Ensures enter
  dsimp only
  split
  · next heq =>
    split at heq
    · cases heq
    · cases heq
      exact ⟨_, rfl⟩
  · next heq =>
    split at heq
    · cases heq
      exact ⟨_, rfl⟩
    · cases heq

/-- A call that is entered before it does anything: what holds after both parts holds after it. -/
theorem entered {α : Type} {call : String} {about : List String} {rest : Action MemoryStore α}
    {done : α → MemoryStore → Prop}
    (h : ∀ log, rest.Ensures (s.withLog log) done (fun _ s' => ∃ log, s' = s.withLog log)) :
    (enter call about >>= fun _ => rest).Ensures s done
      (fun _ s' => ∃ log, s' = s.withLog log) := by
  rw [ensures_bind]
  refine (enter_ensures call about).mono ?_ fun _ _ hlog => hlog
  rintro _ _ ⟨log, rfl⟩
  exact h log

/-- A record that is looked up is there, and only the log grows. -/
theorem lookup_ensures (name : String) :
    (lookup name).Ensures s
      (fun record s' => Roster.find? Snapshot.name name s.snapshots = some record ∧
        ∃ log, s' = s.withLog log)
      (fun _ s' => ∃ log, s' = s.withLog log) := by
  refine entered fun log => ?_
  rw [ensures_bind, Action.ensures_get]
  split
  · next record hfound => exact ⟨hfound, log, rfl⟩
  · exact ⟨log, rfl⟩

/-- The text that is read is that of the image's file, and only the log grows. -/
theorem fileText_ensures (snapshot : Snapshot) (path : String) :
    (fileText snapshot path).Ensures s
      (fun text s' => (s.imageFiles snapshot.image).lookup path = some text ∧
        ∃ log, s' = s.withLog log)
      (fun _ s' => ∃ log, s' = s.withLog log) := by
  refine entered fun log => ?_
  rw [ensures_bind, Action.ensures_get]
  split
  · next text htext => exact ⟨htext, log, rfl⟩
  · exact ⟨log, rfl⟩

/-- The name of the next container. -/
def nextName (s : MemoryStore) : String :=
  s!"c{s.nextContainer}"

theorem nextName_eq (s : MemoryStore) :
    s.nextName.toList = 'c' :: Nat.toDigits 10 s.nextContainer := by
  simp [nextName, toString, Nat.repr]

/-- Every container has one of the numbers given out so far. -/
def Numbered (s : MemoryStore) : Prop :=
  ∀ c ∈ s.containers, ∃ n < s.nextContainer, c.name.toList = 'c' :: Nat.toDigits 10 n

/-- The name of the next container is not in use. -/
theorem Numbered.find?_nextName (h : s.Numbered) :
    Roster.find? FileSet.name s.nextName s.containers = none := by
  unfold Roster.find?
  rw [List.find?_eq_none]
  intro c hc
  obtain ⟨n, hn, hname⟩ := h c hc
  intro heq
  rw [of_decide_eq_true heq, nextName_eq] at hname
  have hdigits := congrArg (Nat.ofDigitChars 10 · 0) (List.cons.inj hname).2
  simp only [Nat.ofDigitChars_toDigits (by decide : 1 < 10) (by decide : 10 ≤ 10)] at hdigits
  omega

theorem provision_ensures (snapshot : Snapshot) :
    (provision snapshot).Ensures s
      (fun c s' => c = ⟨s.nextName, snapshot.name⟩ ∧ ∃ log, s' =
        { s.withLog log with
          nextContainer := s.nextContainer + 1
          containers := s.containers ++ [⟨s.nextName, s.imageFiles snapshot.image⟩] })
      (fun _ s' => ∃ log, s' = s.withLog log) := by
  refine entered fun log => ?_
  exact ⟨rfl, log, rfl⟩

/-- A patch changes the files of one container. -/
theorem applyPatch_ensures (c : Container) (diff : String) :
    (applyPatch c diff).Ensures s
      (fun _ s' => ∃ patches files, Diff.parse diff.toList = .ok patches ∧
        patches.foldlM patchFiles (s.containerFiles c.id) = .ok files ∧ ∃ log, s' =
          { s.withLog log with
            containers := Roster.put FileSet.name ⟨c.id, files⟩ s.containers })
      (fun _ s' => ∃ log, s' = s.withLog log) := by
  refine entered fun log => ?_
  rw [ensures_bind, Action.ensures_ofExcept]
  refine ⟨fun patches hpatches => ?_, fun _ _ => ⟨log, rfl⟩⟩
  rw [ensures_bind, Action.ensures_get, ensures_bind, Action.ensures_ofExcept]
  refine ⟨fun files hfiles => ?_, fun _ _ => ⟨log, rfl⟩⟩
  refine ⟨patches, files, ?_, hfiles, log, rfl⟩
  cases hparse : Diff.parse diff.toList with
  | ok ps =>
    rw [hparse] at hpatches
    cases hpatches
    rfl
  | error fault =>
    rw [hparse] at hpatches
    cases hpatches

theorem build_ensures (c : Container) :
    (build c).Ensures s (fun _ s' => ∃ log, s' = s.withLog log)
      (fun _ s' => ∃ log, s' = s.withLog log) := by
  refine entered fun log => ?_
  exact ⟨log, rfl⟩

theorem persist_ensures (c : Container) (image : String) :
    (persist c image).Ensures s
      (fun _ s' => ∃ log, s' =
        { s.withLog log with
          images := Roster.put FileSet.name ⟨image, s.containerFiles c.id⟩ s.images })
      (fun _ s' => ∃ log, s' = s.withLog log) := by
  refine entered fun log => ?_
  exact ⟨log, rfl⟩

theorem destroy_ensures (c : Container) :
    (destroy c).Ensures s
      (fun _ s' => ∃ log, s' =
        { s.withLog log with containers := Roster.erase FileSet.name c.id s.containers })
      (fun _ s' => ∃ log, s' = s.withLog log) := by
  refine entered fun log => ?_
  exact ⟨log, rfl⟩

theorem register_ensures (record : Snapshot) :
    (register record).Ensures s
      (fun _ s' => ∃ log, s' =
        { s.withLog log with snapshots := Roster.put Snapshot.name record s.snapshots })
      (fun _ s' => ∃ log, s' = s.withLog log) := by
  refine entered fun log => ?_
  exact ⟨log, rfl⟩

/-- A record is taken out, and nothing else. -/
theorem deregister_ensures (name : String) :
    (deregister name).Ensures s
      (fun _ s' => ∃ log, s' =
        { s.withLog log with snapshots := Roster.erase Snapshot.name name s.snapshots })
      (fun _ s' => ∃ log, s' = s.withLog log) := by
  refine entered fun log => ?_
  rw [ensures_bind, Action.ensures_get]
  split
  · exact ⟨log, rfl⟩
  · exact ⟨log, rfl⟩

/-- An image is taken out, and nothing else. -/
theorem deleteImage_ensures (image : String) :
    (deleteImage image).Ensures s
      (fun _ s' => ∃ log, s' =
        { s.withLog log with images := Roster.erase FileSet.name image s.images })
      (fun _ s' => ∃ log, s' = s.withLog log) := by
  refine entered fun log => ?_
  rw [ensures_bind, Action.ensures_get]
  split
  · exact ⟨log, rfl⟩
  · exact ⟨log, rfl⟩

end MemoryStore

end Mutagenesis
