/-!
# Edit scripts

An edit script turns one sequence into another one by keeping, removing and inserting runs of
items. `script` finds one by divide and conquer: what both sequences share at their ends is kept,
and the rest is split at a point on a shortest path, which is searched from both ends at once.
-/

set_option autoImplicit false

namespace Mutagenesis.LineDiff

/-- What an edit does with its run of items. -/
inductive EditKind where
  | keep
  | remove
  | insert
  | replace
  deriving DecidableEq, Repr

/-- An edit: a run of the old sequence and the run of the new sequence that stands for it. -/
structure Edit where
  kind : EditKind
  oldIndex : Nat
  oldLength : Nat
  newIndex : Nat
  newLength : Nat
  deriving DecidableEq, Repr

section

variable {α : Type} [DecidableEq α]

def commonStart : List α → List α → Nat
  | a :: as, b :: bs => if a = b then commonStart as bs + 1 else 0
  | _, _ => 0

def commonEnd (as bs : List α) : Nat :=
  commonStart as.reverse bs.reverse

/-- How far a search has come on each diagonal; zero where it has not been. -/
structure Reach where
  entries : List (Int × Int)
  deriving Repr

namespace Reach

def start : Reach := ⟨[]⟩

def get (r : Reach) (diagonal : Int) : Int :=
  (r.entries.lookup diagonal).getD 0

def setEntry (diagonal far : Int) : List (Int × Int) → List (Int × Int)
  | [] => [(diagonal, far)]
  | (k, x) :: rest =>
    if k = diagonal then (k, far) :: rest else (k, x) :: setEntry diagonal far rest

def set (r : Reach) (diagonal far : Int) : Reach :=
  ⟨setEntry diagonal far r.entries⟩

end Reach

/-- The two searches of a split, from the start and from the end. They outlive a split: what one
has recorded is still there for the next. -/
structure Searches where
  forward : Reach
  backward : Reach
  deriving Repr

/-- The two sequences of a split and their reversals. -/
structure Pair (α : Type) where
  old : List α
  new : List α
  oldReversed : List α
  newReversed : List α

namespace Pair

def of (old new : List α) : Pair α :=
  ⟨old, new, old.reverse, new.reverse⟩

def oldSize (p : Pair α) : Int := p.old.length

def newSize (p : Pair α) : Int := p.new.length

def delta (p : Pair α) : Int := p.oldSize - p.newSize

end Pair

/-- Where the next step on a diagonal starts: down from the diagonal above or right from the one
below, whichever comes farther. -/
def stepStart (r : Reach) (d k : Int) : Int :=
  if k = -d ∨ (k ≠ d ∧ r.get (k - 1) < r.get (k + 1)) then r.get (k + 1) else r.get (k - 1) + 1

/-- How many equal items follow the point (x, y) of two sequences. -/
def slide (as bs : List α) (x y : Int) : Int :=
  if x < as.length ∧ 0 ≤ y ∧ y < bs.length then
    commonStart (as.drop x.toNat) (bs.drop y.toNat)
  else 0

/-- The result of a search: it has met the other one at a point, or goes on. -/
inductive Progress where
  | met (x y : Int) (searches : Searches)
  | going (searches : Searches)

/-- One round of the search from the start, over the given diagonals. -/
def forwardRound (p : Pair α) (d : Int) : List Int → Searches → Progress
  | [], s => .going s
  | k :: ks, s =>
    let x := stepStart s.forward d k
    let y := x - k
    let far := x + slide p.old p.new x y
    let s := { s with forward := s.forward.set k far }
    if p.delta % 2 = 1 ∧ (k - p.delta).natAbs ≤ d - 1 ∧
        p.oldSize ≤ far + s.backward.get (-(k - p.delta)) then .met x y s
    else forwardRound p d ks s

/-- One round of the search from the end, over the given diagonals. -/
def backwardRound (p : Pair α) (d : Int) : List Int → Searches → Progress
  | [], s => .going s
  | k :: ks, s =>
    let x := stepStart s.backward d k
    let y := x - k
    let n := slide p.oldReversed p.newReversed x y
    let far := x + n
    let s := { s with backward := s.backward.set k far }
    if p.delta % 2 ≠ 1 ∧ (k - p.delta).natAbs ≤ d ∧
        p.oldSize ≤ far + s.forward.get (-(k - p.delta)) then
      .met (p.oldSize - far) (p.newSize - (y + n)) s
    else backwardRound p d ks s

/-- The diagonals of a round: every second one from d down to -d. -/
def diagonals (d : Nat) : List Int :=
  (List.range (d + 1)).map fun (i : Nat) => (d : Int) - 2 * (i : Int)

/-- Rounds of both searches, until they meet. -/
def rounds (p : Pair α) : List Nat → Searches → Progress
  | [], s => .going s
  | d :: ds, s =>
    match forwardRound p d (diagonals d) s with
    | .met x y s => .met x y s
    | .going s =>
      match backwardRound p d (diagonals d) s with
      | .met x y s => .met x y s
      | .going s => rounds p ds s

def middle (old new : List α) (s : Searches) : Progress :=
  let s : Searches := ⟨s.forward.set 1 0, s.backward.set 1 0⟩
  rounds (Pair.of old new) (List.range ((old.length + new.length + 1) / 2 + 1)) s

/-- A run of items kept, if there are any. -/
def keepRun (i j n : Nat) : List Edit :=
  if n = 0 then [] else [⟨.keep, i, n, j, n⟩]

/-- A run of items removed, if there are any. -/
def removeRun (i j n : Nat) : List Edit :=
  if n = 0 then [] else [⟨.remove, i, n, j, 0⟩]

/-- A run of items inserted, if there are any. -/
def insertRun (i j n : Nat) : List Edit :=
  if n = 0 then [] else [⟨.insert, i, 0, j, n⟩]

/-- The edits between two sequences that start at the indices i and j, splitting at most `depth`
times in a row; beyond that depth the old items are removed and the new ones inserted. -/
def editsFrom : (depth : Nat) → (i j : Nat) → (old new : List α) → Searches →
    List Edit × Searches
  | 0, i, j, old, new, s =>
    (removeRun i j old.length ++ insertRun (i + old.length) j new.length, s)
  | depth + 1, i, j, old, new, s =>
    let ahead := commonStart old new
    let old := old.drop ahead
    let new := new.drop ahead
    let behind := commonEnd old new
    let old := old.take (old.length - behind)
    let new := new.take (new.length - behind)
    let i := i + ahead
    let j := j + ahead
    let (between, s) :=
      if new.isEmpty then (removeRun i j old.length, s)
      else if old.isEmpty then (insertRun i j new.length, s)
      else
        match middle old new s with
        | .going s => (removeRun i j old.length ++ insertRun (i + old.length) j new.length, s)
        | .met x y s =>
          let x := x.toNat
          let y := y.toNat
          let (before, s) := editsFrom depth i j (old.take x) (new.take y) s
          let (after, s) := editsFrom depth (i + x) (j + y) (old.drop x) (new.drop y) s
          (before ++ after, s)
    (keepRun (i - ahead) (j - ahead) ahead ++ between ++
      keepRun (i + old.length) (j + new.length) behind, s)

def edits (old new : List α) : List Edit :=
  (editsFrom (old.length + new.length + 1) 0 0 old new ⟨.start, .start⟩).1

end

end Mutagenesis.LineDiff
