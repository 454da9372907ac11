import Mutagenesis.LineDiff.Script

/-!
# Compacting an edit script

`compact` moves the removals, then the insertions, of an edit script as far up and then as far
down as the kept items around them allow, so that edits that can touch each other become one.
`merge` then joins neighbouring runs: between two kept runs, removals and insertions become one
edit.
-/

set_option autoImplicit false

namespace Mutagenesis.LineDiff

namespace Edit

/-- Moves both runs of an edit towards the start and makes them longer by `longer`, where its kind
has a run. -/
def moveUp (e : Edit) (steps longer : Nat) : Edit :=
  { e with
    oldIndex := e.oldIndex - steps
    newIndex := e.newIndex - steps
    oldLength := if e.kind = .insert then e.oldLength else e.oldLength + longer
    newLength := if e.kind = .remove then e.newLength else e.newLength + longer }

/-- Moves both runs of an edit towards the end and makes them shorter by `shorter`. -/
def moveDown (e : Edit) (steps shorter : Nat) : Edit :=
  { e with
    oldIndex := e.oldIndex + steps
    newIndex := e.newIndex + steps
    oldLength := e.oldLength - shorter
    newLength := e.newLength - shorter }

def isEmpty (e : Edit) : Bool :=
  e.oldLength = 0 && e.newLength = 0

def size (e : Edit) : Nat :=
  if e.kind = .insert then e.newLength else e.oldLength

end Edit

/-- An edit script with one edit in focus; the edits in front of it are listed nearest first. -/
structure Focus where
  before : List Edit
  edit : Edit
  after : List Edit
  deriving Repr

namespace Focus

def toList (f : Focus) : List Edit :=
  f.before.reverse ++ f.edit :: f.after

end Focus

section

variable {α : Type} [DecidableEq α]

def Edit.oldRun (e : Edit) (old : List α) : List α :=
  (old.drop e.oldIndex).take e.oldLength

def Edit.newRun (e : Edit) (new : List α) : List α :=
  (new.drop e.newIndex).take e.newLength

/-- Moves the edit in focus up, at most `limit` steps: past an edit of the other kind, into one of
its own kind, and through a kept run as long as that run ends like the edit. -/
def shiftUp (old new : List α) : (limit : Nat) → Focus → Focus
  | 0, f => f
  | limit + 1, f =>
    match f.before with
    | [] => f
    | above :: before =>
      if above.kind = .keep then
        let n := commonEnd (above.oldRun old) (f.edit.newRun new)
        if 0 < n then
          let after := match f.after with
            | next :: rest =>
              if next.kind = .keep then next.moveUp n n :: rest
              else
                ⟨.keep, above.oldIndex + above.oldLength - n, n,
                  f.edit.newIndex + f.edit.newLength - n, n⟩ :: next :: rest
            | [] =>
              [⟨.keep, above.oldIndex + above.oldLength - n, n,
                f.edit.newIndex + f.edit.newLength - n, n⟩]
          let edit := f.edit.moveUp n 0
          let above := above.moveDown 0 n
          if above.isEmpty then shiftUp old new limit ⟨before, edit, after⟩
          else shiftUp old new limit ⟨above :: before, edit, after⟩
        else if above.isEmpty then shiftUp old new limit ⟨before, f.edit, f.after⟩
        else f
      else if above.kind ≠ f.edit.kind then
        shiftUp old new limit ⟨before, f.edit, above :: f.after⟩
      else shiftUp old new limit ⟨before, above.moveUp 0 f.edit.size, f.after⟩

/-- Moves the edit in focus down, at most `limit` steps: past an edit of the other kind, over one
of its own kind, and through a kept run as long as that run starts like the edit. -/
def shiftDown (old new : List α) : (limit : Nat) → Focus → Focus
  | 0, f => f
  | limit + 1, f =>
    match f.after with
    | [] => f
    | below :: after =>
      if below.kind = .keep then
        let n := commonStart (below.oldRun old) (f.edit.newRun new)
        if 0 < n then
          let before := match f.before with
            | last :: rest =>
              if last.kind = .keep then last.moveUp 0 n :: rest
              else ⟨.keep, below.oldIndex, n, f.edit.newIndex, n⟩ :: last :: rest
            | [] => [⟨.keep, below.oldIndex, n, f.edit.newIndex, n⟩]
          let edit := f.edit.moveDown n 0
          let below := below.moveDown n n
          if below.isEmpty then shiftDown old new limit ⟨before, edit, after⟩
          else shiftDown old new limit ⟨before, edit, below :: after⟩
        else if below.isEmpty then shiftDown old new limit ⟨f.before, f.edit, after⟩
        else f
      else if below.kind ≠ f.edit.kind then
        shiftDown old new limit ⟨below :: f.before, f.edit, after⟩
      else shiftDown old new limit ⟨f.before, f.edit.moveUp 0 below.size, after⟩

/-- A number of steps that no shift in a script exceeds: every step passes an edit or shortens a
kept run. -/
def stepLimit (script : List Edit) : Nat :=
  script.foldl (fun total e => total + (e.oldLength + e.newLength + 1)) 0

/-- Shifts every edit of a kind from the focus on, visiting at most `visits` edits. -/
def shiftAll (old new : List α) (kind : EditKind) : (visits : Nat) → Focus → List Edit
  | 0, f => f.toList
  | visits + 1, f =>
    let f :=
      if f.edit.kind = kind then
        let limit := stepLimit f.toList
        let f := shiftUp old new limit f
        shiftDown old new (stepLimit f.toList) f
      else f
    match f.after with
    | [] => f.toList
    | next :: rest => shiftAll old new kind visits ⟨f.edit :: f.before, next, rest⟩

/-- Shifts every edit of a kind, from the first one on. -/
def shiftKind (old new : List α) (kind : EditKind) (script : List Edit) : List Edit :=
  match script with
  | [] => []
  | e :: rest => shiftAll old new kind (stepLimit script * stepLimit script) ⟨[], e, rest⟩

def compact (old new : List α) (script : List Edit) : List Edit :=
  shiftKind old new .insert (shiftKind old new .remove script)

end

/-- The runs waiting to be joined: a kept run, or removals and insertions. -/
structure Pending where
  kept : Option Edit := none
  removed : Option Edit := none
  inserted : Option Edit := none
  deriving Repr

namespace Pending

def flush (p : Pending) : List Edit :=
  p.kept.toList ++
    match p.removed, p.inserted with
    | some r, some i => [⟨.replace, r.oldIndex, r.oldLength, i.newIndex, i.newLength⟩]
    | some r, none => [r]
    | none, some i => [i]
    | none, none => []

/-- A run joined to the one that waits, if any. -/
def join (waiting : Option Edit) (e : Edit) : Edit :=
  match waiting with
  | none => e
  | some first => first.moveUp 0 e.size

end Pending

/-- Joins neighbouring runs of a script, given the runs that wait. -/
def mergeFrom (p : Pending) : List Edit → List Edit
  | [] => p.flush
  | e :: rest =>
    match e.kind with
    | .keep =>
      if p.removed.isSome ∨ p.inserted.isSome then
        p.flush ++ mergeFrom { kept := some e } rest
      else mergeFrom { kept := some (Pending.join p.kept e) } rest
    | .remove =>
      p.kept.toList ++
        mergeFrom { removed := some (Pending.join p.removed e), inserted := p.inserted } rest
    | _ =>
      p.kept.toList ++
        mergeFrom { removed := p.removed, inserted := some (Pending.join p.inserted e) } rest

def merge (script : List Edit) : List Edit :=
  mergeFrom {} script

end Mutagenesis.LineDiff
