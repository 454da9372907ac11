import Mutagenesis.Request
import Mutagenesis.Json.Printer

/-!
# Serving requests

Requests come one on a line, and each gets one line in answer. Blank lines get none. After a request
to shut down, or at the end of the input, all registered mutants are deleted.
-/

set_option autoImplicit false

namespace Mutagenesis.Server

variable {σ : Type}

/-- A line of input: the id that the client gave, if any, and the request. -/
structure Incoming where
  id : Option Json
  request : Except Fault Request

/-- Reads a line. Of fields with one name the last one counts. -/
def parseLine (line : List Char) : Incoming :=
  match Json.parse line with
  | .error fault => ⟨none, .error (.badFormat (.json fault))⟩
  | .ok value =>
    let (id, value) := match value.sorted with
      | .object fields => (fields.lookup "id", Json.object (fields.filter (·.1 ≠ "id")))
      | other => (none, other)
    ⟨id, formatted .value (Request.decode value)⟩

def response (id : Option Json) (outcome : Except Fault Json) : Json :=
  let fields := match outcome with
    | .ok result => [("result", result)]
    | .error fault =>
      match fault.toJson with
      | .object fields => fields
      | other => [("error", other)]
  Json.sorted (.object (fields ++ (id.map fun id => ("id", id)).toList))

/-- What a line leads to. -/
structure Step (σ : Type) where
  /-- The answer, if the line gets one. -/
  answer : Option Json
  done : Bool
  session : Session σ

def step (i : Installation σ) (s : Session σ) (line : List Char) : Step σ :=
  if (Text.trim line).isEmpty then ⟨none, false, s⟩
  else
    let incoming := parseLine line
    match incoming.request with
    | .error fault => ⟨some (response incoming.id (.error fault)), false, s⟩
    | .ok request =>
      let done := request = .shutdown
      match i.handle request s with
      | .ok result s => ⟨some (response incoming.id (.ok result)), done, s⟩
      | .error fault s => ⟨some (response incoming.id (.error fault)), done, s⟩

/-- What serving some lines led to. -/
structure Served (σ : Type) where
  answers : List Json
  done : Bool
  session : Session σ

/-- Carries out lines in turn, up to a request to shut down. -/
def run (i : Installation σ) (s : Session σ) : List (List Char) → Served σ
  | [] => ⟨[], false, s⟩
  | line :: rest =>
    let first := step i s line
    if first.done then ⟨first.answer.toList, true, first.session⟩
    else
      let served := run i first.session rest
      ⟨first.answer.toList ++ served.answers, served.done, served.session⟩

/-- The state after all registered mutants are deleted. -/
def close (i : Installation σ) (s : Session σ) : Session σ :=
  match i.clearMutants s with
  | .ok _ s => s
  | .error _ s => s

def serve (i : Installation σ) (s : Session σ) (lines : List (List Char)) : Served σ :=
  let served := run i s lines
  { served with session := close i served.session }

/-- How streams fail: with what reading ends after the last line, if it fails, and how many answers
can be written before writing fails, if it does. -/
structure Streams where
  inputFault : Option String := none
  outputFault : Option (Nat × String) := none

def Streams.written (streams : Streams) (answers : List Json) : List Json :=
  match streams.outputFault with
  | some (limit, _) => answers.take limit
  | none => answers

/-- How serving ends: a fault of reading goes before a fault of writing. -/
def Streams.outcome (streams : Streams) (served : Served σ) : Except Fault Unit :=
  match served.done, streams.inputFault with
  | false, some reason => .error (.during "request stream failed" reason)
  | _, _ =>
    match streams.outputFault with
    | some (limit, reason) =>
      if limit < served.answers.length then .error (.during "response stream failed" reason)
      else .ok ()
    | none => .ok ()

end Mutagenesis.Server
