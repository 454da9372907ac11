import Mutagenesis.Shell.Directive
import Mutagenesis.Shell.Escapes
import Mutagenesis.Shell.Script

/-!
# Formatted printing

What `echo` and `printf` write.
-/

namespace Mutagenesis.Shell.Printing

def unescaped : (steps : Nat) → Octets → Octets × Bool
  | 0, _ => ([], false)
  | _ + 1, [] => ([], false)
  | steps + 1, c :: cs =>
    let andThen (c : Char) (rest : Octets) : Octets × Bool :=
      let (text, ends) := unescaped steps rest
      (c :: text, ends)
    if c ≠ '\\' then andThen c cs
    else
      match cs with
      | 'c' :: _ => ([], true)
      | '0' :: rest =>
        match Escapes.octal 3 rest with
        | some (d, rest) => andThen d rest
        | none => andThen '\x00' rest
      | d :: rest =>
        match Escapes.octal 3 cs, Escapes.letter? d with
        | some (e, rest), _ => andThen e rest
        | none, some e => andThen e rest
        | none, none => andThen c cs
      | [] => andThen c []

def echo (args : List Octets) : Octets :=
  let (args, ending) := match args with
    | ['-', 'n'] :: rest => (rest, [])
    | _ => (args, ['\n'])
  let text := [' '].intercalate args
  let (shown, ends) := unescaped (text.length + 1) text
  if ends then shown else shown ++ ending

/-- What printing has done: what it wrote, complaints among it, and the arguments that are left. -/
structure Printed where
  written : List (Except Octets Octets) := []
  left : List Octets
  status : Nat := 0
  done : Bool := false

namespace Printed

def put (p : Printed) (cs : Octets) : Printed :=
  { p with written := .ok cs :: p.written }

def complain (p : Printed) (status : Nat) (complaint : Octets) : Printed :=
  { p with written := .error complaint :: p.written, status := status }

def output (p : Printed) : Octets :=
  p.written.reverse.flatMap fun
    | .ok cs => cs
    | .error _ => []

end Printed

def takeInteger (p : Printed) : Int × Printed :=
  match p.left with
  | [] => (0, p)
  | arg :: left =>
    let p := { p with left := left }
    match arg with
    | '"' :: c :: _ | '\'' :: c :: _ => (c.toNat, p)
    | _ =>
      let trimmed := arg.dropWhile fun c => c = ' ' || (9 ≤ c.toNat && c.toNat ≤ 13)
      let (sign, unsigned) : Int × Octets := match trimmed with
        | '-' :: rest => (-1, rest)
        | '+' :: rest => (1, rest)
        | _ => (1, trimmed)
      if arg.isEmpty then (0, p)
      else if !unsigned.head?.any Char.isDigit then
        (0, p.complain 1 (arg ++ ": expected numeric value"))
      else
        let (n, rest) := Arithmetic.constant unsigned
        if !rest.isEmpty then
          (sign * n, p.complain 1 (arg ++ ": not completely converted"))
        else if Arithmetic.largest < n then
          (if sign < 0 then -Arithmetic.largest - 1 else Arithmetic.largest,
            p.complain 1 (arg ++ ": Numerical result out of range"))
        else (sign * n, p)

def takeReal (p : Printed) : Quantity × Printed :=
  match p.left with
  | [] => (.zero, p)
  | arg :: left =>
    let p := { p with left := left }
    match arg with
    | [] => (.zero, p)
    | '"' :: c :: _ | '\'' :: c :: _ => (.ofInt c.toNat, p)
    | _ =>
      match Quantity.read? arg with
      | none => (.zero, p.complain 1 (arg ++ ": expected numeric value"))
      | some found =>
        if !found.rest.isEmpty then
          (found.value, p.complain 1 (arg ++ ": not completely converted"))
        else if found.outOfRange then
          (found.value, p.complain 1 (arg ++ ": Numerical result out of range"))
        else (found.value, p)

def takeText (p : Printed) : Octets × Printed :=
  match p.left with
  | [] => ([], p)
  | arg :: left => (arg, { p with left := left })

def takeCount (p : Printed) (cs : Octets) : Int × Octets × Printed :=
  match cs with
  | '*' :: rest =>
    let (n, p) := takeInteger p
    (n, rest, p)
  | _ =>
    let digits := cs.takeWhile Char.isDigit
    (((Octets.nat? digits).getD 0 : Nat), cs.drop digits.length, p)

def perform (p : Printed) (d : Directive) (whole : Octets) : Printed :=
  match d.letter with
  | 'd' | 'i' | 'o' | 'u' | 'x' | 'X' =>
    let (n, p) := takeInteger p
    p.put (d.integer n)
  | 'a' | 'A' | 'e' | 'E' | 'f' | 'F' | 'g' | 'G' =>
    let (q, p) := takeReal p
    p.put (d.quantity q)
  | 'c' =>
    let (cs, p) := takeText p
    p.put (d.paddedText (if cs.isEmpty then ['\x00'] else cs.take 1))
  | 's' =>
    let (cs, p) := takeText p
    p.put (d.text cs)
  | 'b' =>
    let (cs, p) := takeText p
    let (text, ends) := unescaped (cs.length + 1) cs
    { p.put (d.text text) with done := ends }
  | _ =>
    { p.complain 2 (whole ++ ": invalid directive") with done := true }

def formatOnce : (steps : Nat) → Octets → Printed → Printed
  | 0, _, p => p
  | _ + 1, [], p => p
  | steps + 1, c :: cs, p =>
    if p.done then p
    else if c = '\\' then
      match Escapes.octal 3 cs, cs with
      | some (d, rest), _ => formatOnce steps rest (p.put [d])
      | none, d :: rest =>
        match Escapes.letter? d with
        | some e => formatOnce steps rest (p.put [e])
        | none => formatOnce steps cs (p.put [c])
      | none, [] => p.put [c]
    else if c = '%' ∧ cs.head? = some '%' then formatOnce steps (cs.drop 1) (p.put ['%'])
    else if c = '%' then
      let flags := cs.takeWhile (· ∈ ['#', '-', '+', ' ', '0'])
      let (width, rest, p) := takeCount p (cs.drop flags.length)
      let (precision, rest, p) : Option Nat × Octets × Printed := match rest with
        | '.' :: after =>
          let (n, rest, p) := takeCount p after
          (if n < 0 then none else some n.toNat, rest, p)
        | _ => (none, rest, p)
      match rest with
      | [] => { p.complain 2 "missing format character" with done := true }
      | letter :: rest =>
        let flags := if width < 0 then '-' :: flags else flags
        let whole := c :: cs.take (cs.length - rest.length)
        formatOnce steps rest (perform p ⟨flags, width.natAbs, precision, letter⟩ whole)
    else formatOnce steps cs (p.put [c])

def formatAll (format : Octets) : (rounds : Nat) → Printed → Printed
  | 0, p => p
  | rounds + 1, p =>
    let after := formatOnce (format.length + 1) format p
    if after.done ∨ after.left.isEmpty ∨ after.left.length = p.left.length then after
    else formatAll format rounds after

def printf (format : Octets) (args : List Octets) : Printed :=
  formatAll format (args.length + 1) { left := args }

end Mutagenesis.Shell.Printing
