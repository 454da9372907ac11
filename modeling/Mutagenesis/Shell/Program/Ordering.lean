import Mutagenesis.Shell.Program.Lines

/-!
# Putting names and numbers in an order

`tsort` reads pairs of names, of which the first is to come before the second, and lists all names
in an order that keeps to the pairs; `factor` writes numbers as products of primes.
-/

namespace Mutagenesis.Shell

open Work

namespace Ordering

/-- A name that is to be listed. -/
structure Item where
  name : Octets
  waiting : Nat := 0
  followers : List Octets := []

abbrev Items := List Item

namespace Items

def item (items : Items) (name : Octets) : Item :=
  (items.find? (·.name = name)).getD { name := name }

def update (items : Items) (name : Octets) (f : Item → Item) : Items :=
  items.map fun i => if i.name = name then f i else i

def add : Items → Octets → Items
  | [], name => [{ name := name }]
  | i :: rest, name =>
    if i.name = name then i :: rest
    else if Octets.le name i.name then { name := name } :: i :: rest
    else i :: add rest name

def relate (items : Items) (first second : Octets) : Items :=
  let items := (items.add first).add second
  if first = second then items
  else
    let items := items.update second fun i => { i with waiting := i.waiting + 1 }
    items.update first fun i => { i with followers := second :: i.followers }

def listQueue : (steps : Nat) → (queue : List Octets) → Items → List Octets
  | 0, _, _ => []
  | _ + 1, [], _ => []
  | steps + 1, name :: queue, items =>
    let (items, ready) := (items.item name).followers.foldl
      (fun ((items, ready) : Items × List Octets) f =>
        let items := items.update f fun i => { i with waiting := i.waiting - 1 }
        (items, if (items.item f).waiting = 0 then ready ++ [f] else ready)) (items, [])
    name :: listQueue steps (queue ++ ready) items

end Items

def pairs? : List Octets → Option (List (Octets × Octets))
  | [] => some []
  | [_] => none
  | a :: b :: rest => (pairs? rest).map ((a, b) :: ·)

def wordsOf (content : Octets) : List Octets :=
  (content.splitBy fun a b => isInClass "space" a == isInClass "space" b).filter
    fun w => !w.any (isInClass "space")

def tsort : Program := fun call => do
  let path := call.args.headD ['-']
  match ← inputAt path with
  | .error fault => call.fail 1 (plainName path ++ ": " ++ reason fault)
  | .ok content =>
    match pairs? (wordsOf content) with
    | none => call.fail 1 (plainName path ++ ": input contains an odd number of tokens")
    | some ps =>
      let items := ps.foldl (fun (items : Items) (a, b) => items.relate a b) []
      let ready := items.filter (·.waiting = 0)
      let listed := items.listQueue (items.length + 1) (ready.map Item.name)
      put (Octets.ofLines listed)
      if listed.length = items.length then return 0
      call.fail 1 (plainName path ++ ": input contains a loop:")

def factorsFrom : (steps : Nat) → (divisor n : Nat) → List Nat
  | 0, _, n => [n]
  | steps + 1, divisor, n =>
    if n ≤ 1 then []
    else if n < divisor * divisor then [n]
    else if n % divisor = 0 then divisor :: factorsFrom steps divisor (n / divisor)
    else factorsFrom steps (divisor + 1) n

def factor : Program := fun call => do
  let words ← if call.args.isEmpty then do pure (wordsOf (← takeInput)) else pure call.args
  let outcomes ← words.mapM fun w => do
    match Octets.nat? w with
    | some n =>
      putLine (Octets.ofNat n ++ ':' :: (factorsFrom 1000000 2 n).flatMap (' ' :: Octets.ofNat ·))
      return true
    | none => call.refuse (quotedName w ++ " is not a valid positive integer")
  return if outcomes.all id then 0 else 1

end Ordering

end Mutagenesis.Shell
