import Mutagenesis.Shell.Program.Files

/-!
# Listings of folders

`ls` shows the names in folders, one in a line.
-/

namespace Mutagenesis.Shell

open Work

def entrySize : Entry → Nat
  | .file content => content.toBytes.length
  | .folder _ => 4096
  | .link target => target.utf8ByteSize

namespace Listing

/-- An entry that is listed, with its place. -/
structure Item where
  name : Octets
  place : List String
  entry : Entry

def sorted (options : Options) (items : List Item) : List Item :=
  let ordered := items.mergeSort fun a b => Octets.le a.name b.name
  if options.has 'r' then ordered.reverse else ordered

def putItems (options : Options) (items : List Item) : Work Unit := do
  let t ← get
  put (Octets.ofLines (items.map fun i => i.name ++
    match options.has 'F', i.entry with
    | true, .folder _ => ['/']
    | true, .link _ => ['@']
    | true, .file _ => if t.attributes.mode i.place i.entry &&& 0o111 ≠ 0 then ['*'] else []
    | false, _ => []))

def putFolder (options : Options) (headed : Bool) :
    (steps : Nat) → (first : Bool) → (path : Octets) → (place : List String) → Folder → Work Unit
  | 0, _, _, _, _ => return ()
  | steps + 1, first, path, place, folder => do
    if !first then put ['\n']
    if headed then putLine (path ++ [':'])
    let dots := if options.has 'a' then [['.'], ['.', '.']] else []
    let isShown (n : String) : Bool := options.has 'a' || options.has 'A' || n.front ≠ '.'
    let items := (folder.names.filter isShown).map fun n =>
      ⟨Octets.ofText n, place ++ [n], (folder.child? n).getD (.folder .empty)⟩
    let items := sorted options (dots.map (fun n => ⟨n, place, .folder folder⟩) ++ items)
    putItems options items
    if options.has 'R' then
      items.forM fun i => do
        if i.name ∈ dots then return ()
        if let .folder children := i.entry then
          putFolder options true steps false (pathIn path i.name) i.place children

def ls : Program := fun call => do
  let (options, operands) ← OptionTable.read
    { flags := ['1', 'a', 'A', 'd', 'R', 'F', 'r'] } call 2
  let follow := !(options.has 'd' || options.has 'F')
  let found ← (if operands.isEmpty then [['.']] else operands).mapM fun path => do
    let there ← match follow, ← foundAt true path with
      | true, .ok there => pure (.ok there)
      | _, _ => foundAt false path
    match there with
    | .ok (place, entry) => return some (⟨path, place, entry⟩ : Item)
    | .error fault =>
      call.complain ("cannot access " ++ quotedName path ++ ": " ++ reason fault)
      return none
  let isListed (i : Item) : Bool := match i.entry with
    | .folder _ => !options.has 'd'
    | _ => false
  let (folders, files) := (sorted options (found.filterMap id)).partition isListed
  putItems options files
  let headed := 1 < operands.length || options.has 'R'
  folders.zipIdx.forM fun (i, index) => do
    if let .folder f := i.entry then
      putFolder options headed 1000 (index = 0 && files.isEmpty) i.name i.place f
  return if found.all Option.isSome then 0 else 2

end Listing

end Mutagenesis.Shell
