import Mutagenesis.Shell.Permissions
import Mutagenesis.Shell.Program

/-!
# Programs for files

Programs that make, copy, move, remove and link files and folders.
-/

namespace Mutagenesis.Shell

open Work

def forOperands (operands : List Octets) (step : Octets → Work Bool) : Work Nat := do
  let outcomes ← operands.mapM step
  return if outcomes.all id then 0 else 1

def needOperand (call : Call) (what : String) (operands : List Octets) : Work Unit :=
  if operands.isEmpty then call.failUsage 1 s!"missing {what}operand".toList else pure ()

def eraseAt (place : List String) : Work Bool := do
  modify fun t => { t with disk := { t.disk with top := t.disk.top.eraseAt place } }
  return true

def putAt (place : List String) (entry : Entry) : Work Bool := do
  discard (onDisk (Disk.putAt place entry))
  return true

def placeOf (follow : Bool) (path : Octets) :
    Work (Except DiskFault (List String × Option Entry)) := do
  let d := (← get).disk
  match d.resolve follow (Octets.toText path) with
  | .ok place => return .ok (place, d.top.at? place)
  | .error fault => return .error fault

/-- The place of a path that is there. -/
def foundAt (follow : Bool) (path : Octets) : Work (Except DiskFault (List String × Entry)) := do
  match ← placeOf follow path with
  | .ok (place, some entry) => return .ok (place, entry)
  | .ok (_, none) => return .error .noEntry
  | .error fault => return .error fault

def makeFolderAt (path : Octets) : Work (Except DiskFault Unit) := do
  let outcome ← onDisk (Disk.makeFolder (Octets.toText path))
  if let .ok _ := outcome then
    if let .ok place := (← get).disk.resolve true (Octets.toText path) then noteMade place 0o777
  return outcome

def makeAlong (call : Call) (before : Octets) : List Octets → Work Bool
  | [] => return true
  | name :: rest => do
    let path := if before.isEmpty then name
      else if before = ['/'] then before ++ name else before ++ '/' :: name
    if name.isEmpty then makeAlong call (if before.isEmpty then ['/'] else before) rest
    else if ← isFolderAt path then makeAlong call path rest
    else
      match ← makeFolderAt path with
      | .ok _ => makeAlong call path rest
      | .error fault =>
        let fault := if fault = .alreadyThere ∧ !rest.isEmpty then .notFolder else fault
        call.refusePath "cannot create directory" path fault

def mkdir : Program := fun call => do
  let (options, operands) ← OptionTable.read { flags := ['p'], long := [("parents", 'p')] } call 1
  needOperand call "" operands
  forOperands operands fun path => do
    if options.has 'p' ∧ !path.isEmpty then makeAlong call [] (Text.pieces '/' path)
    else
      match ← makeFolderAt path with
      | .ok _ => return true
      | .error fault => call.refusePath "cannot create directory" path fault

def removeEmpty (call : Call) (path : Octets) : Work Bool := do
  let cannot (why : String) : Work Bool :=
    call.refuse ("failed to remove " ++ quotedName path ++ ": " ++ why.toList)
  if lastName path = ['.'] then cannot "Invalid argument"
  else
    match ← foundAt false path with
    | .error fault => call.refusePath "failed to remove" path fault
    | .ok (place, .folder .empty) => eraseAt place
    | .ok (_, .folder _) => cannot "Directory not empty"
    | .ok _ => cannot "Not a directory"

def folderOf (path : Octets) : Octets :=
  match Path.parent? (Octets.toText path) with
  | some "" => ['.']
  | some parent => Octets.ofText parent
  | none => if path.head? = some '/' then ['/'] else ['.']

def removeUpward (call : Call) : (steps : Nat) → Octets → Work Bool
  | 0, _ => return true
  | steps + 1, path => do
    if path = ['.'] ∨ path = ['/'] then return true
    if ← removeEmpty call path then removeUpward call steps (folderOf path) else return false

def rmdir : Program := fun call => do
  let (options, operands) ← OptionTable.read { flags := ['p'], long := [("parents", 'p')] } call 1
  needOperand call "" operands
  forOperands operands fun path =>
    if options.has 'p' then removeUpward call (path.length + 1) path else removeEmpty call path

def rm : Program := fun call => do
  let (options, operands) ← OptionTable.read
    { flags := ['f', 'r', 'R'], long := [("force", 'f'), ("recursive", 'r')] } call 1
  let force := options.has 'f'
  let recursive := options.has 'r' || options.has 'R'
  if operands.isEmpty ∧ force then return 0
  needOperand call "" operands
  forOperands operands fun path => do
    if recursive ∧ lastName path ∈ [['.'], ['.', '.']] then
      call.refuse ("refusing to remove '.' or '..' directory: skipping " ++ quotedName path)
    else
      match ← foundAt false path with
      | .error fault =>
        if force ∧ (fault = .noEntry ∨ fault = .notFolder) then return true
        else call.refusePath "cannot remove" path fault
      | .ok (place, entry) =>
        match recursive, entry with
        | false, .folder _ => call.refusePath "cannot remove" path .isFolder
        | _, _ => eraseAt place

def touch : Program := fun call => do
  let (options, operands) ← OptionTable.read { flags := ['a', 'm', 'c'] } call 1
  needOperand call "file " operands
  forOperands operands fun path => do
    match ← foundAt true path with
    | .ok (place, _) =>
      noteChange place
      return true
    | .error _ =>
      if options.has 'c' then return true
      match ← writeFile path [] with
      | .ok _ => return true
      | .error fault => call.refusePath "cannot touch" path fault

def pathIn (folder name : Octets) : Octets :=
  if folder.getLast? = some '/' then folder ++ name else folder ++ '/' :: name

/-- Does something with each source and the path that it goes to: the target, or the same name in
the target when that is a folder. -/
def forTransfers (call : Call) (operands : List Octets) (inside : Bool)
    (step : Octets → Octets → Work Bool) : Work Nat := do
  let into (folder : Octets) (sources : List Octets) : Work Nat :=
    forOperands sources fun source => step source (pathIn folder (lastName source))
  match operands.reverse with
  | [] => call.failUsage 1 "missing file operand"
  | [only] => call.failUsage 1 ("missing destination file operand after " ++ quotedName only)
  | target :: sources =>
    if inside ∧ (← isFolderAt target) then into target sources.reverse
    else
      match sources with
      | [source] => forOperands [source] fun source => step source target
      | _ =>
        let why := match ← entryAt true target with
          | .ok _ => DiskFault.notFolder
          | .error fault => fault
        call.fail 1 ("target " ++ quotedName target ++ ": " ++ reason why)

def mergedFolder : Folder → Folder → Folder
  | .empty, into => into
  | .file name content rest, into => mergedFolder rest (into.put name (.file content))
  | .link name target rest, into => mergedFolder rest (into.put name (.link target))
  | .sub name children rest, into =>
    let below := match into.child? name with
      | some (.folder f) => f
      | _ => .empty
    mergedFolder rest (into.put name (.folder (mergedFolder children below)))

def noteCopy (kept there : Bool) (start goal : List String) (entry : Entry) : Work Unit :=
  modify fun t =>
    let mode := t.attributes.mode start entry
    { t with attributes := t.attributes.update goal fun a =>
      { mode := if kept then some mode
          else if there then a.mode else some (masked t.mask (mode &&& 0o777))
        changed := if kept then (t.attributes.find start).changed else some t.now } }

def sameFile (call : Call) (source target : Octets) : Work Bool :=
  call.refuse (quotedName source ++ " and " ++ quotedName target ++ " are the same file")

/-- The complaint that a folder and a file cannot take each other's place. -/
def refuseKind (call : Call) (source target : Octets) (isFolder : Bool) : Work Bool :=
  if isFolder then
    call.refuse ("cannot overwrite non-directory " ++ quotedName target ++ " with directory " ++
      quotedName source)
  else call.refuse ("cannot overwrite directory " ++ quotedName target ++ " with non-directory")

def copyOne (call : Call) (options : Options) (source target : Octets) : Work Bool := do
  let recursive := options.has 'r' || options.has 'R' || options.has 'a'
  let follow := !(options.has 'd' || options.has 'P' || recursive)
  let kept := options.has 'p' || options.has 'a'
  match ← foundAt follow source with
  | .error fault => call.refusePath "cannot stat" source fault
  | .ok (start, entry) =>
    match entry with
    | .folder entries =>
      if !recursive then
        call.refuse ("-r not specified; omitting directory " ++ quotedName source)
      else
        match ← placeOf true target with
        | .error fault => call.refusePath "cannot create directory" target fault
        | .ok (goal, there) =>
          if start.isPrefixOf goal then
            call.refuse ("cannot copy a directory, " ++ quotedName source ++
              ", into itself, " ++ quotedName target)
          else
            match there with
            | some (.folder below) => putAt goal (.folder (mergedFolder entries below))
            | some _ => refuseKind call source target true
            | none =>
              noteCopy kept false start goal entry
              putAt goal entry
    | .link goalPath =>
      match ← placeOf false target with
      | .ok (goal, _) => putAt goal (.link goalPath)
      | .error fault => call.refusePath "cannot create symbolic link" target fault
    | .file content =>
      match ← placeOf true target with
      | .error fault =>
        call.refusePath "cannot create regular file" target fault
      | .ok (goal, there) =>
        if goal = start then sameFile call source target
        else
          match there with
          | some (.folder _) => refuseKind call source target false
          | _ =>
            if there.isSome ∧ options.has 'n' then return true
            noteCopy kept there.isSome start goal entry
            putAt goal (.file content)

def cp : Program := fun call => do
  let (options, operands) ← OptionTable.read
    { flags := ['a', 'd', 'f', 'n', 'P', 'p', 'r', 'R']
      long := [("recursive", 'r'), ("archive", 'a'), ("force", 'f')] } call 1
  forTransfers call operands true (copyOne call options)

def withoutSlashes (cs : Octets) : Octets :=
  (cs.reverse.dropWhile (· == '/')).reverse

def moveOne (call : Call) (options : Options) (source target : Octets) : Work Bool := do
  match ← foundAt false source with
  | .error fault => call.refusePath "cannot stat" source fault
  | .ok (start, entry) =>
    let isFolder : Bool := match entry with
      | .folder _ => true
      | _ => false
    match ← placeOf false (if isFolder then withoutSlashes target else target) with
    | .error fault =>
      call.refuse ("cannot move " ++ quotedName source ++ " to " ++ quotedName target ++ ": " ++
        reason fault)
    | .ok (goal, there) =>
      let place : Work Bool := do
        modify fun t =>
          { t with
            disk := { t.disk with top := (t.disk.top.eraseAt start).putAt goal entry }
            attributes := t.attributes.moved start goal }
        return true
      if start = goal then sameFile call source target
      else if isFolder ∧ start.isPrefixOf goal then
        call.refuse ("cannot move " ++ quotedName source ++
          " to a subdirectory of itself, " ++ quotedName target)
      else
        match there, isFolder with
        | none, _ | some (.folder .empty), true => place
        | some (.folder _), true =>
          call.refuse ("cannot overwrite " ++ quotedName target ++ ": Directory not empty")
        | some (.folder _), false => refuseKind call source target false
        | some _, true => refuseKind call source target true
        | some _, false => if options.has 'n' then return true else place

def mv : Program := fun call => do
  let (options, operands) ← OptionTable.read { flags := ['f', 'n'] } call 1
  forTransfers call operands true (moveOne call options)

def linkOne (call : Call) (options : Options) (source path : Octets) : Work Bool := do
  let symbolic := options.has 's'
  let cannot (fault : DiskFault) : Work Bool := do
    let kind := if symbolic then "symbolic" else "hard"
    let toward := if symbolic ∨ fault = .alreadyThere then []
      else " => ".toList ++ quotedName source
    call.refuse (s!"failed to create {kind} link ".toList ++ quotedName path ++ toward ++
      ": " ++ reason fault)
  let link (entry : Entry) : Work Bool := do
    match ← placeOf false path with
    | .error fault => cannot fault
    | .ok (_, some (.folder _)) => cannot .alreadyThere
    | .ok (place, there) =>
      if there.isSome ∧ !options.has 'f' then cannot .alreadyThere else putAt place entry
  if symbolic then link (.link (Octets.toText source))
  else
    match ← entryAt true source with
    | .ok (.folder _) => call.refuse (source ++ ": hard link not allowed for directory")
    | .ok entry => link entry
    | .error fault => call.refusePath "failed to access" source fault

def ln : Program := fun call => do
  let (options, operands) ← OptionTable.read
    { flags := ['s', 'f', 'n'], long := [("symbolic", 's'), ("force", 'f')] } call 1
  match operands with
  | [source] =>
    forOperands [source] fun source => linkOne call options source ("./" ++ lastName source)
  | _ =>
    let isLink := match ← entryAt false (operands.getLast?.getD []) with
      | .ok (.link _) => true
      | _ => false
    forTransfers call operands (!(options.has 'n' && isLink)) (linkOne call options)

def readlink : Program := fun call => do
  let (options, operands) ← OptionTable.read { flags := ['f', 'n'] } call 1
  needOperand call "" operands
  let ending := if options.has 'n' then [] else ['\n']
  forOperands operands fun path => do
    match options.has 'f', (← get).disk.resolve true (Octets.toText path), ← entryAt false path with
    | true, .ok place, _ =>
      put ('/' :: ['/'].intercalate (place.map Octets.ofText) ++ ending)
      return true
    | false, _, .ok (.link target) =>
      put (Octets.ofText target ++ ending)
      return true
    | _, _, _ => return false

def withoutSuffix (suffix name : Octets) : Octets :=
  if name ≠ suffix ∧ suffix.reverse.isPrefixOf name.reverse then
    name.take (name.length - suffix.length)
  else name

def basename : Program := fun call => do
  needOperand call "" call.args
  putLine (withoutSuffix ((call.args[1]?).getD []) (lastName (call.args.headD [])))
  return 0

def dirname : Program := fun call => do
  needOperand call "" call.args
  call.args.forM fun path => putLine (folderOf path)
  return 0

def isMinusMode : Octets → Bool
  | '-' :: c :: rest => (c :: rest).all (· ∈ "xrwXstugo+-=,01234567".toList) && c ≠ '-'
  | _ => false

def chmod : Program := fun call => do
  let minus? := call.args.find? isMinusMode
  let (options, operands) ← OptionTable.read
    { flags := ['f'] } { call with args := call.args.filter fun w => some w ≠ minus? } 1
  let (mode, operands) ← match minus?, operands with
    | some mode, operands => pure (mode, operands)
    | none, mode :: operands => pure (mode, operands)
    | none, [] => call.failUsage 1 "missing operand"
  if operands.isEmpty then call.failUsage 1 ("missing operand after " ++ quotedName mode)
  if (Permissions.change? 0 false 0 mode).isNone then
    call.failUsage 1 ("invalid mode: " ++ quotedName mode)
  forOperands operands fun path => do
    match ← foundAt true path with
    | .ok (place, entry) =>
      let isFolder : Bool := match entry with
        | .folder _ => true
        | _ => false
      modify fun t =>
        let before := t.attributes.mode place entry
        let after := (Permissions.change? t.mask isFolder before mode).getD before
        { t with attributes := t.attributes.update place fun a => { a with mode := some after } }
      return true
    | .error fault =>
      if options.has 'f' then return false
      call.refusePath "cannot access" path fault

end Mutagenesis.Shell
