import PinnedBuild.Files.Walk

/-!
What is done to a file system: opening, making, removing, linking.

An operation that fails changes nothing. New files and directories get the permissions that are
left when group and others may not write.
-/

namespace PinnedBuild.Files

/-- One operation of the system: it succeeds as a whole or leaves everything as it was. -/
abbrev FileOp := StateT FileTree (Except FileError)

/-- Several operations, of which the first ones may have succeeded when a later one fails. -/
abbrev FileAct := ExceptT FileError (StateM FileTree)

def FileOp.toAct {α : Type} (op : FileOp α) : FileAct α :=
  ExceptT.mk fun t => match op.run t with
    | .ok (a, t') => (.ok a, t')
    | .error e => (.error e, t)

instance {α : Type} : CoeOut (FileOp α) (FileAct α) := ⟨FileOp.toAct⟩

def newFileMode : Mode := 0o644

def newDirectoryMode : Mode := 0o755

/-- A file that is open. -/
inductive Handle where
  | directory (at_ : Location)
  | file (id : Nat)
  | device (d : Device)
  deriving DecidableEq, Repr

namespace FileOp

def fail {α : Type} (e : FileError) : FileOp α := fun _ => .error e

def found (follow : Bool) (p : Path) : FileOp Found := do
  (← get).walk follow p

def lookup (follow : Bool) (p : Path) : FileOp (Location × Node) := do
  (← get).lookup follow p

/-- The directory lets the user add and remove names. -/
def needWritable (dir : Location) : FileOp Unit := do
  match (← get).node? dir with
  | some (.directory m) =>
    (← get).searchable dir
    if (← get).user.mayWrite m then pure () else fail .accessDenied
  | _ => fail .notFound

/-- The mode of a file by its number. -/
def fileMode (id : Nat) : FileOp Mode := do
  match (← get).file? id with
  | some f => pure f.mode
  | none => fail .notFound

/-- Opens for reading. -/
def openRead (p : Path) : FileOp Handle := do
  match ← lookup true p with
  | (at_, .directory m) =>
    if (← get).user.mayRead m then pure (.directory at_) else fail .accessDenied
  | (_, .file id) =>
    if (← get).user.mayRead (← fileMode id) then pure (.file id) else fail .accessDenied
  | (_, .device d) => pure (.device d)
  | (_, .link _) => fail .tooManyLinks

/-- Everything an open file holds. -/
def contents (h : Handle) : FileOp Bytes := do
  match h with
  | .directory _ => fail .isDirectory
  | .device _ => pure []
  | .file id =>
    match (← get).file? id with
    | some f => pure f.content
    | none => fail .notFound

def readAll (p : Path) : FileOp Bytes := do contents (← openRead p)

/-- The path without slashes at its end. -/
def withoutSlashes (p : Path) : Path :=
  match (p.reverse.dropWhile (· == Path.slash)).reverse with
  | [] => p.take 1
  | body => body

/-- What a path leads to without the slashes at its end, which still count for its length. -/
def foundBare (p : Path) : FileOp Found :=
  if maxPath ≤ p.length ∧ 0 ∉ p then fail .nameTooLong else found false (withoutSlashes p)

def endsInSlash (p : Path) : Bool := p.getLast? == some Path.slash

/-- Adds a file in a directory. -/
def addFile (dir : Location) (name : Name) : FileOp Handle := do
  needWritable dir
  let (id, t) := (← get).putFile (dir ++ [name]) newFileMode
  set t
  pure (.file id)

/-- Opens for writing what is there, and makes a file where nothing is. -/
def openWrite (p : Path) : FileOp Handle := do
  if endsInSlash p then
    let _ ← foundBare p
    fail .isDirectory
  else
    match ← found true p with
    | .missing dir name => addFile dir name
    | .node _ (.directory _) => fail .isDirectory
    | .node _ (.link _) => fail .tooManyLinks
    | .node _ (.device d) => pure (.device d)
    | .node _ (.file id) =>
      if (← get).user.mayWrite (← fileMode id) then pure (.file id) else fail .accessDenied

/-- Opens for writing and empties the file. -/
def create (p : Path) : FileOp Handle := do
  let h ← openWrite p
  match h with
  | .file id => modify fun t => t.modifyFile id fun f => { f with content := [] }
  | _ => pure ()
  pure h

/-- Makes a file where nothing is, not even a link that leads nowhere. -/
def createNew (p : Path) : FileOp Handle := do
  match ← found false p with
  | .missing dir name => addFile dir name
  | .node _ _ => fail .exists

/-- Writes at the end. -/
def write (h : Handle) (bytes : Bytes) : FileOp Unit := do
  match h with
  | .file id => modify fun t => t.append id bytes
  | .device .null => pure ()
  | .device .full => if bytes.isEmpty then pure () else fail .noSpace
  | .directory _ => fail .isDirectory

def setMode (h : Handle) (mode : Mode) : FileOp Unit := do
  match h with
  | .file id => modify fun t => t.modifyFile id fun f => { f with mode := mode }
  | .directory at_ => modify fun t => t.put at_ (.directory mode)
  | .device _ => pure ()

/-- Sets the permissions of what a path leads to. -/
def changeMode (p : Path) (mode : Mode) : FileOp Unit := do
  match ← lookup true p with
  | (at_, .directory _) => setMode (.directory at_) mode
  | (_, .file id) => setMode (.file id) mode
  | _ => pure ()

/-- A directory hands its group on to those made in it, which bit 10 asks for. -/
def inheritedMode (parent : Mode) : Mode := newDirectoryMode ||| (parent &&& 0o2000)

def makeDirectory (p : Path) : FileOp Unit := do
  match ← foundBare p with
  | .node _ _ => fail .exists
  | .missing dir name =>
    needWritable dir
    match (← get).node? dir with
    | some (.directory m) => modify fun t => t.put (dir ++ [name]) (.directory (inheritedMode m))
    | _ => fail .notFound

/-- Removes a file or a link. -/
def removeFile (p : Path) : FileOp Unit := do
  match ← lookup false p with
  | (_, .directory _) => fail .isDirectory
  | (at_, _) =>
    needWritable at_.dropLast
    modify fun t => t.erase at_

def makeLink (target p : Path) : FileOp Unit := do
  if target.contains 0 then fail .zeroByte
  else if target.isEmpty then fail .notFound
  else if maxPath ≤ target.length then fail .nameTooLong
  else
    match ← found false p with
    | .node _ _ => fail .exists
    | .missing dir name =>
      needWritable dir
      modify fun t => t.put (dir ++ [name]) (.link target)

/-- Gives what stands at the first path a second place. Links are not followed. -/
def hardLink (source p : Path) : FileOp Unit := do
  let (_, n) ← lookup false source
  match ← found false p with
  | .node _ _ => fail .exists
  | .missing dir name =>
    needWritable dir
    match n with
    | .directory _ => fail .notPermitted
    | n => modify fun t => t.put (dir ++ [name]) n

/-- The place that a path leads to, links followed. -/
def realLocation (p : Path) : FileOp Location := return (← lookup true p).1

/-- The names in a directory, in rising order. -/
def list (p : Path) : FileOp (List Name) := do
  match ← openRead p with
  | .directory at_ => return ((← get).names at_).mergeSort fun a b => a ≤ b
  | _ => fail .notDirectory

end FileOp

namespace FileAct

def fail {α : Type} (e : FileError) : FileAct α := throw e

/-- The path and those above it, nearest first. -/
def ancestors : Nat → Path → List Path
  | 0, p => [p]
  | fuel + 1, p => p :: (match p.parent? with
    | some q => ancestors fuel q
    | none => [])

/-- Makes one directory unless it is there; what is above it has been taken care of. -/
def ensureOne (p : Path) : FileAct Unit := do
  try FileOp.makeDirectory p
  catch e => if (← get).isDirectory p then pure () else fail e

/-- Makes directories from the nearest that is missing upwards, each after the one above it. -/
def ensureChain : List Path → FileAct Unit
  | [] => fail .notFound
  | p :: above =>
    if p.isEmpty then pure ()
    else do
      try FileOp.makeDirectory p
      catch e =>
        if e = .notFound then do ensureChain above; ensureOne p
        else if (← get).isDirectory p then pure ()
        else fail e

/-- Makes a directory and all that are missing above it. -/
def ensureDirectory (p : Path) : FileAct Unit := ensureChain (ancestors p.length p)

/-- Replaces or makes a file with the given contents. -/
def writeFile (p : Path) (bytes : Bytes) : FileAct Unit := do
  let h ← FileOp.create p
  FileOp.write h bytes

end FileAct

end PinnedBuild.Files
