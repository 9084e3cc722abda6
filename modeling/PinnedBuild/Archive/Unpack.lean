import PinnedBuild.Files.Operations
import PinnedBuild.Archive.Member

/-!
Unpacking one member into a directory.

Nothing is written outside of the directory: names that lead upwards are passed over, and the real
place of what a member goes into has to lie at or below the real place of the directory.
-/

namespace PinnedBuild.Archive

open Files

inductive UnpackError where
  | file (e : FileError)
  | outside
  | noLinkName
  | emptyLinkName
  /-- There is less data than there should be. -/
  | shortData
  deriving DecidableEq, Repr

def UnpackError.message : UnpackError → String
  | .file e => e.message
  | .outside => "trying to unpack outside of destination path"
  | .noLinkName => "link listed but no link name found"
  | .emptyLinkName => "link destination is empty"
  | .shortData => "failed to write entire file"

abbrev Unpacking := ExceptT UnpackError (StateM FileTree)

namespace Unpacking

def fail {α : Type} (e : UnpackError) : Unpacking α := throw e

/-- Operations on files as a part of unpacking. -/
def act {α : Type} (a : FileAct α) : Unpacking α :=
  ExceptT.mk fun t => match a.run t with
    | (.ok x, t') => (.ok x, t')
    | (.error e, t') => (.error (.file e), t')

def op {α : Type} (o : FileOp α) : Unpacking α := act o

/-- The directory unpacked into, with names below it. -/
def below (dest : Path) (names : List Name) : Path := names.foldl Path.join dest

/-- What a path leads to has to lie at or below the real place of the directory. -/
def insideOf (dest p : Path) : Unpacking Unit := do
  let place ← op (FileOp.realLocation p)
  let root ← op (FileOp.realLocation dest)
  if root.isPrefixOf place then pure () else fail .outside

def present (p : Path) : Unpacking Bool := do
  return ((← get).lookup false p).isOk

/-- Makes each of the directories that is missing, if what it goes into lies inside. `done` are the
names above it. -/
def makeAncestors (dest : Path) (done : List Name) : List Name → Unpacking Unit
  | [] => pure ()
  | name :: rest => do
    let p := below dest (done ++ [name])
    unless ← present p do
      insideOf dest (below dest done)
      act (FileAct.ensureDirectory p)
    makeAncestors dest (done ++ [name]) rest

/-- The directories missing are those after the last that is there. -/
def ensureParent (dest : Path) (names : List Name) : Unpacking Unit := do
  unless ← present dest do fail (.file .notFound)
  unless ← present (below dest names) do makeAncestors dest [] names

/-- Sets the permissions if the member has any. -/
def setPermissions (h : Handle) (mode : Option Mode) : Unpacking Unit :=
  match mode with
  | some m => op (FileOp.setMode h m)
  | none => pure ()

/-- A directory may be there already, but a link to one will not do. -/
def directory (m : Member) (p : Path) : Unpacking Unit := do
  try op (FileOp.makeDirectory p)
  catch e =>
    match (← get).lookup false p with
    | .ok (_, .directory _) => if e = .file .exists then pure () else fail e
    | _ => fail e
  match m.mode with
  | some mode => op (FileOp.changeMode p mode)
  | none => pure ()

/-- A link's name must be given. -/
def linkName (m : Member) : Unpacking Path :=
  match m.link with
  | none => fail .noLinkName
  | some [] => fail .emptyLinkName
  | some name => pure name

def hardLink (m : Member) (dest p : Path) : Unpacking Unit := do
  let name ← linkName m
  let root ← op (FileOp.realLocation dest)
  let source := Path.join (Path.slash :: List.intercalate [Path.slash] root) name
  insideOf dest source
  op (FileOp.hardLink source p)

/-- What is there already is replaced, unless it is a directory. -/
def symbolicLink (m : Member) (p : Path) : Unpacking Unit := do
  let name ← linkName m
  try op (FileOp.makeLink name p)
  catch e =>
    if e = .file .exists then do
      op (FileOp.removeFile p)
      op (FileOp.makeLink name p)
    else fail e

def writeSegment (h : Handle) : Segment → Unpacking Unit
  | .hole n => op (FileOp.write h (List.replicate n 0))
  | .data expected bytes => do
    op (FileOp.write h bytes)
    if bytes.length = expected then pure () else fail .shortData

/-- A file is never written in place: what is there already is removed first. -/
def openNew (p : Path) : Unpacking Handle := do
  try op (FileOp.createNew p)
  catch e =>
    if e = .file .exists then do
      op (FileOp.removeFile p)
      op (FileOp.createNew p)
    else fail e

def file (m : Member) (p : Path) : Unpacking Unit := do
  let h ← openNew p
  m.body.forM (writeSegment h)
  setPermissions h m.mode

/-- The names on a member's path, or none if it leads upwards. -/
def names? (p : Path) : Option (List Name) :=
  (Path.components p).foldlM (fun names c => match c with
    | .up => none
    | .name n => some (names ++ [n])
    | .root | .here => some names) []

/-- Unpacks a member, or passes it over. A path without names stands for the directory itself. -/
def member (dest : Path) (m : Member) : Unpacking Bool := do
  match names? m.path with
  | none => return false
  | some [] => return true
  | some names =>
    ensureParent dest names.dropLast
    insideOf dest (below dest names.dropLast)
    let p := below dest names
    match m.kind with
    | .directory => directory m p
    | .hardLink => hardLink m dest p
    | .symbolicLink => symbolicLink m p
    | .file => file m p
    | .globalRecords | .attachment => pure ()
    return true

end Unpacking

end PinnedBuild.Archive
