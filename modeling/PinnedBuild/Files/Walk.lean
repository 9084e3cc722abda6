import PinnedBuild.Files.Error
import PinnedBuild.Files.Tree

/-!
Following a path to where it leads, through directories and symbolic links.

Every directory on the way has to let the user search it, and at most forty links are followed.
-/

namespace PinnedBuild.Files

/-- Where a path leads. The last name may be missing from a directory that is there. -/
inductive Found where
  | node (at_ : Location) (n : Node)
  | missing (dir : Location) (name : Name)
  deriving DecidableEq, Repr

def maxName : Nat := 255

def maxPath : Nat := 4096

def maxLinks : Nat := 40

/-- The names on a path. A slash at the end asks for a directory, as a dot after it would. -/
def steps (p : Path) : List Name :=
  let names := p.pieces.filter fun piece => !piece.isEmpty
  if p.getLast? = some Path.slash then names ++ [[Path.dot]] else names

/-- Where a path begins. -/
def origin (cwd : Location) (p : Path) : Location := if p.isAbsolute then [] else cwd

namespace FileTree

/-- A directory that the user can search. -/
def searchable (t : FileTree) (at_ : Location) : Except FileError Unit :=
  match t.node? at_ with
  | some (.directory m) => if t.user.maySearch m then .ok () else .error .accessDenied
  | some _ => .error .notDirectory
  | none => .error .notFound

/-- A walk in which `onLink` goes on from a link. With `follow` the last name is followed too. -/
def walkNames (t : FileTree) (onLink : List Name → Location → Except FileError Found)
    (follow : Bool) : List Name → Location → Except FileError Found
  | [], here =>
    match t.node? here with
    | some n => .ok (.node here n)
    | none => .error .notFound
  | name :: rest, here => do
    t.searchable here
    if name = [Path.dot] then walkNames t onLink follow rest here
    else if name = [Path.dot, Path.dot] then walkNames t onLink follow rest here.dropLast
    else if maxName < name.length then .error .nameTooLong
    else
      let there := here ++ [name]
      match t.node? there with
      | none => if rest.isEmpty then .ok (.missing here name) else .error .notFound
      | some (.link target) =>
        if rest.isEmpty && !follow then .ok (.node there (.link target))
        else onLink (steps target ++ rest) (origin here target)
      | some (.directory _) => walkNames t onLink follow rest there
      | some n => if rest.isEmpty then .ok (.node there n) else .error .notDirectory

/-- A walk on which as many links as given may be followed. -/
def walkLinks (t : FileTree) (follow : Bool) : Nat → List Name → Location → Except FileError Found
  | 0 => t.walkNames (fun _ _ => .error .tooManyLinks) follow
  | links + 1 => t.walkNames (t.walkLinks follow links) follow

def walk (t : FileTree) (follow : Bool) (p : Path) : Except FileError Found :=
  if p.contains 0 then .error .zeroByte
  else if p.isEmpty then .error .notFound
  else if maxPath ≤ p.length then .error .nameTooLong
  else t.walkLinks follow maxLinks (steps p) (origin t.cwd p)

/-- What a path leads to, if anything is there. -/
def lookup (t : FileTree) (follow : Bool) (p : Path) : Except FileError (Location × Node) :=
  (t.walk follow p).bind fun
    | .node at_ n => .ok (at_, n)
    | .missing _ _ => .error .notFound

/-- Something is there, links followed. -/
def isThere (t : FileTree) (p : Path) : Bool := (t.lookup true p).isOk

/-- A directory is there, links followed. -/
def isDirectory (t : FileTree) (p : Path) : Bool :=
  match t.lookup true p with
  | .ok (_, .directory _) => true
  | _ => false

end FileTree

end PinnedBuild.Files
