import PinnedBuild.World
import PinnedBuild.Archive.Unpack

/-!
Extracting an archive: its members are unpacked one after the other until one cannot be read or
unpacked. Members whose names lead upwards are passed over with a warning.
-/

namespace PinnedBuild.Archive

open Files

inductive ExtractError where
  | cannotOpen (archive : Path) (e : FileError)
  | corrupted (archive : Path)
  | cannotUnpack (member : Member) (e : UnpackError)
  deriving Repr

def ExtractError.message : ExtractError → String
  | cannotOpen archive e => "open " ++ archive.display ++ ": " ++ e.message
  | corrupted archive => "corrupted entry in " ++ archive.display ++ ": damaged archive"
  | cannotUnpack m e => "unpack " ++ m.path.display ++ ": " ++ e.message

/-- Names in rising order, each once. -/
def insertName (n : Name) : List Name → List Name
  | [] => [n]
  | x :: rest =>
    if n < x then n :: x :: rest else if n = x then x :: rest else x :: insertName n rest

/-- The first name on a path, unless a slash or a dot stands before it. -/
def topName? (p : Path) : Option Name :=
  match Path.components p with
  | .name n :: _ => some n
  | _ => none

/-- Unpacks one member and adds its top-level name to those found so far. -/
def extractMember (dest : Path) (names : List Name) (m : Member) :
    Act ExtractError (List Name) := do
  if m.kind = .globalRecords then return names
  else
    let unpacked ← Act.onFiles (.cannotUnpack m) (Unpacking.member dest m)
    if unpacked then
      return match topName? m.path with
        | some n => insertName n names
        | none => names
    else
      Act.say .warn .extract ("skipped archive entry outside destination: " ++ m.path.display)
      return names

/-- The feed of an open archive. A directory can be opened but not read. -/
def feedOf (archive : Path) : FileOp Feed := do
  let h ← FileOp.openRead archive
  match h with
  | .directory _ => return .broken []
  | h => return Gzip.feed (← FileOp.contents h)

/-- The top-level names of what has been unpacked. -/
def extract (archive dest : Path) : Act ExtractError (List Name) := do
  let feed ← Act.op (.cannotOpen archive) (feedOf archive)
  let (ms, whole) := members feed
  let names ← ms.foldlM (extractMember dest) []
  if whole then return names else Act.fail (.corrupted archive)

end PinnedBuild.Archive
