import PinnedBuild.Files.Operations
import PinnedBuild.Digest.Reader
import PinnedBuild.Config

/-!
The digest of a file, and whether it is the one that is recorded.
-/

namespace PinnedBuild.Digest

open Files

inductive HashError where
  | cannotOpen (path : Path) (e : FileError)
  | cannotRead (path : Path) (cause : String)
  deriving DecidableEq, Repr

def HashError.message : HashError → String
  | cannotOpen path e => "open " ++ path.display ++ ": " ++ e.message
  | cannotRead path cause => "hash " ++ path.display ++ ": read: " ++ cause

/-- What reading an open file delivers. -/
def readerOf (t : FileTree) (h : Handle) : Reader :=
  match (FileOp.contents h).run t with
  | .ok (bytes, _) => [.content bytes]
  | .error e => [.failure e.message]

/-- The digest of a file in lowercase hexadecimal digits. -/
def hashFile (t : FileTree) (p : Path) : Except HashError String :=
  match (FileOp.openRead p).run t with
  | .error e => .error (.cannotOpen p e)
  | .ok (h, _) =>
    match (Reader.hash (readerOf t h)).1 with
    | .ok digest => .ok (Bytes.toHex digest)
    | .error cause => .error (.cannotRead p cause)

inductive Verdict where
  | notRecorded
  | matched
  | differs (actual : String)
  | unreadable (message : String)
  deriving DecidableEq, Repr

/-- Equal up to the case of ASCII letters. -/
def sameLetters (s t : String) : Bool := s.toList.map Char.toLower == t.toList.map Char.toLower

/-- Compares an archive with the recorded digest. Without one it is not even opened. -/
def check (c : Config) (t : FileTree) (archive : Path) : Verdict :=
  match c.expectedSha256 with
  | none => .notRecorded
  | some expected =>
    match hashFile t archive with
    | .error e => .unreadable e.message
    | .ok actual => if sameLetters actual expected then .matched else .differs actual

end PinnedBuild.Digest
