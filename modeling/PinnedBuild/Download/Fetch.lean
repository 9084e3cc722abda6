import PinnedBuild.World
import PinnedBuild.Download.Transfer

/-!
Downloading into a file.

The file is made, or emptied, before anything is asked for, and every piece is written as it
arrives. A failure to write counts before a failure of the transfer, and that before the status.
-/

namespace PinnedBuild.Download

open Files

inductive FetchError where
  | storage (path : Path) (e : FileError)
  | transfer (e : TransferError)
  | status (url : String) (code : Nat)
  deriving DecidableEq, Repr

def FetchError.message : FetchError → String
  | storage path e => "storage " ++ path.display ++ ": " ++ e.message
  | transfer e => e.message
  | status url code => "GET " ++ url ++ " returned HTTP " ++ toString code

/-- The transfer of an address. One with a zero byte is not even asked for. -/
def transferOf (net : Network) (url : String) (options : FetchOptions) : Transfer :=
  if url.contains '\x00' then .failed .zeroByte else net url options

/-- What a file's storage has room for: of bytes that it refuses, how many it takes before, and
why it takes no more. -/
abbrev Disk := FileTree → Nat → Bytes → Option (Nat × FileError)

namespace Disk

/-- Storage with room for everything. -/
def roomy : Disk := fun _ _ _ => none

/-- Writes all of the bytes, or as many as there is room for. -/
def write (disk : Disk) (h : Handle) (bytes : Bytes) : FileAct Unit := do
  match h with
  | .file id =>
    match disk (← get) id bytes with
    | none => FileOp.write h bytes
    | some (n, e) =>
      FileOp.write h (bytes.take n)
      FileAct.fail e
  | h => FileOp.write h bytes

/-- Writes pieces as they arrive and counts their bytes. The first that cannot be written is the
last. -/
def receive (disk : Disk) (h : Handle) (written : Nat) :
    List Bytes → FileAct (Nat × Option FileError)
  | [] => return (written, none)
  | piece :: rest => do
    let failure ← try (do disk.write h piece; pure none) catch e => pure (some e)
    match failure with
    | some e => return (written, some e)
    | none => receive disk h (written + piece.length) rest

end Disk

/-- How a transfer ends. One whose body is refused is given up. -/
def Transfer.performed (t : Transfer) (refused : Bool) : Except TransferError Nat :=
  if refused then .error .refused else t.outcome

/-- The number of bytes written. -/
def fetchOnto (disk : Disk) (net : Network) (url : String) (dest : Path) (options : FetchOptions) :
    Act FetchError Nat := do
  let h ← Act.op (.storage dest) (FileOp.create dest)
  let t := transferOf net url options
  t.requests.forM fun r => Act.emit (.requested r)
  let (written, failure) ← Act.onFiles (.storage dest) (disk.receive h 0 t.pieces)
  match failure, t.performed failure.isSome with
  | some e, _ => Act.fail (.storage dest e)
  | none, .error e => Act.fail (.transfer e)
  | none, .ok code =>
    if 200 ≤ code ∧ code < 300 then return written else Act.fail (.status url code)

def fetch : Network → String → Path → FetchOptions → Act FetchError Nat := fetchOnto .roomy

end PinnedBuild.Download
