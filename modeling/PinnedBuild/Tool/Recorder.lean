import PinnedBuild.Tool.Spawn

/-!
Recording tools: scripts that add a line to a file, with their name, their arguments and the
directory they run in, and then end as they were told to. They stand in for the real tools.
-/

namespace PinnedBuild

open Files

inductive RecorderEnd where
  | exit (status : Nat)
  | signal (number : Nat)
  deriving DecidableEq, Repr

structure Recorder where
  log : Path
  ending : RecorderEnd
  deriving DecidableEq, Repr

namespace Recorder

/-- The script up to the name of its log. -/
def front : Bytes := Bytes.ofString <|
  "#!/bin/sh\n\x7b printf '%s' \"$\x7b0##*/\x7d\"; for a in \"$@\"; do printf ' [%s]' \"$a\"; done;"
  ++ " printf ' @ %s\\n' \"$(pwd -P)\"; \x7d >> '"

def middle : Bytes := Bytes.ofString "'\n"

/-- What stands after the given bytes. -/
def after? : Bytes → Bytes → Option Bytes
  | [], b => some b
  | x :: xs, y :: ys => if x = y then after? xs ys else none
  | _ :: _, [] => none

/-- What stands before the given bytes and after them. -/
def around? (mark : Bytes) : Bytes → Option (Bytes × Bytes)
  | [] => none
  | b :: rest =>
    match after? mark (b :: rest) with
    | some r => some ([], r)
    | none => (around? mark rest).map fun (l, r) => (b :: l, r)

def decimal? (s : String) : Option Nat := s.toNat?

def ending? (line : Bytes) : Option RecorderEnd := do
  let s ← Bytes.decode? line
  match (s.splitOn " ").map fun w => w.toList.filter (· ≠ '\n') with
  | [['e', 'x', 'i', 't'], n] => (decimal? (String.ofList n)).map .exit
  | [['k', 'i', 'l', 'l'], '-' :: n, ['$', '$']] => (decimal? (String.ofList n)).map .signal
  | _ => none

def read? (b : Bytes) : Option Recorder := do
  let (log, rest) ← around? middle (← after? front b)
  return ⟨log, ← ending? rest⟩

/-- Signals that do nothing to a process by default; zero asks only whether it is there. -/
def harmless : List Nat := [0, 17, 18, 23, 28]

def endOf : RecorderEnd → ToolEnd
  | .exit n => .exited (UInt8.ofNat n)
  | .signal n => if harmless.contains n then .exited 0 else .killed n

def line (p : Process) : Bytes :=
  p.path.lastPiece
  ++ p.args.flatMap (fun a => Bytes.ofString (" [" ++ a ++ "]"))
  ++ Bytes.ofString " @ " ++ (Path.slash :: List.intercalate [Path.slash] p.cwd)
  ++ Bytes.ofString "\n"

/-- Adds to a file, which is made if it is missing. Where that cannot be done nothing happens. -/
def note (log : Path) (bytes : Bytes) (t : FileTree) : FileTree :=
  match (do FileOp.write (← FileOp.openWrite log) bytes : FileOp Unit).run t with
  | .ok ((), t') => t'
  | .error _ => t

/-- The file at a place lets the user read it. -/
def isReadable (t : FileTree) (place : Location) : Bool :=
  match t.node? place with
  | some (.file id) => (t.file? id).any fun f => t.user.mayRead f.mode
  | _ => false

/-- How a shell ends that cannot read its script. -/
def unreadable : ToolEnd := .exited 2

/-- Recording tools do what they say; any other script does nothing and ends well, and what is no
script cannot be run. -/
def behaviour : ToolBehaviour := fun p t =>
  match p.content with
  | 35 :: 33 :: _ =>
    if isReadable t p.place then
      match read? p.content with
      | some r => .ok (endOf r.ending, note r.log (line p) t)
      | none => .ok (.exited 0, t)
    else .ok (unreadable, t)
  | _ => .error .noExec

end Recorder

end PinnedBuild
