import PinnedBuild.World
import PinnedBuild.Tool.Step

/-!
Finding a tool and running it to its end.
-/

namespace PinnedBuild

open Files

/-- How a tool ended. -/
inductive ToolEnd where
  | exited (code : UInt8)
  | killed (signal : Nat)
  deriving DecidableEq, Repr

namespace ToolEnd

def isSuccess (e : ToolEnd) : Bool := e == .exited 0

/-- The exit status, if the tool came to have one. -/
def code? : ToolEnd → Option Int
  | exited c => some c.toNat
  | killed _ => none

/-- Names of the signals from 1 on. -/
def signalNames : List String :=
  ["HUP", "INT", "QUIT", "ILL", "TRAP", "ABRT", "BUS", "FPE", "KILL", "USR1", "SEGV", "USR2",
   "PIPE", "ALRM", "TERM", "STKFLT", "CHLD", "CONT", "STOP", "TSTP", "TTIN", "TTOU", "URG",
   "XCPU", "XFSZ", "VTALRM", "PROF", "WINCH", "IO", "PWR", "SYS"]

def display : ToolEnd → String
  | exited c => "exit status: " ++ toString c.toNat
  | killed s =>
    "signal: " ++ toString s ++ match (s - 1 : Nat) |> fun i => signalNames[i]? with
      | some name => " (SIG" ++ name ++ ")"
      | none => ""

end ToolEnd

/-- A program that runs: where it was found and under which path, what it holds, its arguments and
the directory it runs in. -/
structure Process where
  place : Location
  path : Path
  content : Bytes
  args : List String
  cwd : Location
  deriving Repr

/-- What programs do: they may refuse to start, and may change the file system before they end. -/
abbrev ToolBehaviour := Process → FileTree → Except FileError (ToolEnd × FileTree)

inductive SpawnError where
  | file (e : FileError)
  /-- No argument holds a zero byte. -/
  | zeroByte
  deriving DecidableEq, Repr

def SpawnError.message : SpawnError → String
  | file e => e.message
  | zeroByte => "nul byte found in provided data"

namespace Spawn

/-- A file that may be run: its place and contents. -/
def runnable (t : FileTree) (p : Path) : Except FileError (Location × Bytes) := do
  match ← t.lookup true p with
  | (place, .file id) =>
    match t.file? id with
    | some f => if t.user.mayRun f.mode then .ok (place, f.content) else .error .accessDenied
    | none => .error .notFound
  | _ => .error .accessDenied

/-- The first runnable file of a name in the directories. One that may not be run is remembered in
case no other is found. -/
def search (t : FileTree) (name : Path) (denied : Bool) :
    List Path → Except FileError (Path × Location × Bytes)
  | [] => .error (if denied then .accessDenied else .notFound)
  | dir :: dirs =>
    match runnable t (dir.join name) with
    | .ok (place, content) => .ok (dir.join name, place, content)
    | .error .accessDenied => search t name true dirs
    | .error .notFound | .error .notDirectory => search t name denied dirs
    | .error e => .error e

/-- A name with a slash is a path; any other is looked up. -/
def find (t : FileTree) (searchPath : List Path) (program : Path) :
    Except FileError (Path × Location × Bytes) :=
  if program.isEmpty then .error .notFound
  else if program.contains Path.slash then
    (runnable t program).map fun (place, content) => (program, place, content)
  else search t program false searchPath

/-- The directory to run in. -/
def enter (t : FileTree) (cwd : Path) : Except FileError Location := do
  match ← t.lookup true cwd with
  | (place, .directory m) => if t.user.maySearch m then .ok place else .error .accessDenied
  | _ => .error .notDirectory

/-- The process of a step, once its directory is entered and its program found there. -/
def prepare (t : FileTree) (searchPath : List Path) (s : ToolStep) (cwd : Path) :
    Except SpawnError Process :=
  let program := Path.ofString s.program
  if program.contains 0 || s.args.any (fun a => a.contains '\x00') || cwd.contains 0 then
    .error .zeroByte
  else Except.mapError .file <| do
    let place ← enter t cwd
    let (path, found, content) ← find { t with cwd := place } searchPath program
    return ⟨found, path, content, s.args, place⟩

end Spawn

/-- What is around a build: the directories that tools are looked up in, and what tools do. -/
structure Workshop where
  searchPath : List Path
  behaviour : ToolBehaviour

namespace ToolStep

structure RunError where
  command : String
  cause : SpawnError
  deriving Repr

def RunError.message (e : RunError) : String :=
  "failed to run `" ++ e.command ++ "`: " ++ e.cause.message

/-- Takes the program from a directory if something of its name is there. -/
def searchAt (s : ToolStep) (t : FileTree) (dir : Path) : ToolStep :=
  let p := dir.join (.ofString s.program)
  if t.isThere p then { s with program := p.display } else s

/-- Starts the tool, if it can be started. -/
def start (shop : Workshop) (s : ToolStep) (cwd : Path) (t : FileTree) :
    Except SpawnError (ToolEnd × FileTree) := do
  let process ← Spawn.prepare t shop.searchPath s cwd
  (shop.behaviour process t).mapError .file

/-- Runs the tool to its end, in a directory. -/
def runIn (shop : Workshop) (s : ToolStep) (cwd : Path) : Act RunError ToolEnd := do
  Act.say .info .toolchain ("running `" ++ s.display ++ "` in " ++ cwd.display)
  match s.start shop cwd (← get).files with
  | .error e => Act.fail ⟨s.display, e⟩
  | .ok (ended, files) =>
    Act.emit (.launched ⟨s.program, s.args, cwd⟩)
    modify fun w => { w with files := files }
    return ended

end ToolStep

end PinnedBuild
