import PinnedBuild.Files.Operations
import PinnedBuild.LogFilter

/-!
What the program acts on: the file system, and what is seen of it from outside in the order in
which it happens.
-/

namespace PinnedBuild

open Files

/-- A tool as it is started. -/
structure Launch where
  program : String
  args : List String
  cwd : Path
  deriving DecidableEq, Repr

inductive Event where
  | logged (line : LogLine)
  /-- A line on standard output. -/
  | printed (line : String)
  /-- An HTTP request with its target. -/
  | requested (target : String)
  | launched (launch : Launch)
  deriving DecidableEq, Repr

/-- Where log lines go besides the record of events. -/
inductive Sink where
  | none
  | file (id : Nat)
  | standardError
  deriving DecidableEq, Repr

structure World where
  files : FileTree
  events : List Event := []
  sink : Sink := .none
  /-- Which log lines are kept. -/
  filter : LogFilter := .standard
  /-- The time that log lines are stamped with. -/
  time : String := ""

/-- An action fails with an error but keeps what it has done. -/
abbrev Act (ε α : Type) := ExceptT ε (StateM World) α

namespace World

def emit (e : Event) (w : World) : World := { w with events := w.events ++ [e] }

/-- Adds a line to the log file, if there is one. -/
def record (line : LogLine) (w : World) : World :=
  match w.sink with
  | .file id => { w with files := w.files.append id (Bytes.ofString (line.stamped w.time)) }
  | _ => w

def say (line : LogLine) (w : World) : World :=
  if w.filter.keeps line then (w.record line).emit (.logged line) else w

end World

namespace Act

variable {ε δ α : Type}

def fail (e : ε) : Act ε α := throw e

def say (level : Level) (speaker : Speaker) (text : String) : Act ε Unit :=
  modify (World.say ⟨level, speaker, text⟩)

def emit (e : Event) : Act ε Unit := modify (World.emit e)

/-- Operations on the file system as an action. -/
def onFiles (wrap : δ → ε) (a : ExceptT δ (StateM FileTree) α) : Act ε α :=
  ExceptT.mk fun w => match a.run w.files with
    | (.ok x, t) => (.ok x, { w with files := t })
    | (.error e, t) => (.error (wrap e), { w with files := t })

def op (wrap : FileError → ε) (o : FileOp α) : Act ε α := onFiles wrap (FileOp.toAct o)

/-- The outcome of an action as a value; what it has done stays done. -/
def outcome (a : Act ε α) : Act δ (Except ε α) := ExceptT.mk fun w =>
  let (r, w') := a.run w
  (.ok r, w')

/-- The same action with its error told in another way. -/
def withError (f : ε → δ) (a : Act ε α) : Act δ α := ExceptT.mk fun w =>
  let (r, w') := a.run w
  (r.mapError f, w')

def ofExcept (r : Except ε α) : Act ε α := ExceptT.mk fun w => (r, w)

end Act

end PinnedBuild
