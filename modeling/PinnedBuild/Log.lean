/-!
The log: lines with a level and a speaker.
-/

namespace PinnedBuild

inductive Level where
  | error
  | warn
  | info
  deriving DecidableEq, Repr

namespace Level

def name : Level → String
  | error => "ERROR"
  | warn => "WARN"
  | info => "INFO"

/-- The more lines a log asks for, the higher. -/
def rank : Level → Nat
  | error => 1
  | warn => 2
  | info => 3

end Level

/-- The part of the program that a line comes from. -/
inductive Speaker where
  | logging
  | config
  | extract
  | toolchain
  | driver
  | buildCommand
  deriving DecidableEq, Repr

/-- By this name filters know a speaker. -/
def Speaker.name : Speaker → String
  | logging => "llvm_prep_core::logging"
  | config => "llvm_prep_core::config"
  | extract => "llvm_prep_core::extract"
  | toolchain => "llvm_prep_core::toolchain"
  | driver => "llvm_prep_core::driver"
  | buildCommand => "llvm_prep::cli::commands::build"

structure LogLine where
  level : Level
  speaker : Speaker
  text : String
  deriving DecidableEq, Repr

namespace LogLine

def display (l : LogLine) : String := l.level.name ++ " " ++ l.text

/-- The line as it stands in a log file: the time, the level in five columns, who speaks, and
what is said. -/
def stamped (time : String) (l : LogLine) : String :=
  let room := String.ofList (List.replicate (5 - l.level.name.length) ' ')
  time ++ " " ++ room ++ l.level.name ++ " " ++ l.speaker.name ++ ": " ++ l.text ++ "\n"

end LogLine

end PinnedBuild
