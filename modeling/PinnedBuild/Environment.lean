import PinnedBuild.LogFilter
import PinnedBuild.Path

/-!
The variables that a program is started with, and what follows from them: directories, and which
log lines are kept.
-/

namespace PinnedBuild

/-- The variables that matter, each absent when it is not set, and the home that the account has
without them. -/
structure Environment where
  home : Option Path := none
  configHome : Option Path := none
  stateHome : Option Path := none
  logFilter : Option Bytes := none
  account : Path := .ofString "/root"
  deriving DecidableEq, Repr

namespace Environment

/-- The home directory; where none is named that of the account. -/
def homeDir (e : Environment) : Path :=
  match e.home with
  | some h => if h.isEmpty then e.account else h
  | none => e.account

/-- A directory that a variable names, if it names an absolute one. -/
def absolute? (value : Option Path) : Option Path := value.filter Path.isAbsolute

def configDir (e : Environment) : Path :=
  ((absolute? e.configHome).getD (e.homeDir.join (.ofString ".config"))).join
    (.ofString "llvm-prep")

def stateDir (e : Environment) : Path :=
  ((absolute? e.stateHome).getD (e.homeDir.join (.ofString ".local/state"))).join
    (.ofString "llvm-prep")

/-- The default configuration file. -/
def configFile (e : Environment) : Path := e.configDir.join (.ofString "config.toml")

def logFile (e : Environment) : Path := e.stateDir.join (.ofString "llvm-prep.log")

/-- What the variable asks for, if it can be read. -/
def filter (e : Environment) : LogFilter :=
  ((e.logFilter.bind Bytes.decode?).bind LogFilter.read?).getD .standard

end Environment

end PinnedBuild
