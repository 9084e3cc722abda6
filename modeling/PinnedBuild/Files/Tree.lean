import PinnedBuild.Path

/-!
A file system: what stands at each place, and the files themselves.

A place is the list of names that leads to it from the root through real directories. Files stand
apart from their places, so that one file can stand at several.
-/

namespace PinnedBuild.Files

abbrev Name := Bytes

/-- The names from the root down. -/
abbrev Location := List Name

/-- The low twelve permission bits. -/
abbrev Mode := BitVec 12

namespace Mode

def ownerReads (m : Mode) : Bool := m.getLsbD 8

def ownerWrites (m : Mode) : Bool := m.getLsbD 7

def ownerRuns (m : Mode) : Bool := m.getLsbD 6

/-- The owner, the group or others may run it. -/
def someoneRuns (m : Mode) : Bool := m.ownerRuns || m.getLsbD 3 || m.getLsbD 0

end Mode

/-- Who works on the files: the owner of them all, or the superuser, whom permissions only keep from
running what nobody may run. -/
inductive User where
  | owner
  | superuser
  deriving DecidableEq, Repr

namespace User

def mayRead : User → Mode → Bool
  | owner, m => m.ownerReads
  | superuser, _ => true

def mayWrite : User → Mode → Bool
  | owner, m => m.ownerWrites
  | superuser, _ => true

/-- May go through a directory. -/
def maySearch : User → Mode → Bool
  | owner, m => m.ownerRuns
  | superuser, _ => true

/-- May run a file as a program. -/
def mayRun : User → Mode → Bool
  | owner, m => m.ownerRuns
  | superuser, m => m.someoneRuns

end User

inductive Device where
  /-- Takes everything and holds nothing. -/
  | null
  /-- Takes nothing. -/
  | full
  deriving DecidableEq, Repr

inductive Node where
  | directory (mode : Mode)
  | link (target : Path)
  | file (id : Nat)
  | device (d : Device)
  deriving DecidableEq, Repr

structure File where
  content : Bytes
  mode : Mode
  deriving DecidableEq, Repr

structure FileTree where
  nodes : List (Location × Node)
  /-- A file's number is its index. -/
  files : List File
  /-- Where relative paths begin. -/
  cwd : Location
  user : User := .owner
  deriving Repr

namespace FileTree

/-- A root directory and nothing in it. -/
def empty : FileTree where
  nodes := [([], .directory 0o755)]
  files := []
  cwd := []

def node? (t : FileTree) (at_ : Location) : Option Node := t.nodes.lookup at_

def file? (t : FileTree) (id : Nat) : Option File := t.files[id]?

def erase (t : FileTree) (at_ : Location) : FileTree :=
  { t with nodes := t.nodes.filter fun n => n.1 != at_ }

def put (t : FileTree) (at_ : Location) (n : Node) : FileTree :=
  { t with nodes := (at_, n) :: (t.erase at_).nodes }

/-- A new empty file. -/
def putFile (t : FileTree) (at_ : Location) (mode : Mode) : Nat × FileTree :=
  let id := t.files.length
  (id, { t.put at_ (.file id) with files := t.files ++ [⟨[], mode⟩] })

def modifyFile (t : FileTree) (id : Nat) (f : File → File) : FileTree :=
  { t with files := t.files.modify id f }

/-- Adds to the end of a file. -/
def append (t : FileTree) (id : Nat) (bytes : Bytes) : FileTree :=
  t.modifyFile id fun f => { f with content := f.content ++ bytes }

/-- The names that stand directly in a directory. -/
def names (t : FileTree) (dir : Location) : List Name :=
  t.nodes.filterMap fun n =>
    if n.1.dropLast = dir then n.1.getLast? else none

end FileTree

end PinnedBuild.Files
