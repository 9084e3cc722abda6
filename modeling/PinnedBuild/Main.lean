import PinnedBuild.CommandLine.Run

/-!
The program. What a run may touch of the file system is read first, the run is worked out, and what
it changed is written back.

No net is reached and no tool is started from here, so that every download fails as it does when
the host is out of reach, and a build ends where its first tool would start. Symbolic links are
followed when read and never written.
-/

namespace PinnedBuild.CommandLine

open Files

/-- The surroundings of a build without a net and without tools. -/
def bareSite : Site where
  network := fun _ _ => .failed .couldNotConnect
  shop := ⟨[], fun _ _ => .error .notFound⟩

/-- Every place on the way to a path. -/
def placesTo (cwd : Location) (p : Path) : List Location :=
  let step := fun (seen : List Location × Location) name =>
    let next := if name = [Path.dot] then seen.2
      else if name = [Path.dot, Path.dot] then seen.2.dropLast
      else seen.2 ++ [name]
    (seen.1 ++ [next], next)
  ((cwd ++ steps p).foldl step ([[]], [])).1

/-- The files that an invocation names. -/
def namedFiles (i : Invocation) : List Path :=
  i.config.toList ++ match i.command with
    | .checksum path => [path]
    | .url _ => []
    | .build workDir _ _ _ => workDir.toList

/-- The plan that an invocation leads to. -/
def plan? (e : Environment) (i : Invocation) (t : FileTree) : Option BuildPlan :=
  match i.command, ((loadConfig e i.config).run { files := t }).1 with
  | .build workDir commit jobs noSudo, .ok c =>
    let dir := workDir.getD (Path.slash :: Path.ofPieces t.cwd)
    some (.ofConfig ((⟨commit, jobs, noSudo⟩ : BuildOverrides).apply c) dir)
  | _, _ => none

namespace Disk

def pathOf (at_ : Location) : String := Path.display (Path.slash :: Path.ofPieces at_)

/-- What kind of thing stands at a place. -/
def kind? (at_ : Location) : IO (Option IO.FS.FileType) := do
  try
    let real ← IO.FS.realPath (pathOf at_)
    return some (← real.metadata).type
  catch _ => return none

/-- Takes a file into the tree. One that cannot be read is closed to its owner there. -/
def readFile (t : FileTree) (at_ : Location) : IO FileTree := do
  try
    let content ← IO.FS.readBinFile (pathOf at_)
    let (id, t) := t.putFile at_ 0o644
    return t.append id content.toList
  catch _ => return (t.putFile at_ 0).2

def readPlace (t : FileTree) (at_ : Location) : IO FileTree := do
  if (t.node? at_).isSome then return t
  match ← kind? at_ with
  | some .dir => return t.put at_ (.directory 0o755)
  | some .file => readFile t at_
  | _ => return t

def read (t : FileTree) (paths : List Path) : IO FileTree :=
  (paths.flatMap fun p => placesTo (origin t.cwd p) p).foldlM readPlace t

/-- The contents of the file at a place. -/
def contentAt (t : FileTree) (at_ : Location) : Option Bytes :=
  match t.node? at_ with
  | some (.file id) => (t.file? id).map File.content
  | _ => none

def writePlace (before after : FileTree) (at_ : Location) : Node → IO Unit
  | .directory _ => if (before.node? at_).isNone then IO.FS.createDirAll (pathOf at_) else pure ()
  | .file _ =>
    match contentAt after at_ with
    | some content =>
      if contentAt before at_ = some content then pure ()
      else IO.FS.writeBinFile (pathOf at_) ⟨content.toArray⟩
    | none => pure ()
  | _ => pure ()

/-- Writes what has changed, directories before what is in them. -/
def write (before after : FileTree) : IO Unit := do
  for (at_, n) in before.nodes do
    if (after.node? at_).isNone then
      match n with
      | .file _ => IO.FS.removeFile (pathOf at_)
      | _ => pure ()
  for (at_, n) in after.nodes.mergeSort fun a b => a.1.length ≤ b.1.length do
    writePlace before after at_ n

end Disk

/-- Shows an event, the log only where it goes to standard error. -/
def showEvent (sink : Sink) : Event → IO Unit
  | .printed line => IO.println line
  | .logged line => if sink = .standardError then IO.eprintln line.display else pure ()
  | _ => pure ()

/-- Reads, runs and writes. -/
def program (args : List Bytes) : IO UInt32 := do
  let setting := fun name => return (← IO.getEnv name).map Bytes.ofString
  let e : Environment :=
    { home := ← setting "HOME", configHome := ← setting "XDG_CONFIG_HOME"
      stateHome := ← setting "XDG_STATE_HOME", logFilter := ← setting "RUST_LOG" }
  let cwd := steps (Path.ofString (← IO.currentDir).toString)
  let named := match parse args with
    | .ok i => namedFiles i
    | .error _ => []
  let t ← Disk.read { FileTree.empty with cwd := cwd }
    ([Path.ofString ".", e.logFile, e.configFile] ++ named)
  let t ← match (parse args).toOption.bind fun i => plan? e i t with
    | some plan => Disk.read t [plan.archivePath, plan.sourceDir, plan.buildDir]
    | none => pure t
  let (ending, w) := run bareSite e args { files := t, time := toString (← IO.monoMsNow) }
  w.events.forM (showEvent w.sink)
  Disk.write t w.files
  match ending.errorLine? with
  | some line => IO.eprintln line
  | none => pure ()
  return UInt32.ofNat ending.exitStatus

end PinnedBuild.CommandLine

def main (args : List String) : IO UInt32 :=
  PinnedBuild.CommandLine.program (args.map PinnedBuild.Bytes.ofString)
