import PinnedBuild.Build.Run
import PinnedBuild.CommandLine.Help
import PinnedBuild.Config.Store
import PinnedBuild.Text.Padding

/-!
Running the program: the log is opened, the command line is read, and the command is carried out.
-/

namespace PinnedBuild.CommandLine

open Files

/-- Opens the log file for adding to it, after making its directory. -/
def openLog (e : Environment) : FileAct Handle := do
  match e.logFile.parent? with
  | some dir => FileAct.ensureDirectory dir
  | none => pure ()
  FileOp.openWrite e.logFile

/-- Sends the log to its file, or to standard error if that cannot be opened. -/
def startLog (e : Environment) (w : World) : World :=
  let (r, files) := (openLog e).run w.files
  let w := { w with files := files, filter := e.filter }
  match r with
  | .ok h =>
    let sink := match h with
      | .file id => Sink.file id
      | _ => Sink.none
    World.say ⟨.info, .logging, "llvm-prep logging initialized at " ++ e.logFile.display⟩
      { w with sink := sink }
  | .error _ => { w with sink := .standardError }

/-- Why a command fails. -/
inductive CommandError where
  | hash (e : Digest.HashError)
  | config (e : Config.LoadError)
  | build (e : BuildError)
  /-- The directory that the program was started in is gone. -/
  | noDirectory
  deriving Repr

def CommandError.message : CommandError → String
  | hash e => e.message
  | config e => e.message
  | build e => e.message
  | noDirectory => FileError.message .notFound

def loadConfig (e : Environment) (file : Option Path) : Act CommandError Config := do
  match file with
  | some f => Act.ofExcept ((Config.load (← get).files f).mapError .config)
  | none => Act.withError .config (Config.loadOrCreate e)

/-- The directory that the program was started in, as a path. -/
def startDirectory : Act CommandError Path := do
  let t := (← get).files
  match t.node? t.cwd with
  | some (.directory _) => return Path.slash :: List.intercalate [Path.slash] t.cwd
  | _ => Act.fail .noDirectory

/-- What a record says in the report. -/
def statusText : StageStatus → String
  | .ok => "ok"
  | .exited (some code) => "exited with status " ++ toString code
  | .exited none => "terminated by signal"
  | .failed m => "failed: " ++ m

/-- Stage names stand in a column of ten. -/
def reportLine (r : StageRecord) : String :=
  ({ width := some 10, align := some (.left, ' ') } : Text.Padding).apply r.stage.name
    ++ " " ++ statusText r.status

/-- Builds, and prints the address of the archive and how each stage went. -/
def build (site : Site) (c : Config) (workDir : Path) : Act CommandError Unit := do
  let plan := BuildPlan.ofConfig c workDir
  Act.emit (.printed plan.archiveUrl)
  let report ← Act.withError .build (plan.run site)
  report.stages.forM fun r => Act.emit (.printed (reportLine r))
  if report.allOk then pure ()
  else
    Act.say .warn .buildCommand ("build finished with failed steps in " ++ report.buildDir.display)

/-- Carries out a command. -/
def carryOut (site : Site) (e : Environment) (i : Invocation) : Act CommandError Unit := do
  match i.command with
  | .checksum path =>
    let digest ← Act.ofExcept ((Digest.hashFile (← get).files path).mapError .hash)
    Act.emit (.printed ("SHA-256: " ++ digest))
  | .url commit =>
    let c ← loadConfig e i.config
    Act.emit (.printed (Snapshot.archiveUrl (commit.getD c.commit)))
  | .build workDir commit jobs noSudo =>
    let c ← loadConfig e i.config
    let dir ← match workDir with
      | some d => pure d
      | none => startDirectory
    build site ((⟨commit, jobs, noSudo⟩ : BuildOverrides).apply c) dir

/-- How the program ends. -/
inductive Ending where
  | done
  | failed (e : CommandError)
  | refused (r : Refusal)
  deriving Repr

namespace Ending

def exitStatus : Ending → Nat
  | done => 0
  | failed _ => 1
  | refused r => r.exitStatus

/-- The last line on standard error, if there is one. -/
def errorLine? : Ending → Option String
  | failed e => some ("llvm-prep error: " ++ e.message)
  | done | refused (.help _) => none
  | refused r => some ("error: " ++ r.message)

end Ending

/-- Reads the command line and carries out what it asks for. -/
def dispatch (site : Site) (e : Environment) (args : List Bytes) (w : World) : Ending × World :=
  match parse args with
  | .error (.help topic) => (.refused (.help topic), w.emit (.printed (helpText topic)))
  | .error r => (.refused r, w)
  | .ok i =>
    match (carryOut site e i).run w with
    | (.ok (), w') => (.done, w')
    | (.error err, w') => (.failed err, w')

/-- The whole program. -/
def run (site : Site) (e : Environment) (args : List Bytes) (w : World) : Ending × World :=
  dispatch site e args (startLog e w)

end PinnedBuild.CommandLine
