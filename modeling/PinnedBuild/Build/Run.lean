import PinnedBuild.Archive.Extract
import PinnedBuild.Build.Tools
import PinnedBuild.Digest.File
import PinnedBuild.Download.Fetch

/-!
A whole build: download, extract, enter the source tree, and run the tools.

Download and extraction are attempted; whether the build goes on depends only on the source tree
being there afterwards.
-/

namespace PinnedBuild

open Files

/-- All that a build meets: the net, the tools and where they are looked up. -/
structure Site where
  network : Download.Network
  options : Download.FetchOptions := {}
  shop : Workshop
  /-- Where tools are taken from if they are there. -/
  toolDir : Option Path := none

structure DownloadError where
  url : String
  cause : Download.FetchError
  deriving DecidableEq, Repr

def DownloadError.message (e : DownloadError) : String :=
  "download " ++ e.url ++ ": " ++ e.cause.message

inductive BuildError where
  | enter (e : EnterError)
  | tool (e : ToolStep.RunError)
  deriving Repr

def BuildError.message : BuildError → String
  | enter e => e.message
  | tool e => e.message

/-- The outcome of a build that came to its end. -/
structure BuildReport where
  buildDir : Path
  stages : List StageRecord
  deriving DecidableEq, Repr

def BuildReport.allOk (r : BuildReport) : Bool := PinnedBuild.allOk r.stages

/-- What the log says about a digest. -/
def Digest.Verdict.line? (c : Config) (archive : Path) : Digest.Verdict → Option LogLine
  | .notRecorded => none
  | .matched => some ⟨.info, .driver, "archive sha256 matches recorded digest"⟩
  | .differs actual =>
    some ⟨.warn, .driver, "archive sha256 " ++ actual ++ " differs from recorded "
      ++ c.expectedSha256.getD ""⟩
  | .unreadable m => some ⟨.warn, .driver, "could not hash " ++ archive.display ++ ": " ++ m⟩

namespace BuildPlan

/-- Tells in the log how the digest of an archive compares with the recorded one. -/
def tellDigest {ε : Type} (c : Config) (archive : Path) : Act ε Unit := do
  match (Digest.check c (← get).files archive).line? c archive with
  | some line => modify (World.say line)
  | none => pure ()

/-- Downloads the archive. Its digest is told and otherwise ignored. -/
def download (p : BuildPlan) (site : Site) : Act DownloadError Nat := do
  let bytes ← Act.withError (DownloadError.mk p.archiveUrl)
    (Download.fetch site.network p.archiveUrl p.archivePath site.options)
  Act.say .info .driver
    ("downloaded " ++ p.archivePath.display ++ " (" ++ toString bytes ++ " bytes)")
  tellDigest p.config p.archivePath
  return bytes

/-- Extracts the archive where it was downloaded to. -/
def extract (p : BuildPlan) : Act Archive.ExtractError (List Name) :=
  Archive.extract p.archivePath p.workDir

/-- Attempts a stage. A failure is told and put on record. -/
def attempt {ε δ α : Type} (stage : Stage) (message : ε → String) (a : Act ε α) :
    Act δ StageRecord := do
  match ← Act.outcome a with
  | .ok _ => return ⟨stage, .ok⟩
  | .error e =>
    Act.say .warn .driver (stage.name ++ " failed, continuing: " ++ message e)
    return ⟨stage, .failed (message e)⟩

def run (p : BuildPlan) (site : Site) : Act BuildError BuildReport := do
  let downloaded ← attempt .download DownloadError.message (p.download site)
  let extracted ← attempt .extract Archive.ExtractError.message p.extract
  let buildDir ← Act.withError .enter p.enter
  let tools ← Act.withError .tool (runTools site.shop p.config site.toolDir buildDir)
  return ⟨buildDir, downloaded :: extracted :: tools⟩

end BuildPlan

end PinnedBuild
