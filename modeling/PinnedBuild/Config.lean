import PinnedBuild.Snapshot

/-!
What is configured: the snapshot, the names of files and directories, and the build itself.
-/

namespace PinnedBuild

/-- Options of the configure step. -/
structure CmakeConfig where
  generator : String := "Ninja"
  buildType : String := "Release"
  exportCompileCommands : Bool := true
  targets : List String := ["X86"]
  includeTests : Bool := true
  assertions : Bool := true
  projects : List String := []
  deriving DecidableEq, Repr

structure Config where
  commit : String := Snapshot.defaultCommit
  archiveName : String := "llvm.tar.gz"
  /-- The digest recorded for the archive of `commit`. -/
  expectedSha256 : Option String := some Snapshot.defaultArchiveSha256
  /-- The directory made inside the source tree. -/
  buildDir : String := "build"
  buildJobs : UInt32 := 3
  installWithSudo : Bool := true
  cmake : CmakeConfig := {}
  deriving DecidableEq, Repr

namespace Config

def archiveUrl (c : Config) : String := Snapshot.archiveUrl c.commit

def sourceDirName (c : Config) : String := Snapshot.sourceDirName c.commit

end Config

/-- Values given for one build that win over the configured ones. -/
structure BuildOverrides where
  commit : Option String := none
  jobs : Option UInt32 := none
  noSudo : Bool := false
  deriving DecidableEq, Repr

/-- The recorded digest belongs to the configured commit and is dropped with it. -/
def BuildOverrides.apply (o : BuildOverrides) (c : Config) : Config :=
  { c with
    commit := o.commit.getD c.commit
    expectedSha256 := match o.commit with
      | some commit => if commit = c.commit then c.expectedSha256 else none
      | none => c.expectedSha256
    buildJobs := o.jobs.getD c.buildJobs
    installWithSudo := c.installWithSudo && !o.noSudo }

end PinnedBuild
