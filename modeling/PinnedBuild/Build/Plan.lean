import PinnedBuild.Path
import PinnedBuild.Tool.Step
import PinnedBuild.Build.Stage

/-!
What a build will do: where it downloads from, where things are put and which commands it runs.
-/

namespace PinnedBuild

structure BuildPlan where
  config : Config
  workDir : Path
  archiveUrl : String

namespace BuildPlan

def ofConfig (config : Config) (workDir : Path) : BuildPlan :=
  ⟨config, workDir, config.archiveUrl⟩

def archivePath (p : BuildPlan) : Path := p.workDir.join (.ofString p.config.archiveName)

def sourceDir (p : BuildPlan) : Path := p.workDir.join (.ofString p.config.sourceDirName)

def buildDir (p : BuildPlan) : Path := p.sourceDir.join (.ofString p.config.buildDir)

/-- The commands in the order in which they run. -/
def toolSteps (c : Config) : List (Stage × ToolStep) :=
  [(.configure, .configure c.cmake),
   (.build, .build c.buildJobs),
   (.install, .install c.installWithSudo)]

end BuildPlan

end PinnedBuild
