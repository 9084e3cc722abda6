import PinnedBuild.Tool.Spawn
import PinnedBuild.Build.Plan

/-!
Entering the source tree and running the tools in it.
-/

namespace PinnedBuild

open Files

inductive EnterError where
  | noSource (dir : Path)
  | cannotCreate (dir : Path) (e : FileError)
  deriving DecidableEq, Repr

def EnterError.message : EnterError → String
  | noSource dir => "source directory " ++ dir.display ++ " not found"
  | cannotCreate dir e => "create build directory " ++ dir.display ++ ": " ++ e.message

namespace BuildPlan

/-- Makes the build directory in the source tree. It must not be there yet. -/
def enter (p : BuildPlan) : Act EnterError Path := do
  if (← get).files.isDirectory p.sourceDir then
    Act.op (.cannotCreate p.buildDir) (FileOp.makeDirectory p.buildDir)
    Act.say .info .driver ("created " ++ p.buildDir.display)
    return p.buildDir
  else Act.fail (.noSource p.sourceDir)

/-- A step as it is run: from the tool directory if it has the tool. -/
def located (toolDir : Option Path) (s : ToolStep) : Act ToolStep.RunError ToolStep := do
  match toolDir with
  | some dir => return s.searchAt (← get).files dir
  | none => return s

/-- Runs one step. A tool that ends badly is told in the log and in the record. -/
def runTool (shop : Workshop) (toolDir : Option Path) (buildDir : Path) (step : Stage × ToolStep) :
    Act ToolStep.RunError StageRecord := do
  let s ← located toolDir step.2
  let ended ← s.runIn shop buildDir
  if ended.isSuccess then return ⟨step.1, .ok⟩
  else
    Act.say .warn .driver
      (step.1.name ++ " step `" ++ s.display ++ "` exited with " ++ ended.display)
    return ⟨step.1, .exited ended.code?⟩

/-- Runs the tools in order. Only one that cannot be started stops the others. -/
def runTools (shop : Workshop) (c : Config) (toolDir : Option Path) (buildDir : Path) :
    Act ToolStep.RunError (List StageRecord) :=
  (toolSteps c).mapM (runTool shop toolDir buildDir)

end BuildPlan

end PinnedBuild
