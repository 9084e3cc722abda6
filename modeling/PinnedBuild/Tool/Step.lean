import PinnedBuild.Config

/-!
The commands that a build runs: configure, build and install.
-/

namespace PinnedBuild

/-- One command with its arguments. -/
structure ToolStep where
  program : String
  args : List String
  deriving DecidableEq, Repr

namespace ToolStep

/-- The command as it is shown: program and arguments with a space between each two. -/
def display (s : ToolStep) : String := " ".intercalate (s.program :: s.args)

/-- Where the configure step finds its sources, seen from the build directory. -/
def sourceRelative : String := "../llvm"

def onOff (b : Bool) : String := if b then "ON" else "OFF"

/-- The projects are left out when there are none. -/
def configure (c : CmakeConfig) : ToolStep where
  program := "cmake"
  args :=
    ["-S", sourceRelative, "-G", c.generator]
    ++ (if c.projects.isEmpty then []
        else ["-DLLVM_ENABLE_PROJECTS=" ++ ";".intercalate c.projects])
    ++ ["-DCMAKE_BUILD_TYPE=" ++ c.buildType,
        "-DCMAKE_EXPORT_COMPILE_COMMANDS=" ++ onOff c.exportCompileCommands,
        "-DLLVM_TARGETS_TO_BUILD=" ++ ";".intercalate c.targets,
        "-DCLANG_INCLUDE_TESTS=" ++ onOff c.includeTests,
        "-DLLVM_ENABLE_ASSERTIONS=" ++ onOff c.assertions]

def build (jobs : UInt32) : ToolStep := ⟨"ninja", ["-j" ++ toString jobs.toNat]⟩

def install (withSudo : Bool) : ToolStep :=
  if withSudo then ⟨"sudo", ["ninja", "install"]⟩ else ⟨"ninja", ["install"]⟩

end ToolStep

end PinnedBuild
