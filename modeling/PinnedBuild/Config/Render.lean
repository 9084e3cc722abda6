import PinnedBuild.Config
import PinnedBuild.Toml.Writer

/-!
A configuration as the text of a document: the plain keys, then the configure options under a
header of their own.
-/

namespace PinnedBuild.Config

open PinnedBuild.Toml

def renderCmake (c : CmakeConfig) : List Char :=
  Writer.entry "generator" (Writer.string c.generator.toList)
  ++ Writer.entry "build_type" (Writer.string c.buildType.toList)
  ++ Writer.entry "export_compile_commands" (Writer.boolean c.exportCompileCommands)
  ++ Writer.entry "targets" (Writer.strings c.targets)
  ++ Writer.entry "include_tests" (Writer.boolean c.includeTests)
  ++ Writer.entry "assertions" (Writer.boolean c.assertions)
  ++ Writer.entry "projects" (Writer.strings c.projects)

/-- A digest that is not recorded is left out. -/
def render (c : Config) : String :=
  String.ofList <|
    Writer.entry "commit" (Writer.string c.commit.toList)
    ++ Writer.entry "archive_name" (Writer.string c.archiveName.toList)
    ++ (match c.expectedSha256 with
        | some d => Writer.entry "expected_sha256" (Writer.string d.toList)
        | none => [])
    ++ Writer.entry "build_dir" (Writer.string c.buildDir.toList)
    ++ Writer.entry "build_jobs" (Nat.toDigits 10 c.buildJobs.toNat)
    ++ Writer.entry "install_with_sudo" (Writer.boolean c.installWithSudo)
    ++ "\n[cmake]\n".toList
    ++ renderCmake c.cmake

end PinnedBuild.Config
