import PinnedBuild.CommandLine.Arguments

/-!
What the program says about itself when asked.
-/

namespace PinnedBuild.CommandLine

/-- Text in two columns: what is given, and what it means. A meaning of several lines is set under
its first. -/
def row (width : Nat) (left : String) (meaning : List String) : String :=
  let room := String.ofList (List.replicate (width - left.length) ' ')
  let margin := String.ofList (List.replicate width ' ')
  left ++ room ++ ("\n" ++ margin).intercalate meaning

def lines (ls : List String) : String := "\n".intercalate ls

def configLeft : String := "      --config <FILE>"

def configMeaning : String :=
  "Read configuration from this file instead of ~/.config/llvm-prep/config.toml"

/-- The same where the column is too narrow for one line. -/
def configWrapped : List String :=
  ["Read configuration from this file instead of", "~/.config/llvm-prep/config.toml"]

def helpLeft : String := "  -h, --help"

def helpText : Topic → String
  | .program => lines
    ["llvm-prep: fetch, checksum and build a pinned LLVM snapshot",
     "",
     "Usage: llvm-prep [OPTIONS] <COMMAND>",
     "",
     "Commands:",
     row 12 "  checksum" ["Print the SHA-256 of a file"],
     row 12 "  url" ["Print the source archive URL for the configured commit"],
     row 12 "  build" ["Download, extract, configure, build and install LLVM"],
     row 12 "  help" ["Print this message or the help of the given subcommand(s)"],
     "",
     "Options:",
     row 23 configLeft [configMeaning],
     row 23 helpLeft ["Print help"]]
  | .checksum => lines
    ["Print the SHA-256 of a file",
     "",
     "Usage: llvm-prep checksum [OPTIONS] [PATH]",
     "",
     "Arguments:",
     "  [PATH]  File to hash [default: llvm.zip]",
     "",
     "Options:",
     row 23 configLeft [configMeaning],
     row 23 helpLeft ["Print help"]]
  | .url => lines
    ["Print the source archive URL for the configured commit",
     "",
     "Usage: llvm-prep url [OPTIONS]",
     "",
     "Options:",
     row 25 "      --commit <COMMIT>" ["Commit to use instead of the configured one"],
     row 25 configLeft configWrapped,
     row 25 helpLeft ["Print help"]]
  | .build => lines
    ["Download, extract, configure, build and install LLVM",
     "",
     "Usage: llvm-prep build [OPTIONS]",
     "",
     "Options:",
     row 25 configLeft configWrapped,
     row 25 "      --work-dir <DIR>"
       ["Directory the archive is downloaded and extracted into (default: current",
        "dir)"],
     row 25 "      --commit <COMMIT>" ["Commit to fetch instead of the configured one"],
     row 25 "      --jobs <N>" ["Parallel ninja jobs"],
     row 25 "      --no-sudo" ["Run `ninja install` without sudo"],
     row 25 helpLeft ["Print help"]]
  | .help => lines
    ["Print this message or the help of the given subcommand(s)",
     "",
     "Usage: llvm-prep help [COMMAND]...",
     "",
     "Arguments:",
     "  [COMMAND]...  Print help for the subcommand(s)"]

end PinnedBuild.CommandLine
