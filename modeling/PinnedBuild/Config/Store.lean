import PinnedBuild.World
import PinnedBuild.Environment
import PinnedBuild.Config.Decode
import PinnedBuild.Config.Render

/-!
Where the configuration is kept: a file that is read, or written with the defaults when it is
missing.
-/

namespace PinnedBuild.Config

open Files

inductive LoadError where
  | cannotRead (path : Path) (e : FileError)
  | notText (path : Path)
  | noConfig (path : Path) (e : ParseError)
  /-- The default file cannot be made. -/
  | cannotWrite (e : FileError)
  deriving Repr

/-- What precedes the cause when a text is no configuration. -/
def parseContext (path : Path) : String := "parse config " ++ path.display

def LoadError.message : LoadError → String
  | cannotRead path e => "read config " ++ path.display ++ ": " ++ e.message
  | notText path => "read config " ++ path.display ++ ": stream did not contain valid UTF-8"
  | noConfig path .noDocument => parseContext path ++ ": TOML parse error: not a document"
  | noConfig path (.data e) => parseContext path ++ ": TOML parse error: " ++ e.message
  | cannotWrite e => e.message

/-- Reads a configuration from a file, which has to be there. -/
def load (t : FileTree) (path : Path) : Except LoadError Config :=
  match (FileOp.readAll path).run t with
  | .error e => .error (.cannotRead path e)
  | .ok (bytes, _) =>
    match Bytes.decode? bytes with
    | none => .error (.notText path)
    | some s => (parse s).mapError (.noConfig path)

/-- The default configuration file, after making the directory that it goes into. -/
def placeFile (e : Environment) : Act LoadError Path := do
  Act.onFiles .cannotWrite (FileAct.ensureDirectory (e.configDir.join []))
  return e.configFile

/-- Reads the default configuration file. If nothing is there it is made, with the defaults. -/
def loadOrCreate (e : Environment) : Act LoadError Config := do
  let path ← placeFile e
  if (← get).files.isThere path then
    Act.ofExcept (load (← get).files path)
  else
    match path.parent? with
    | some dir => Act.onFiles .cannotWrite (FileAct.ensureDirectory dir)
    | none => pure ()
    Act.onFiles .cannotWrite (FileAct.writeFile path (Bytes.ofString (render {})))
    Act.say .info .config ("created default config at " ++ path.display)
    return {}

end PinnedBuild.Config
