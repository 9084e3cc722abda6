/-!
The stages of a build and what became of each.
-/

namespace PinnedBuild

inductive Stage where
  | download
  | extract
  | configure
  | build
  | install
  deriving DecidableEq, Repr

def Stage.name : Stage → String
  | .download => "download"
  | .extract => "extract"
  | .configure => "configure"
  | .build => "build"
  | .install => "install"

inductive StageStatus where
  | ok
  /-- The tool ended with a status other than zero, or without one when a signal ended it. -/
  | exited (code : Option Int)
  /-- The stage has no result; the message tells why. -/
  | failed (message : String)
  deriving DecidableEq, Repr

def StageStatus.isOk : StageStatus → Bool
  | .ok => true
  | _ => false

structure StageRecord where
  stage : Stage
  status : StageStatus
  deriving DecidableEq, Repr

/-- Every stage ended well. -/
def allOk (records : List StageRecord) : Bool := records.all fun r => r.status.isOk

end PinnedBuild
