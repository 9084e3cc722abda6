/-!
Why an operation on files fails, with the number and the words that the system gives.
-/

namespace PinnedBuild.Files

inductive FileError where
  | notPermitted
  | notFound
  | noExec
  | accessDenied
  | exists
  | notDirectory
  | isDirectory
  | noSpace
  | nameTooLong
  | tooManyLinks
  /-- No name holds a zero byte, so the system is not even asked. -/
  | zeroByte
  deriving DecidableEq, Repr

namespace FileError

/-- The number of the error and its words. -/
def numbered : FileError → Option (Nat × String)
  | notPermitted => some (1, "Operation not permitted")
  | notFound => some (2, "No such file or directory")
  | noExec => some (8, "Exec format error")
  | accessDenied => some (13, "Permission denied")
  | .exists => some (17, "File exists")
  | notDirectory => some (20, "Not a directory")
  | isDirectory => some (21, "Is a directory")
  | noSpace => some (28, "No space left on device")
  | nameTooLong => some (36, "File name too long")
  | tooManyLinks => some (40, "Too many levels of symbolic links")
  | zeroByte => none

def message (e : FileError) : String :=
  match e.numbered with
  | some (n, words) => words ++ " (os error " ++ toString n ++ ")"
  | none => "file name contained an unexpected NUL byte"

end FileError

end PinnedBuild.Files
