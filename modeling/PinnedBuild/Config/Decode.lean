import PinnedBuild.Config
import PinnedBuild.Text.Quoted
import PinnedBuild.Toml.Document

/-!
Reading a configuration off a document.

Known keys are decoded in the order of the document and the first problem ends it; only then are
missing keys looked for, in the order in which they are declared. Unknown keys are passed over.
-/

namespace PinnedBuild.Config

open PinnedBuild.Toml

/-- What a key should hold. -/
inductive Wanted where
  | string
  | boolean
  | u32
  | sequence
  | cmake
  deriving DecidableEq, Repr

inductive DataError where
  | wrongType (found : Value) (wanted : Wanted)
  | outOfRange (n : Int)
  | missing (field : String)
  | tooShort (length : Nat)
  deriving Repr

def Wanted.message : Wanted → String
  | .string => "a string"
  | .boolean => "a boolean"
  | .u32 => "u32"
  | .sequence => "a sequence"
  | .cmake => "struct CmakeConfig"

/-- How a value that does not fit is named. -/
def describe : Value → String
  | .string s => "string " ++ Text.quoted s
  | .integer n => "integer `" ++ toString n ++ "`"
  | .float x => "floating point `" ++ x.toText ++ "`"
  | .boolean b => "boolean `" ++ toString b ++ "`"
  | .array _ _ => "sequence"
  | .datetime _ | .table _ _ => "map"

def DataError.message : DataError → String
  | .wrongType found wanted => "invalid type: " ++ describe found ++ ", expected " ++ wanted.message
  | .outOfRange n => "invalid value: integer `" ++ toString n ++ "`, expected u32"
  | .missing field => "missing field `" ++ field ++ "`"
  | .tooShort n =>
    "invalid length " ++ toString n ++ ", expected struct CmakeConfig with 7 elements"

abbrev Decoder (α : Type) := Value → Except DataError α

def decodeString : Decoder String
  | .string s => .ok s
  | v => .error (.wrongType v .string)

def decodeBool : Decoder Bool
  | .boolean b => .ok b
  | v => .error (.wrongType v .boolean)

def decodeU32 : Decoder UInt32
  | .integer n =>
    if 0 ≤ n ∧ n < UInt32.size then .ok (UInt32.ofNat n.toNat) else .error (.outOfRange n)
  | v => .error (.wrongType v .u32)

def decodeStrings : Decoder (List String)
  | .array _ vs => vs.mapM decodeString
  | v => .error (.wrongType v .sequence)

/-- Decodes each known key of a table in turn; `known` says what to do with it. -/
def decodeEntries {σ : Type} (known : String → Option (σ → Value → Except DataError σ)) (start : σ)
    (es : Entries) : Except DataError σ :=
  es.foldlM (fun s (key, v) => match known key with
    | some f => f s v
    | none => .ok s) start

def required {α : Type} (field : String) : Option α → Except DataError α
  | some x => .ok x
  | none => .error (.missing field)

/-! ### The configure options -/

/-- The options found so far. -/
structure CmakeDraft where
  generator : Option String := none
  buildType : Option String := none
  exportCompileCommands : Option Bool := none
  targets : Option (List String) := none
  includeTests : Option Bool := none
  assertions : Option Bool := none
  projects : Option (List String) := none

namespace CmakeDraft

def known : String → Option (CmakeDraft → Value → Except DataError CmakeDraft)
  | "generator" => some fun d v => (decodeString v).map fun x => { d with generator := some x }
  | "build_type" => some fun d v => (decodeString v).map fun x => { d with buildType := some x }
  | "export_compile_commands" => some fun d v =>
    (decodeBool v).map fun x => { d with exportCompileCommands := some x }
  | "targets" => some fun d v => (decodeStrings v).map fun x => { d with targets := some x }
  | "include_tests" => some fun d v => (decodeBool v).map fun x => { d with includeTests := some x }
  | "assertions" => some fun d v => (decodeBool v).map fun x => { d with assertions := some x }
  | "projects" => some fun d v => (decodeStrings v).map fun x => { d with projects := some x }
  | _ => none

def complete (d : CmakeDraft) : Except DataError CmakeConfig := do
  let generator ← required "generator" d.generator
  let buildType ← required "build_type" d.buildType
  let exportCompileCommands ← required "export_compile_commands" d.exportCompileCommands
  let targets ← required "targets" d.targets
  let includeTests ← required "include_tests" d.includeTests
  let assertions ← required "assertions" d.assertions
  return ⟨generator, buildType, exportCompileCommands, targets, includeTests, assertions,
    d.projects.getD []⟩

end CmakeDraft

/-- The options in the order of their declaration. Elements after them are passed over. -/
def decodePositions : List Value → Except DataError CmakeConfig
  | generator :: vs => do
    let generator ← decodeString generator
    let buildType :: vs := vs | .error (.tooShort 1)
    let buildType ← decodeString buildType
    let exportCompileCommands :: vs := vs | .error (.tooShort 2)
    let exportCompileCommands ← decodeBool exportCompileCommands
    let targets :: vs := vs | .error (.tooShort 3)
    let targets ← decodeStrings targets
    let includeTests :: vs := vs | .error (.tooShort 4)
    let includeTests ← decodeBool includeTests
    let assertions :: vs := vs | .error (.tooShort 5)
    let assertions ← decodeBool assertions
    let projects ← match vs with
      | [] => .ok []
      | projects :: _ => decodeStrings projects
    return ⟨generator, buildType, exportCompileCommands, targets, includeTests, assertions,
      projects⟩
  | [] => .error (.tooShort 0)

/-- A date is a table of none of the known keys. -/
def decodeCmake : Decoder CmakeConfig
  | .table _ es => (decodeEntries CmakeDraft.known {} es).bind CmakeDraft.complete
  | .array _ vs => decodePositions vs
  | .datetime _ => CmakeDraft.complete {}
  | v => .error (.wrongType v .cmake)

/-! ### The whole configuration -/

structure Draft where
  commit : Option String := none
  archiveName : Option String := none
  expectedSha256 : Option String := none
  buildDir : Option String := none
  buildJobs : Option UInt32 := none
  installWithSudo : Option Bool := none
  cmake : Option CmakeConfig := none

namespace Draft

def known : String → Option (Draft → Value → Except DataError Draft)
  | "commit" => some fun d v => (decodeString v).map fun x => { d with commit := some x }
  | "archive_name" => some fun d v => (decodeString v).map fun x => { d with archiveName := some x }
  | "expected_sha256" => some fun d v =>
    (decodeString v).map fun x => { d with expectedSha256 := some x }
  | "build_dir" => some fun d v => (decodeString v).map fun x => { d with buildDir := some x }
  | "build_jobs" => some fun d v => (decodeU32 v).map fun x => { d with buildJobs := some x }
  | "install_with_sudo" => some fun d v =>
    (decodeBool v).map fun x => { d with installWithSudo := some x }
  | "cmake" => some fun d v => (decodeCmake v).map fun x => { d with cmake := some x }
  | _ => none

/-- A digest left out is none at all; the configure options have a default as a whole. -/
def complete (d : Draft) : Except DataError Config := do
  let commit ← required "commit" d.commit
  let archiveName ← required "archive_name" d.archiveName
  let buildDir ← required "build_dir" d.buildDir
  let buildJobs ← required "build_jobs" d.buildJobs
  let installWithSudo ← required "install_with_sudo" d.installWithSudo
  return ⟨commit, archiveName, d.expectedSha256, buildDir, buildJobs, installWithSudo,
    d.cmake.getD {}⟩

end Draft

def decode (es : Entries) : Except DataError Config :=
  (decodeEntries Draft.known {} es).bind Draft.complete

/-- Why a text is no configuration. -/
inductive ParseError where
  | noDocument
  | data (e : DataError)
  deriving Repr

def parse (s : String) : Except ParseError Config :=
  match document? s with
  | none => .error .noDocument
  | some es => (decode es).mapError .data

end PinnedBuild.Config
