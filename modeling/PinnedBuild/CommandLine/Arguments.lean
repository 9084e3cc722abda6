import PinnedBuild.Path

/-!
Reading the command line.

Arguments are bytes. Options may stand before and after the subcommand's name. An option's value is
attached with an equals sign or is the next argument; a value that is an argument of its own is
taken up when the next option or the end comes.
-/

namespace PinnedBuild.CommandLine

/-- A subcommand with what was given for it. -/
inductive Command where
  | checksum (path : Path)
  | url (commit : Option String)
  | build (workDir : Option Path) (commit : Option String) (jobs : Option UInt32) (noSudo : Bool)
  deriving DecidableEq, Repr

structure Invocation where
  config : Option Path
  command : Command
  deriving DecidableEq, Repr

/-- What help is about. -/
inductive Topic where
  | program
  | checksum
  | url
  | build
  | help
  deriving DecidableEq, Repr

/-- Why nothing is run. -/
inductive Refusal where
  | help (topic : Topic)
  | invalidSubcommand
  | unknownArgument
  | invalidValue
  | badNumber
  | invalidUtf8
  | repeated
  | missingSubcommand
  | nothingGiven
  | tooManyValues
  deriving DecidableEq, Repr

/-- Only a request for help is no error. -/
def Refusal.exitStatus : Refusal → Nat
  | .help _ => 0
  | _ => 2

/-- What is wrong with the command line. -/
def Refusal.message : Refusal → String
  | .help _ => "help was asked for"
  | .invalidSubcommand => "there is no such subcommand"
  | .unknownArgument => "an argument is not expected here"
  | .invalidValue => "an option or argument lacks its value"
  | .badNumber => "a value is not a number in range"
  | .invalidUtf8 => "a value is not text in UTF-8"
  | .repeated => "an option is given more than once"
  | .missingSubcommand => "a subcommand is required"
  | .nothingGiven => "a subcommand is required but nothing was given"
  | .tooManyValues => "an option is given a value that it does not take"

/-- The options, of all commands, and the path of the checksum, which is given without a name. -/
inductive Flag where
  | config
  | commit
  | workDir
  | jobs
  | noSudo
  | path
  deriving DecidableEq, Repr

namespace Flag

def name : Flag → String
  | config => "config"
  | commit => "commit"
  | workDir => "work-dir"
  | jobs => "jobs"
  | noSudo => "no-sudo"
  | path => "path"

def takesValue : Flag → Bool
  | noSudo => false
  | _ => true

end Flag

inductive Verb where
  | checksum
  | url
  | build
  deriving DecidableEq, Repr

namespace Verb

def name : Verb → String
  | checksum => "checksum"
  | url => "url"
  | build => "build"

def ofName? (arg : Bytes) : Option Verb :=
  [checksum, url, build].find? fun v => Bytes.ofString v.name == arg

def topic : Verb → Topic
  | checksum => .checksum
  | url => .url
  | build => .build

end Verb

/-- Where options are read: before the subcommand, or among those of one. -/
inductive Level where
  | top
  | verb (v : Verb)
  deriving DecidableEq, Repr

namespace Level

def flags : Level → List Flag
  | .top | .verb .checksum => [.config]
  | .verb .url => [.config, .commit]
  | .verb .build => [.config, .workDir, .commit, .jobs, .noSudo]

def flag? (l : Level) (name : Bytes) : Option Flag :=
  l.flags.find? fun f => Bytes.ofString f.name == name

def topic : Level → Topic
  | .top => .program
  | .verb v => v.topic

end Level

/-- What has been read on one level. -/
structure Given where
  config : Option Path := none
  commit : Option String := none
  workDir : Option Path := none
  jobs : Option UInt32 := none
  noSudo : Bool := false
  path : Option Path := none
  deriving DecidableEq, Repr

def isDigits (cs : List Char) : Bool := !cs.isEmpty && cs.all Char.isDigit

def digitsValue (cs : List Char) : Nat := cs.foldl (fun n c => n * 10 + (c.toNat - 48)) 0

/-- A job count: decimal digits, perhaps with a sign, of a number of 32 bits. -/
def jobs? (s : String) : Option UInt32 :=
  let (negative, ds) := match s.toList with
    | '-' :: ds => (true, ds)
    | '+' :: ds => (false, ds)
    | ds => (false, ds)
  if isDigits ds then
    let n := digitsValue ds
    if n = 0 ∨ (negative = false ∧ n < UInt32.size) then some (UInt32.ofNat n) else none
  else none

namespace Given

def has (g : Given) : Flag → Bool
  | .config => g.config.isSome
  | .commit => g.commit.isSome
  | .workDir => g.workDir.isSome
  | .jobs => g.jobs.isSome
  | .noSudo => g.noSudo
  | .path => g.path.isSome

/-- Takes up an option with its value. A path is never empty, and what is no path is text. -/
def set (g : Given) (f : Flag) (v : Bytes) : Except Refusal Given :=
  if g.has f then .error .repeated
  else match f with
    | .config => if v.isEmpty then .error .invalidValue else .ok { g with config := some v }
    | .workDir => if v.isEmpty then .error .invalidValue else .ok { g with workDir := some v }
    | .commit => match Bytes.decode? v with
      | some s => .ok { g with commit := some s }
      | none => .error .invalidUtf8
    | .jobs => match (Bytes.decode? v).map jobs? with
      | some (some n) => .ok { g with jobs := some n }
      | some none => .error .badNumber
      | none => .error .invalidUtf8
    | .noSudo => .ok { g with noSudo := true }
    | .path => if v.isEmpty then .error .invalidValue else .ok { g with path := some v }

end Given

/-- An option that waits for its value. -/
abbrev Pending := Option (Flag × Option Bytes)

/-- Takes up the option that waits. -/
def settle (g : Given) : Pending → Except Refusal Given
  | none => .ok g
  | some (_, none) => .error .invalidValue
  | some (f, some v) => g.set f v

/-- An argument, told apart by how it begins. -/
inductive Shape where
  | doubleDash
  | long (name : Bytes) (value : Option Bytes)
  | short (first : UInt8)
  | plain
  deriving DecidableEq, Repr

def dash : UInt8 := 45

def equals : UInt8 := 61

def shapeOf (arg : Bytes) : Shape :=
  match arg with
  | a :: b :: rest =>
    if a ≠ dash then .plain
    else if b ≠ dash then .short b
    else if rest.isEmpty then .doubleDash
    else
      let name := rest.takeWhile (· ≠ equals)
      .long name (rest.drop name.length).tail?
  | _ => .plain

/-- The state of reading on one level. -/
structure Reading where
  given : Given := {}
  pending : Pending := none
  /-- The next argument may be the value of the option that waits. -/
  wantsValue : Bool := false
  /-- After a double dash no argument is an option. -/
  trailing : Bool := false
  deriving Repr

/-- Reads an option. -/
def readFlag (l : Level) (r : Reading) (name : Bytes) (value : Option Bytes) :
    Except Refusal Reading :=
  match l.flag? name with
  | none =>
    if name = .ofString "help" then
      if value.isSome then .error .tooManyValues
      else do
        let _ ← settle r.given r.pending
        .error (.help l.topic)
    else .error .unknownArgument
  | some f =>
    match f.takesValue, value with
    | true, some v => do
      let g ← settle r.given r.pending
      return { r with given := ← g.set f v, pending := none, wantsValue := false }
    | true, none => do
      let g ← settle r.given r.pending
      return { r with given := g, pending := some (f, none), wantsValue := true }
    | false, some _ => .error .tooManyValues
    | false, none => do
      let g ← settle r.given r.pending
      return { r with given := ← g.set f [], pending := none, wantsValue := false }

/-- A path was read before. -/
def Reading.hasPath (r : Reading) : Bool :=
  r.given.has .path || (r.pending.map Prod.fst) == some .path

/-- Reads an argument that is no option and no value: a path for the checksum. -/
def readPlain (l : Level) (r : Reading) (arg : Bytes) : Except Refusal Reading :=
  match l with
  | .verb .checksum =>
    if r.hasPath then .error .unknownArgument
    else do
      let g ← settle r.given r.pending
      return { r with given := g, pending := some (.path, some arg), wantsValue := false }
  | .verb _ => .error .unknownArgument
  | .top =>
    if r.trailing ∧ ((Verb.ofName? arg).isSome ∨ arg = .ofString "help") then
      .error .unknownArgument
    else .error .invalidSubcommand

def helpLetter : UInt8 := 104

/-- Reads one argument. -/
def readArg (l : Level) (r : Reading) (arg : Bytes) : Except Refusal Reading :=
  if r.trailing then readPlain l r arg
  else match shapeOf arg with
    | .doubleDash => .ok { r with trailing := true, wantsValue := false }
    | .long name value => readFlag l r name value
    | .short first =>
      if first = helpLetter then do
        let _ ← settle r.given r.pending
        .error (.help l.topic)
      else .error .unknownArgument
    | .plain =>
      match r.wantsValue, r.pending with
      | true, some (f, _) => .ok { r with pending := some (f, some arg), wantsValue := false }
      | _, _ => readPlain l r arg

/-- Reads all arguments on a level. -/
def readAll (l : Level) (r : Reading) (args : List Bytes) : Except Refusal Given := do
  let r ← args.foldlM (readArg l) r
  settle r.given r.pending

/-- Help on a subcommand, none of which has others. -/
def helpOn : List Bytes → Refusal
  | [] => .help .program
  | [name] =>
    match Verb.ofName? name with
    | some v => .help v.topic
    | none => if name = .ofString "help" then .help .help else .invalidSubcommand
  | _ :: _ :: _ => .invalidSubcommand

/-- The path that is hashed when none is given. -/
def defaultChecksumPath : Path := .ofString "llvm.zip"

def commandOf (v : Verb) (g : Given) : Command :=
  match v with
  | .checksum => .checksum (g.path.getD defaultChecksumPath)
  | .url => .url g.commit
  | .build => .build g.workDir g.commit g.jobs g.noSudo

/-- Reads up to the name of a subcommand, and the rest for it. The options of the subcommand are
complete before one that waits from in front of it is taken up. -/
def readTop (r : Reading) : List Bytes → Except Refusal Invocation
  | [] => do
    let g ← settle r.given r.pending
    .error (if g.config.isSome then .missingSubcommand else .nothingGiven)
  | arg :: args =>
    if r.trailing ∨ r.wantsValue then do readTop (← readArg .top r arg) args
    else if arg = .ofString "help" then .error (helpOn args)
    else match Verb.ofName? arg with
      | some v => do
        let g ← readAll (.verb v) {} args
        let outer ← settle r.given r.pending
        return ⟨g.config.or outer.config, commandOf v g⟩
      | none => do readTop (← readArg .top r arg) args

def parse (args : List Bytes) : Except Refusal Invocation := readTop {} args

end PinnedBuild.CommandLine
