import PinnedBuild.Log

/-!
Which lines a log keeps: a list of directives, of which for each speaker one decides.
-/

namespace PinnedBuild

/-- Lines up to a rank are kept, of the speakers whose names begin with the target or, without a
target, of all. One that asks for a span keeps nothing, since nothing is said in spans. -/
structure Directive where
  target : Option String := none
  inSpan : Bool := false
  rank : Nat
  deriving DecidableEq, Repr

namespace Directive

def isAbout (d : Directive) (s : Speaker) : Bool :=
  !d.inSpan && (d.target.getD "").toList.isPrefixOf s.name.toList

/-- The longer its target, the more a directive counts. -/
def weight (d : Directive) : Nat := (d.target.getD "").length

/-- The rank that a text of a filter means by a word or a digit. -/
def rank? (word : List Char) : Option Nat :=
  match String.ofList (word.map Char.toLower) with
  | "off" | "0" => some 0
  | "error" | "1" => some 1
  | "warn" | "2" => some 2
  | "info" | "3" => some 3
  | "debug" | "4" => some 4
  | "trace" | "5" => some 5
  | _ => none

def isTargetChar (c : Char) : Bool := c.isAlphanum || c == '_' || c == ':' || c == '-'

/-- What stands after a span in brackets, if one is closed. -/
def afterSpan? (cs : List Char) : Option (List Char) :=
  match cs.dropWhile (· ≠ ']') with
  | ']' :: rest => some rest
  | _ => none

/-- The rank at the end of a directive. All is kept if none is named. -/
def ending? : List Char → Option Nat
  | [] | ['='] => some 5
  | '=' :: word => rank? word
  | _ => none

/-- Reads a rank alone, or a target, a span or both, perhaps with a rank after an equals sign. -/
def read? (cs : List Char) : Option Directive :=
  match rank? cs with
  | some r => some { rank := r }
  | none =>
    let (name, rest) := cs.span isTargetChar
    let target := if name.isEmpty then none else some (String.ofList name)
    match rest with
    | '[' :: rest => do
      return { target := target, inSpan := true, rank := ← ending? (← afterSpan? rest) }
    | _ =>
      if name.isEmpty then none
      else (ending? rest).map fun r => { target := target, rank := r }

end Directive

abbrev LogFilter := List Directive

namespace LogFilter

/-- What is kept unless something else is asked for. -/
def standard : LogFilter := [{ rank := 3 }, { target := some "llvm_prep_core", rank := 4 }]

/-- Of the directives about a speaker the one with the longest target decides, and of several such
the last. -/
def deciding? (f : LogFilter) (s : Speaker) : Option Directive :=
  (f.filter fun d => d.isAbout s).foldl (fun best d =>
    if best.any fun b => d.weight < b.weight then best else some d) none

/-- Keeps what a speaker says at a level. -/
def admits (f : LogFilter) (s : Speaker) (l : Level) : Bool :=
  (f.deciding? s).any fun d => l.rank ≤ d.rank

def keeps (f : LogFilter) (line : LogLine) : Bool := f.admits line.speaker line.level

/-- The pieces between commas, empty ones included. -/
def pieces : List Char → List (List Char)
  | [] => [[]]
  | c :: rest =>
    if c = ',' then [] :: pieces rest
    else match pieces rest with
      | first :: more => (c :: first) :: more
      | [] => [[c]]

/-- Reads directives with commas between them. Without any, errors are kept. -/
def read? (text : String) : Option LogFilter :=
  match (pieces text.toList).filter fun piece => !piece.isEmpty with
  | [] => some [{ rank := 1 }]
  | ps => ps.mapM Directive.read?

end LogFilter

end PinnedBuild
