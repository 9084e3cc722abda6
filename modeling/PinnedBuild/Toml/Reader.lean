import PinnedBuild.Toml.Strings
import PinnedBuild.Toml.Dates
import PinnedBuild.Toml.Table

/-!
Reading TOML keys, values and lines.

Arrays and inline tables nest to a fixed depth; keys have a bounded number of parts.
-/

namespace PinnedBuild.Toml

/-- How deep arrays and inline tables may nest, and how many parts a key may have. -/
def depthLimit : Nat := 79

def isBare (c : Char) : Bool := c.isAlphanum || c = '_' || c = '-'

def keyPart? (s : List Char) : Option (String × List Char) :=
  match s.takeWhile isBare with
  | [] => lineString? s
  | name => some (String.ofList name, s.dropWhile isBare)

/-- The parts of a key, with blanks around each. -/
def keyParts? (s : List Char) : Option (List String × List Char) :=
  match keyPart? (skipBlanks s) with
  | none => none
  | some (part, r) =>
    match skipBlanks r with
    | '.' :: r' =>
      if r'.length < s.length then (keyParts? r').map fun (parts, rest) => (part :: parts, rest)
      else none
    | r' => some ([part], r')
termination_by s.length

/-- A key as the parts on the way and the last one. -/
def key? (s : List Char) : Option (List String × String × List Char) := do
  let (parts, rest) ← keyParts? s
  if parts.length ≤ depthLimit then
    let last ← parts.getLast?
    return (parts.dropLast, last, rest)
  else none

/-- The elements of an array; the opening bracket is already read. A comma may follow the last. -/
def elements? (value? : List Char → Option (Value × List Char)) (s : List Char) :
    Option (List Value × List Char) :=
  match skipLayout s with
  | ']' :: r => some ([], r)
  | s' =>
    match value? s' with
    | none => none
    | some (v, r) =>
      match skipLayout r with
      | ']' :: r' => some ([v], r')
      | ',' :: r' =>
        if r'.length < s.length then
          (elements? value? r').map fun (vs, rest) => (v :: vs, rest)
        else none
      | _ => none
termination_by s.length

/-- A key and its value. -/
def pair? (value? : List Char → Option (Value × List Char)) (s : List Char) :
    Option ((List String × String × Value) × List Char) := do
  let (path, key, r) ← key? s
  let r ← expect '=' r
  let (v, r) ← value? (skipBlanks r)
  return ((path, key, v), skipBlanks r)

/-- The pairs of an inline table that is not empty; no comma may follow the last. -/
def pairs? (value? : List Char → Option (Value × List Char)) (s : List Char) :
    Option (List (List String × String × Value) × List Char) :=
  match pair? value? s with
  | none => none
  | some (p, r) =>
    match r with
    | '\x7d' :: r' => some ([p], r')
    | ',' :: r' =>
      if r'.length < s.length then (pairs? value? r').map fun (ps, rest) => (p :: ps, rest)
      else none
    | _ => none
termination_by s.length

def inlineEntries? (value? : List Char → Option (Value × List Char)) (s : List Char) :
    Option (Entries × List Char) :=
  match skipBlanks s with
  | '\x7d' :: r => some ([], r)
  | _ => do
    let (ps, r) ← pairs? value? s
    let es ← ps.foldlM (fun es (path, key, v) => insertDotted .inline path key v es) []
    return (es, r)

def boolean? (s : List Char) : Option (Bool × List Char) :=
  ((expectAll "true".toList s).map fun r => (true, r)).or
    ((expectAll "false".toList s).map fun r => (false, r))

/-- A value that holds no others. -/
def scalar? (s : List Char) : Option (Value × List Char) :=
  ((string? s).map fun (x, r) => (.string x, r)).or <|
  ((boolean? s).map fun (x, r) => (.boolean x, r)).or <|
  ((datetime? s).map fun (x, r) => (.datetime x, r)).or <|
  ((float? s).map fun (x, r) => (.float x, r)).or <|
  (integer? s).map fun (x, r) => (.integer x, r)

def value? : Nat → List Char → Option (Value × List Char)
  | depth + 1, '[' :: r =>
    (elements? (value? depth) r).map fun (vs, rest) => (.array false vs, rest)
  | depth + 1, '\x7b' :: r =>
    (inlineEntries? (value? depth) r).map fun (es, rest) => (.table .inline es, rest)
  | _, s => scalar? s

/-- What a line says. -/
inductive Line where
  | blank
  | header (path : List String) (key : String)
  | arrayHeader (path : List String) (key : String)
  | assign (path : List String) (key : String) (v : Value)
  deriving Repr

/-- The part of a line before a comment. -/
def lineBody? (s : List Char) : Option (Line × List Char) :=
  match s with
  | '[' :: '[' :: r => do
    let (path, key, r) ← key? r
    let r ← expectAll [']', ']'] r
    return (.arrayHeader path key, r)
  | '[' :: r => do
    let (path, key, r) ← key? r
    let r ← expect ']' r
    return (.header path key, r)
  | '#' :: _ => some (.blank, s)
  | _ =>
    if (lineEnd? s).isSome then some (.blank, s)
    else (pair? (value? depthLimit) s).map fun ((path, key, v), r) => (.assign path key v, r)

def line? (s : List Char) : Option (Line × List Char) := do
  let (line, r) ← lineBody? (skipBlanks s)
  let rest ← lineEnd? (skipComment (skipBlanks r))
  return (line, rest)

def lines? (s : List Char) : Option (List Line) :=
  if s.isEmpty then some []
  else match line? s with
    | none => none
    | some (line, rest) =>
      if rest.length < s.length then (lines? rest).map fun more => line :: more else none
termination_by s.length

end PinnedBuild.Toml
