/-!
Addresses of things on the net: a scheme, a host and a target on it.
-/

namespace PinnedBuild.Download

structure Url where
  scheme : String
  /-- The host, and after a colon the number under which it is reached there. -/
  authority : String
  /-- Path and query, beginning with a slash. -/
  target : String
  deriving DecidableEq, Repr

namespace Url

def isSchemeChar (c : Char) : Bool := c.isAlphanum || c = '+' || c = '-' || c = '.'

def lower (cs : List Char) : String := String.ofList (cs.map Char.toLower)

/-- What stands before the first of some characters, and the rest from there on. -/
def cutAt (stops : List Char) (cs : List Char) : List Char × List Char :=
  cs.span fun c => !stops.contains c

def withoutFragment (cs : List Char) : List Char := (cutAt ['#'] cs).1

/-- The scheme before a colon and two slashes, and what stands after them. -/
def scheme? (cs : List Char) : Option (List Char × List Char) :=
  match cs.span isSchemeChar with
  | (s, ':' :: '/' :: '/' :: rest) => if s.isEmpty then none else some (s, rest)
  | _ => none

/-- The last name on a list of names, the last of which comes first, is dropped. -/
def dropLastName : List (List Char) → List (List Char)
  | [] => []
  | _ :: rest => rest

/-- The names of a path with dots resolved, the last first. -/
def resolveDots (done : List (List Char)) : List (List Char) → List (List Char)
  | [] => done
  | [['.']] => [] :: done
  | [['.', '.']] => [] :: dropLastName done
  | name :: rest =>
    if name = ['.'] then resolveDots done rest
    else if name = ['.', '.'] then resolveDots (dropLastName done) rest
    else resolveDots (name :: done) rest

def splitSlashes : List Char → List (List Char)
  | [] => [[]]
  | c :: rest =>
    match splitSlashes rest with
    | first :: more => if c = '/' then [] :: first :: more else (c :: first) :: more
    | [] => [[c]]

/-- The path of a target without dots. -/
def cleanPath (path : List Char) : List Char :=
  match splitSlashes path with
  | [] :: names => '/' :: List.intercalate ['/'] (resolveDots [] names).reverse
  | _ => path

/-- A target from what stands after the host. -/
def targetOf (rest : List Char) : String :=
  let (path, query) := cutAt ['?'] (withoutFragment rest)
  String.ofList (cleanPath (match path with
    | '/' :: _ => path
    | _ => '/' :: path) ++ query)

def ofRest (scheme : String) (rest : List Char) : Option Url :=
  let (authority, rest) := cutAt ['/', '?', '#'] rest
  if authority.isEmpty then none else some ⟨scheme, String.ofList authority, targetOf rest⟩

def isForbidden (c : Char) : Bool := c.toNat ≤ 0x20 || c.toNat = 0x7F

/-- An address without a scheme is one of HTTP. -/
def parse? (s : String) : Option Url :=
  let cs := s.toList
  if cs.any isForbidden then none
  else match scheme? cs with
    | some (scheme, rest) => ofRest (lower scheme) rest
    | none => ofRest "http" cs

/-- The path of a target up to its last slash. -/
def directory (target : String) : List Char :=
  let path := (cutAt ['?'] target.toList).1
  (path.reverse.dropWhile (· ≠ '/')).reverse

/-- Where a reference leads that is found at an address. -/
def resolve? (u : Url) (reference : String) : Option Url :=
  let cs := reference.toList
  match scheme? cs with
  | some (scheme, rest) => ofRest (lower scheme) rest
  | none =>
    match cs with
    | '/' :: '/' :: rest => ofRest u.scheme rest
    | '/' :: _ => some { u with target := targetOf cs }
    | '?' :: _ =>
      some { u with target := targetOf ((cutAt ['?'] u.target.toList).1 ++ cs) }
    | _ => some { u with target := targetOf (directory u.target ++ cs) }

end Url

end PinnedBuild.Download
