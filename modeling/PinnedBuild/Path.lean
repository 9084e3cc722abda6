import PinnedBuild.Text.Utf8

/-!
Paths: names divided by slashes, as the operating system reads them.
-/

namespace PinnedBuild

abbrev Path := Bytes

namespace Path

def slash : UInt8 := 47

def dot : UInt8 := 46

def ofString (s : String) : Path := Bytes.ofString s

/-- How a path is shown in a message. -/
def display (p : Path) : String := Text.Utf8.lossy p

def isAbsolute (p : Path) : Bool := p.head? == some slash

/-- An absolute path on the right replaces what is on the left; else exactly one slash stands
between the two, unless the left is empty. -/
def join (p q : Path) : Path :=
  if q.isAbsolute then q
  else if p.isEmpty || p.getLast? == some slash then p ++ q
  else p ++ slash :: q

/-- The pieces between slashes, empty ones included. -/
def pieces (p : Path) : List Bytes :=
  match p with
  | [] => [[]]
  | b :: rest =>
    if b = slash then [] :: pieces rest
    else match pieces rest with
      | first :: more => (b :: first) :: more
      | [] => [[b]]

/-- A part of a path. A dot is a part of its own only at the front of a relative path. -/
inductive Component where
  | root
  | here
  | up
  | name (n : Bytes)
  deriving DecidableEq, Repr

def Component.ofPiece (piece : Bytes) : Option Component :=
  if piece = [] ∨ piece = [dot] then none
  else if piece = [dot, dot] then some .up
  else some (.name piece)

def components (p : Path) : List Component :=
  let rest := p.pieces.filterMap Component.ofPiece
  if p.isAbsolute then .root :: rest
  else if p.pieces.head? = some [dot] then .here :: rest
  else rest

def Component.trivial (piece : Bytes) : Bool := piece.isEmpty || piece == [dot]

def ofPieces (ps : List Bytes) : Path := List.intercalate [slash] ps

/-- The path without its last part, and without the empty pieces and dots that then end it. -/
def parent? (p : Path) : Option Path :=
  let (front, body) : List Bytes × List Bytes :=
    match p.pieces with
    | first :: rest => if p.isAbsolute ∨ first = [dot] then ([first], rest) else ([], first :: rest)
    | [] => ([], [])
  match body.reverse.dropWhile Component.trivial with
  | _ :: before =>
    match (before.dropWhile Component.trivial).reverse with
    | [] => some (if p.isAbsolute then [slash] else ofPieces front)
    | kept => some (ofPieces (front ++ kept))
  | [] => if front = [[dot]] then some [] else none

/-- The part after the last slash. -/
def lastPiece (p : Path) : Bytes := (p.reverse.takeWhile (· != slash)).reverse

end Path

end PinnedBuild
