/-!
Writing TOML strings and arrays of strings.

A string is written in the plainest of the forms that can hold it: between quotes, between
apostrophes, between three of the one or of the other, and with escapes where nothing else will do.
-/

namespace PinnedBuild.Toml.Writer

def isControl (c : Char) : Bool := (c.toNat < 0x20 && c ≠ '\t' && c ≠ '\n') || c.toNat = 0x7F

/-- The length of the longest run of `q`. -/
def longestRun (q : Char) (s : List Char) : Nat :=
  let r := s.foldl (fun (best, run) c =>
    if c = q then (max best (run + 1), run + 1) else (best, 0)) (0, 0)
  r.1

inductive Form where
  | basic
  | literal
  | multilineBasic
  | multilineLiteral
  | escaped
  deriving DecidableEq, Repr

def formOf (s : List Char) : Form :=
  let control := s.any isControl
  let lines := s.contains '\n'
  if !control && !lines && !s.contains '\\' && !s.contains '"' then .basic
  else if !control && !lines && !s.contains '\'' then .literal
  else if !control && !s.contains '\\' && longestRun '"' s < 3 then .multilineBasic
  else if !control && longestRun '\'' s < 3 then .multilineLiteral
  else .escaped

def upperHex (n : Nat) : Char :=
  if n < 10 then Char.ofNat (48 + n) else Char.ofNat (55 + n)

/-- Four hexadecimal digits. -/
def unicodeEscape (c : Char) : List Char :=
  let n := c.toNat
  ['\\', 'u', upperHex (n / 4096 % 16), upperHex (n / 256 % 16), upperHex (n / 16 % 16),
    upperHex (n % 16)]

/-- A character other than a quote between quotes. On several lines a newline stands for itself. -/
def escapeChar (lines : Bool) (c : Char) : List Char :=
  if c = '\x08' then ['\\', 'b']
  else if c = '\t' then ['\\', 't']
  else if c = '\n' then (if lines then ['\n'] else ['\\', 'n'])
  else if c = '\x0c' then ['\\', 'f']
  else if c = '\r' then ['\\', 'r']
  else if c = '\\' then ['\\', '\\']
  else if isControl c then unicodeEscape c
  else [c]

/-- The characters of a string between quotes. `room` is the number of quotes that may stand in a
row before the next has to be escaped; it is counted afresh after any other character and after an
escaped quote. -/
def escapeFrom (lines : Bool) (most : Nat) : Nat → List Char → List Char
  | _, [] => []
  | room, c :: r =>
    if c = '"' then
      match room with
      | 0 => '\\' :: '"' :: escapeFrom lines most most r
      | k + 1 => '"' :: escapeFrom lines most k r
    else escapeChar lines c ++ escapeFrom lines most most r

/-- On one line every quote is escaped; on several lines every third in a row. -/
def escape (lines : Bool) (s : List Char) : List Char :=
  let most := if lines then 2 else 0
  escapeFrom lines most most s

/-- A newline after the opening delimiter is no part of the string. It is written if the string has
several lines. -/
def opening (delimiter s : List Char) : List Char :=
  if s.contains '\n' then delimiter ++ ['\n'] else delimiter

def quotes : List Char := ['"', '"', '"']

def apostrophes : List Char := ['\'', '\'', '\'']

def string (s : List Char) : List Char :=
  match formOf s with
  | .basic => '"' :: escape false s ++ ['"']
  | .literal => '\'' :: s ++ ['\'']
  | .multilineBasic => opening quotes s ++ escape true s ++ quotes
  | .multilineLiteral => opening apostrophes s ++ s ++ apostrophes
  | .escaped =>
    if s.contains '\n' then opening quotes s ++ escape true s ++ quotes
    else '"' :: escape false s ++ ['"']

/-- Two or more strings stand on a line each. -/
def strings (l : List String) : List Char :=
  match l with
  | [] => ['[', ']']
  | [x] => '[' :: string x.toList ++ [']']
  | _ =>
    '[' :: '\n' :: l.flatMap (fun x => "    ".toList ++ string x.toList ++ [',', '\n']) ++ [']']

def boolean (b : Bool) : List Char := if b then "true".toList else "false".toList

def entry (key : String) (value : List Char) : List Char :=
  key.toList ++ " = ".toList ++ value ++ ['\n']

end PinnedBuild.Toml.Writer
