import PinnedBuild.Toml.Value
import PinnedBuild.Toml.Lexical

/-!
Reading TOML integers and floating-point numbers. Between two digits an underscore may stand.
-/

namespace PinnedBuild.Toml

def isBinary (c : Char) : Bool := c = '0' || c = '1'

def isOctal (c : Char) : Bool := '0' ≤ c && c ≤ '7'

def isHex (c : Char) : Bool := c.isDigit || ('a' ≤ c && c ≤ 'f') || ('A' ≤ c && c ≤ 'F')

def digitValue (c : Char) : Nat :=
  if c.isDigit then c.toNat - 48
  else if 'a' ≤ c then c.toNat - 87
  else c.toNat - 55

def numberOf (base : Nat) (ds : List Char) : Nat :=
  ds.foldl (fun n c => n * base + digitValue c) 0

/-- The digits that follow a first one, each with at most one underscore before it. -/
def moreDigits (p : Char → Bool) : List Char → List Char × List Char
  | [] => ([], [])
  | '_' :: d :: r =>
    if p d then let (ds, rest) := moreDigits p r; (d :: ds, rest) else ([], '_' :: d :: r)
  | c :: r => if p c then let (ds, rest) := moreDigits p r; (c :: ds, rest) else ([], c :: r)

/-- One digit or more. -/
def digits? (p : Char → Bool) : List Char → Option (List Char × List Char)
  | c :: r => if p c then let (ds, rest) := moreDigits p r; some (c :: ds, rest) else none
  | [] => none

def sign : List Char → Bool × List Char
  | '-' :: r => (true, r)
  | '+' :: r => (false, r)
  | s => (false, s)

/-- Decimal digits of which only a lone zero begins with a zero. -/
def wholeDigits? : List Char → Option (List Char × List Char)
  | '0' :: r => some (['0'], r)
  | s => digits? Char.isDigit s

def signed (negative : Bool) (n : Nat) : Int := if negative then -(n : Int) else n

/-- Integers are those of 64 bits with a sign. -/
def inRange? (n : Int) : Option Int :=
  if -9223372036854775808 ≤ n ∧ n ≤ 9223372036854775807 then some n else none

def integer? (s : List Char) : Option (Int × List Char) :=
  match s with
  | '0' :: 'x' :: r => radix 16 isHex r
  | '0' :: 'o' :: r => radix 8 isOctal r
  | '0' :: 'b' :: r => radix 2 isBinary r
  | _ => do
    let (negative, r) := sign s
    let (ds, rest) ← wholeDigits? r
    let n ← inRange? (signed negative (numberOf 10 ds))
    return (n, rest)
where
  radix (base : Nat) (p : Char → Bool) (r : List Char) : Option (Int × List Char) := do
    let (ds, rest) ← digits? p r
    let n ← inRange? (numberOf base ds)
    return (n, rest)

/-- The exponent part, zero when there is none. -/
def exponent? : List Char → Option (Int × List Char)
  | c :: r =>
    if c = 'e' ∨ c = 'E' then do
      let (negative, r) := sign r
      let (ds, rest) ← digits? Char.isDigit r
      return (signed negative (numberOf 10 ds), rest)
    else none
  | [] => none

/-- A number beyond the range on the positive side is refused. -/
def notAbove? (x : Binary64) : Option Binary64 :=
  if x = .infinite false then none else some x

/-- Digits with a fraction, an exponent or both. -/
def decimalFloat? (s : List Char) : Option (Binary64 × List Char) := do
  let (negative, r) := sign s
  let (ds, r) ← wholeDigits? r
  match r with
  | '.' :: r =>
    let (fs, r) ← digits? Char.isDigit r
    let (e, r) := (exponent? r).getD (0, r)
    let x ← notAbove? (.ofDecimal negative (numberOf 10 (ds ++ fs)) (e - fs.length))
    return (x, r)
  | _ =>
    let (e, r) ← exponent? r
    let x ← notAbove? (.ofDecimal negative (numberOf 10 ds) e)
    return (x, r)

def specialFloat? (s : List Char) : Option (Binary64 × List Char) :=
  match sign s with
  | (negative, 'i' :: 'n' :: 'f' :: r) => some (.infinite negative, r)
  | (_, 'n' :: 'a' :: 'n' :: r) => some (.notANumber, r)
  | _ => none

def float? (s : List Char) : Option (Binary64 × List Char) :=
  (decimalFloat? s).or (specialFloat? s)

end PinnedBuild.Toml
