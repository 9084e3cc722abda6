/-!
Floating-point numbers of 64 bits, read from decimal digits and written back with the fewest
digits that read back as the same number.
-/

namespace PinnedBuild

/-- A finite number is a sign with `mantissa * 2 ^ exponent`. -/
inductive Binary64 where
  | finite (negative : Bool) (mantissa : Nat) (exponent : Int)
  | infinite (negative : Bool)
  | notANumber
  deriving DecidableEq, Repr

namespace Binary64

/-- The least mantissa of 53 bits. -/
def leastFull : Nat := 4503599627370496

/-- A nonnegative rational: numerator and denominator. -/
structure Ratio where
  num : Nat
  den : Nat

/-- `n * base ^ e`. -/
def scaled (n base : Nat) (e : Int) : Ratio :=
  match e with
  | .ofNat k => ⟨n * Nat.pow base k, 1⟩
  | .negSucc k => ⟨n, Nat.pow base (k + 1)⟩

def Ratio.le (a b : Ratio) : Bool := a.num * b.den ≤ b.num * a.den

def Ratio.lt (a b : Ratio) : Bool := a.num * b.den < b.num * a.den

def Ratio.mul (a b : Ratio) : Ratio := ⟨a.num * b.num, a.den * b.den⟩

/-- The nearest natural number; a half goes to the even neighbour. -/
def Ratio.round (a : Ratio) : Nat :=
  let q := a.num / a.den
  let twice := 2 * (a.num % a.den)
  if twice < a.den then q
  else if a.den < twice then q + 1
  else if q % 2 = 0 then q else q + 1

/-- The exponent at which the mantissa of `a` has 53 bits, but no less than the least exponent. -/
def exponentOf (a : Ratio) : Int :=
  let guess : Int := (a.num.log2 : Int) - a.den.log2 - 52
  let e := if (scaled 1 2 (guess + 52)).le a then guess else guess - 1
  max e (-1074)

def ofRatio (negative : Bool) (a : Ratio) : Binary64 :=
  if a.num = 0 then .finite negative 0 (-1074)
  else
    let e := exponentOf a
    let m := (a.mul (scaled 1 2 (-e))).round
    let (m, e) := if m = 2 * leastFull then (leastFull, e + 1) else (m, e)
    if 971 < e then .infinite negative else .finite negative m e

def digitCount (n : Nat) : Nat := (Nat.toDigits 10 n).length

/-- The number nearest to `digits * 10 ^ e`. Far beyond the range nothing is computed. -/
def ofDecimal (negative : Bool) (digits : Nat) (e : Int) : Binary64 :=
  let top := (digitCount digits : Int) + e
  if digits = 0 then .finite negative 0 (-1074)
  else if 400 < top then .infinite negative
  else if top < -400 then .finite negative 0 (-1074)
  else ofRatio negative (scaled digits 10 e)

/-! ### Writing -/

/-- Ends of the interval of numbers that are read as `m * 2 ^ e`. -/
def bounds (m : Nat) (e : Int) : Ratio × Ratio :=
  let low :=
    if m = leastFull ∧ -1074 < e then scaled (4 * m - 1) 2 (e - 2)
    else scaled (2 * m - 1) 2 (e - 1)
  (low, scaled (2 * m + 1) 2 (e - 1))

/-- The interval holds its ends iff the mantissa is even. -/
def reads (m : Nat) (e : Int) (x : Ratio) : Bool :=
  let (low, high) := bounds m e
  if m % 2 = 0 then low.le x && x.le high else low.lt x && x.lt high

/-- The least `k` with `a < 10 ^ k`, from a guess that is not above it. -/
def decimalTop (a : Ratio) : Nat → Int → Int
  | 0, k => k
  | fuel + 1, k => if a.lt (scaled 1 10 k) then k else decimalTop a fuel (k + 1)

/-- The neighbour of `m * 2 ^ e` on the grid of multiples of `10 ^ p` that reads back, the nearer
one if both do. -/
def onGrid (m : Nat) (e p : Int) : Option Nat :=
  let steps := (scaled m 2 e).mul (scaled 1 10 (-p))
  let low := steps.num / steps.den
  let near := steps.round
  let far := if near = low then low + 1 else low
  if reads m e (scaled near 10 p) then some near
  else if reads m e (scaled far 10 p) then some far
  else none

/-- The first grid with a hit, coarsest first. -/
def firstHit (m : Nat) (e top : Int) : Nat → Nat → Nat × Int
  | 0, _ => (m, e)
  | fuel + 1, n =>
    match onGrid m e (top - n) with
    | some d => (d, top - n)
    | none => firstHit m e top fuel (n + 1)

def dropZeros : Nat → Nat → Int → Nat × Int
  | 0, d, p => (d, p)
  | fuel + 1, d, p => if d % 10 = 0 then dropZeros fuel (d / 10) (p + 1) else (d, p)

/-- The fewest decimal digits and their exponent. -/
def shortest (m : Nat) (e : Int) : Nat × Int :=
  let a := scaled m 2 e
  let guess : Int := ((m.log2 : Int) + e) * 30103 / 100000 - 1
  let hit := firstHit m e (decimalTop a 8 guess) 17 1
  dropZeros 17 hit.1 hit.2

/-- Digits with a point, never with an exponent, and at least one digit on each side. -/
def positional (d : Nat) (p : Int) : List Char :=
  let ds := Nat.toDigits 10 d
  if 0 ≤ p then ds ++ List.replicate p.toNat '0' ++ ['.', '0']
  else
    let after := (-p).toNat
    let padded := List.replicate (after + 1 - ds.length) '0' ++ ds
    padded.take (padded.length - after) ++ '.' :: padded.drop (padded.length - after)

def toText : Binary64 → String
  | .notANumber => "NaN"
  | .infinite negative => if negative then "-inf" else "inf"
  | .finite negative m e =>
    let body := if m = 0 then "0.0".toList
      else let s := shortest m e; positional s.1 s.2
    String.ofList (if negative then '-' :: body else body)

end Binary64

end PinnedBuild
