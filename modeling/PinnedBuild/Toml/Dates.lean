import PinnedBuild.Toml.Numbers

/-!
Reading TOML dates and times. Only what they span is kept.
-/

namespace PinnedBuild.Toml

/-- A number of exactly `n` digits between two bounds. -/
def field? (n low high : Nat) (s : List Char) : Option (Nat × List Char) := do
  let (ds, rest) ← exactly n Char.isDigit s
  let v := numberOf 10 ds
  if low ≤ v ∧ v ≤ high then return (v, rest) else none

def isLeap (year : Nat) : Bool := year % 4 = 0 && (year % 100 ≠ 0 || year % 400 = 0)

def daysIn (year month : Nat) : Nat :=
  if month = 2 then (if isLeap year then 29 else 28)
  else if month = 4 ∨ month = 6 ∨ month = 9 ∨ month = 11 then 30
  else 31

/-- What stands after a date. -/
def date? (s : List Char) : Option (List Char) := do
  let (year, r) ← field? 4 0 9999 s
  let (month, r) ← field? 2 1 12 (← expect '-' r)
  let (day, r) ← field? 2 1 31 (← expect '-' r)
  if day ≤ daysIn year month then return r else none

/-- What stands after a time; a minute may have a leap second. -/
def time? (s : List Char) : Option (List Char) := do
  let (_, r) ← field? 2 0 23 s
  let (_, r) ← field? 2 0 59 (← expect ':' r)
  let (_, r) ← field? 2 0 60 (← expect ':' r)
  match r with
  | '.' :: c :: r' => if c.isDigit then return r'.dropWhile Char.isDigit else none
  | '.' :: [] => none
  | _ => return r

def offset? : List Char → Option (List Char)
  | c :: r =>
    if c = 'Z' ∨ c = 'z' then some r
    else if c = '+' ∨ c = '-' then do
      let (_, r) ← field? 2 0 23 r
      let (_, r) ← field? 2 0 59 (← expect ':' r)
      return r
    else none
  | [] => none

/-- A time after a date, with an offset if there is one. -/
def timeAfterDate? : List Char → Option (List Char)
  | c :: r =>
    if c = 'T' ∨ c = 't' ∨ c = ' ' then (time? r).map fun r' => (offset? r').getD r' else none
  | [] => none

def datetime? (s : List Char) : Option (String × List Char) := do
  let rest ← ((date? s).map fun r => (timeAfterDate? r).getD r).or (time? s)
  return (String.ofList (s.take (s.length - rest.length)), rest)

end PinnedBuild.Toml
