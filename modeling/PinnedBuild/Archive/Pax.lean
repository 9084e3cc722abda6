import PinnedBuild.Archive.Header

/-!
Extended header records: lines of the form "length key=value", where the length counts the whole
line with its newline. An empty line ends them.
-/

namespace PinnedBuild.Archive.Pax

def newline : UInt8 := 10

def space : UInt8 := 32

def equals : UInt8 := 61

/-- The pieces between newlines. -/
def lines : Bytes → List Bytes
  | [] => [[]]
  | b :: rest =>
    match lines rest with
    | first :: more => if b = newline then [] :: first :: more else (b :: first) :: more
    | [] => [[b]]

/-- Key and value, if the line is well formed. -/
def record? (line : Bytes) : Option (Bytes × Bytes) := do
  let digits := line.takeWhile (· != space)
  let _ :: rest := line.drop digits.length | none
  let n ← (Bytes.decode? digits).bind fun s => Header.number? 10 s.toList
  if n = line.length + 1 then
    let key := rest.takeWhile (· != equals)
    let _ :: value := rest.drop key.length | none
    return (key, value)
  else none

/-- The records up to the first empty line, `none` for one that is malformed. -/
def records (b : Bytes) : List (Option (Bytes × Bytes)) :=
  ((lines b).takeWhile fun line => !line.isEmpty).map record?

/-- The first value of a key; malformed records are passed over. -/
def value? (key : String) (b : Bytes) : Option Bytes :=
  ((records b).filterMap id).lookup (Bytes.ofString key)

/-- The size that a member is given, unless a malformed record stands before it. -/
def size? (b : Bytes) : Option Nat :=
  match (records b).dropWhile fun r => (r.map Prod.fst).any (· != Bytes.ofString "size") with
  | some (_, value) :: _ => (Bytes.decode? value).bind fun s => Header.number? 10 s.toList
  | _ => none

end PinnedBuild.Archive.Pax
