/-!
The characters, blanks, comments and line ends of TOML.

Readers take a list of characters and give what they read with what stands after it, or nothing.
-/

namespace PinnedBuild.Toml

def isBlank (c : Char) : Bool := c = ' ' || c = '\t'

/-- Tabs, printing ASCII and everything beyond ASCII: what a comment may hold. -/
def isPlain (c : Char) : Bool := c = '\t' || (0x20 ≤ c.toNat && c.toNat ≠ 0x7F)

def skipBlanks (s : List Char) : List Char := s.dropWhile isBlank

/-- What stands after a newline, with or without a carriage return before it. -/
def newline? : List Char → Option (List Char)
  | '\n' :: rest => some rest
  | '\r' :: '\n' :: rest => some rest
  | _ => none

/-- A line ends with a newline or with the text. -/
def lineEnd? : List Char → Option (List Char)
  | [] => some []
  | s => newline? s

def skipComment : List Char → List Char
  | '#' :: rest => rest.dropWhile isPlain
  | s => s

theorem length_skipBlanks_le (s : List Char) : (skipBlanks s).length ≤ s.length :=
  (List.dropWhile_suffix isBlank).length_le

theorem length_skipComment_le (s : List Char) : (skipComment s).length ≤ s.length := by
  unfold skipComment
  split
  · exact Nat.le_succ_of_le (List.dropWhile_suffix isPlain).length_le
  · exact Nat.le_refl _

theorem length_newline?_lt {s r : List Char} (h : newline? s = some r) : r.length < s.length := by
  unfold newline? at h
  split at h
  · injection h with h
    subst h
    simp
  · injection h with h
    subst h
    simp only [List.length_cons]
    omega
  · simp at h

/-- Blanks, comments and newlines, as they may stand between the elements of an array. -/
def skipLayout (s : List Char) : List Char :=
  match _h : newline? (skipComment (skipBlanks s)) with
  | some rest => skipLayout rest
  | none => skipBlanks s
termination_by s.length
decreasing_by
  have := length_newline?_lt _h
  have := length_skipComment_le (skipBlanks s)
  have := length_skipBlanks_le s
  omega

/-- What stands after the given character. -/
def expect (c : Char) : List Char → Option (List Char)
  | x :: rest => if x = c then some rest else none
  | [] => none

/-- What stands after the given characters. -/
def expectAll : List Char → List Char → Option (List Char)
  | [], s => some s
  | c :: cs, s => (expect c s).bind (expectAll cs)

/-- Exactly `n` characters of a class. -/
def exactly (n : Nat) (p : Char → Bool) (s : List Char) : Option (List Char × List Char) :=
  let front := s.take n
  if front.length = n ∧ front.all p then some (front, s.drop n) else none

end PinnedBuild.Toml
