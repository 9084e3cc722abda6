import PinnedBuild.Toml.Lexical

/-!
Reading the four kinds of TOML strings: with escapes or literal, on one line or on several.
-/

namespace PinnedBuild.Toml

def hexValue? (c : Char) : Option Nat :=
  if '0' ≤ c ∧ c ≤ '9' then some (c.toNat - 48)
  else if 'a' ≤ c ∧ c ≤ 'f' then some (c.toNat - 87)
  else if 'A' ≤ c ∧ c ≤ 'F' then some (c.toNat - 55)
  else none

def hexNumber? (cs : List Char) : Option Nat :=
  cs.foldlM (fun n c => (hexValue? c).map (n * 16 + ·)) 0

/-- Surrogates and numbers beyond the last code point are no characters. -/
def charOfCode? (n : Nat) : Option Char :=
  if n < 0xD800 ∨ (0xDFFF < n ∧ n < 0x110000) then some (Char.ofNat n) else none

/-- The character of the given number of hexadecimal digits. -/
def unicodeEscape? (width : Nat) (s : List Char) : Option (Char × List Char) :=
  (exactly width (fun c => (hexValue? c).isSome) s).bind fun r =>
    ((hexNumber? r.1).bind charOfCode?).map fun c => (c, r.2)

/-- The character that an escape stands for; the backslash is already read. -/
def escape? : List Char → Option (Char × List Char)
  | 'b' :: r => some ('\x08', r)
  | 't' :: r => some ('\t', r)
  | 'n' :: r => some ('\n', r)
  | 'f' :: r => some ('\x0c', r)
  | 'r' :: r => some ('\r', r)
  | '"' :: r => some ('"', r)
  | '\\' :: r => some ('\\', r)
  | 'u' :: r => unicodeEscape? 4 r
  | 'U' :: r => unicodeEscape? 8 r
  | _ => none

theorem length_escape?_lt {s : List Char} {c : Char} {r : List Char}
    (h : escape? s = some (c, r)) : r.length < s.length := by
  have hu : ∀ (n : Nat) (t : List Char), unicodeEscape? n t = some (c, r) →
      r.length ≤ t.length := by
    intro n t ht
    simp only [unicodeEscape?, Option.bind_eq_some_iff, Option.map_eq_some_iff, exactly] at ht
    obtain ⟨⟨f, q⟩, h1, d, -, h2⟩ := ht
    split at h1
    · simp only [Option.some.injEq, Prod.mk.injEq] at h1 h2
      obtain ⟨-, rfl⟩ := h1
      obtain ⟨-, rfl⟩ := h2
      simp
    · simp at h1
  have hs : ∀ {d : Char} {t : List Char}, some (d, t) = some (c, r) → r.length < t.length + 1 := by
    intro d t ht
    simp only [Option.some.injEq, Prod.mk.injEq] at ht
    simp [ht.2]
  unfold escape? at h
  split at h
  · exact hs h
  · exact hs h
  · exact hs h
  · exact hs h
  · exact hs h
  · exact hs h
  · exact hs h
  · exact Nat.lt_succ_of_le (hu _ _ h)
  · exact Nat.lt_succ_of_le (hu _ _ h)
  · simp at h

/-- A text with escapes up to the closing quote, on one line. -/
def basicBody (s : List Char) : Option (List Char × List Char) :=
  match s with
  | [] => none
  | c :: r =>
    if c = '"' then some ([], r)
    else if c = '\\' then
      match _h : escape? r with
      | some (d, r') => (basicBody r').map fun (cs, rest) => (d :: cs, rest)
      | none => none
    else if isPlain c then (basicBody r).map fun (cs, rest) => (c :: cs, rest)
    else none
termination_by s.length
decreasing_by
  · have := length_escape?_lt _h
    simp only [List.length_cons]
    omega
  · simp

/-- A text without escapes up to the closing apostrophe, on one line. -/
def literalBody : List Char → Option (List Char × List Char)
  | [] => none
  | c :: r =>
    if c = '\'' then some ([], r)
    else if isPlain c then (literalBody r).map fun (cs, rest) => (c :: cs, rest)
    else none

/-- The delimiter of a string on several lines is three quotes, and up to two more before them
belong to the text. -/
def closing? (q : Char) : List Char → Option (List Char × List Char)
  | a :: b :: c :: r =>
    if a = q ∧ b = q ∧ c = q then
      match r with
      | d :: e :: r' =>
        if d = q ∧ e = q then some ([q, q], r')
        else if d = q then some ([q], e :: r')
        else some ([], r)
      | [d] => if d = q then some ([q], []) else some ([], r)
      | [] => some ([], [])
    else none
  | _ => none

/-- Blanks and newlines, as they are dropped after a backslash that ends a line. -/
def isTrimmed (c : Char) : Bool := isBlank c || c = '\n'

def skipTrimmed (s : List Char) : List Char :=
  match s with
  | [] => []
  | '\r' :: '\n' :: r => skipTrimmed r
  | c :: r => if isTrimmed c then skipTrimmed r else c :: r

theorem length_skipTrimmed_le (s : List Char) : (skipTrimmed s).length ≤ s.length := by
  fun_induction skipTrimmed s with
  | case1 => exact Nat.le_refl _
  | case2 r ih =>
    simp only [List.length_cons]
    omega
  | case3 c r _ _ ih =>
    simp only [List.length_cons]
    omega
  | case4 => exact Nat.le_refl _

/-- A text with escapes up to three closing quotes. Newlines are read as line feeds, and a
backslash at the end of a line drops the blanks and newlines that follow. -/
def multilineBasicBody (s : List Char) : Option (List Char × List Char) :=
  match closing? '"' s with
  | some r => some r
  | none =>
    match s with
    | [] => none
    | c :: r =>
      if c = '\\' then
        match _h : escape? r with
        | some (d, r') => (multilineBasicBody r').map fun (cs, rest) => (d :: cs, rest)
        | none =>
          match _h : newline? (skipBlanks r) with
          | some r' => multilineBasicBody (skipTrimmed r')
          | none => none
      else if isPlain c then (multilineBasicBody r).map fun (cs, rest) => (c :: cs, rest)
      else
        match _h : newline? (c :: r) with
        | some r' => (multilineBasicBody r').map fun (cs, rest) => ('\n' :: cs, rest)
        | none => none
termination_by s.length
decreasing_by
  · have := length_escape?_lt _h
    simp only [List.length_cons]
    omega
  · have := length_newline?_lt _h
    have := length_skipBlanks_le r
    have := length_skipTrimmed_le r'
    simp only [List.length_cons]
    omega
  · simp
  · exact length_newline?_lt _h

/-- A text without escapes up to three closing apostrophes. -/
def multilineLiteralBody (s : List Char) : Option (List Char × List Char) :=
  match closing? '\'' s with
  | some r => some r
  | none =>
    match s with
    | [] => none
    | c :: r =>
      if isPlain c then (multilineLiteralBody r).map fun (cs, rest) => (c :: cs, rest)
      else
        match _h : newline? (c :: r) with
        | some r' => (multilineLiteralBody r').map fun (cs, rest) => ('\n' :: cs, rest)
        | none => none
termination_by s.length
decreasing_by
  · simp
  · exact length_newline?_lt _h

/-- A newline right after the opening delimiter is dropped. -/
def afterOpening (s : List Char) : List Char := (newline? s).getD s

def text (r : Option (List Char × List Char)) : Option (String × List Char) :=
  r.map fun (cs, rest) => (String.ofList cs, rest)

/-- A string on one line: what a quoted key may be. -/
def lineString? : List Char → Option (String × List Char)
  | '"' :: r => text (basicBody r)
  | '\'' :: r => text (literalBody r)
  | _ => none

/-- A string of any of the four kinds. -/
def string? : List Char → Option (String × List Char)
  | '"' :: '"' :: '"' :: r => text (multilineBasicBody (afterOpening r))
  | '\'' :: '\'' :: '\'' :: r => text (multilineLiteralBody (afterOpening r))
  | s => lineString? s

end PinnedBuild.Toml
