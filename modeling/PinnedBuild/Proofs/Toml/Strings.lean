import Mathlib
import PinnedBuild.Toml.Strings
import PinnedBuild.Toml.Writer

/-!
Every string is read back as it was written, whichever form it is written in.

On several lines a delimiter is three quotes, but a text may end in two of its own. What is written
has at most two in a row, so that the delimiter is found where the text ends and nowhere before.
-/

namespace PinnedBuild.Toml

variable {q c : Char} {s r rest : List Char} {lines : Bool}

/-! ### One character -/

lemma isPlain_of_not_isControl (h : Writer.isControl c = false) (hc : c ≠ '\n') :
    isPlain c = true := by
  simp only [Writer.isControl, Bool.or_eq_false_iff, Bool.and_eq_false_iff, decide_eq_false_iff_not,
    not_not, ne_eq] at h
  simp only [isPlain, Bool.or_eq_true, decide_eq_true_eq, Bool.and_eq_true]
  by_cases ht : c = '\t'
  · exact .inl ht
  · refine .inr ⟨?_, by simpa using h.2⟩
    rcases h.1 with (h | h) | h
    · omega
    · exact absurd h ht
    · exact absurd h hc

lemma hexValue?_upperHex : ∀ n < 16, hexValue? (Writer.upperHex n) = some n := by decide

/-- Four hexadecimal digits are read as the character that they were made of. -/
lemma escape?_unicodeEscape (hc : c.toNat < 0xD800) (rest : List Char) :
    escape? ((Writer.unicodeEscape c).tail ++ rest) = some (c, rest) := by
  have h3 := hexValue?_upperHex (c.toNat / 4096 % 16) (Nat.mod_lt _ (by decide))
  have h2 := hexValue?_upperHex (c.toNat / 256 % 16) (Nat.mod_lt _ (by decide))
  have h1 := hexValue?_upperHex (c.toNat / 16 % 16) (Nat.mod_lt _ (by decide))
  have h0 := hexValue?_upperHex (c.toNat % 16) (Nat.mod_lt _ (by decide))
  have hsum : ((c.toNat / 4096 % 16 * 16 + c.toNat / 256 % 16) * 16 + c.toNat / 16 % 16) * 16 +
      c.toNat % 16 = c.toNat := by omega
  have hnum : hexNumber? [Writer.upperHex (c.toNat / 4096 % 16),
      Writer.upperHex (c.toNat / 256 % 16), Writer.upperHex (c.toNat / 16 % 16),
      Writer.upperHex (c.toNat % 16)] = some c.toNat := by
    simp [hexNumber?, h3, h2, h1, h0, hsum]
  have hread : exactly 4 (fun c => (hexValue? c).isSome) (Writer.upperHex (c.toNat / 4096 % 16) ::
      Writer.upperHex (c.toNat / 256 % 16) :: Writer.upperHex (c.toNat / 16 % 16) ::
      Writer.upperHex (c.toNat % 16) :: rest) = some ([Writer.upperHex (c.toNat / 4096 % 16),
      Writer.upperHex (c.toNat / 256 % 16), Writer.upperHex (c.toNat / 16 % 16),
      Writer.upperHex (c.toNat % 16)], rest) := by
    simp [exactly, h3, h2, h1, h0]
  have hcode : charOfCode? c.toNat = some c := by
    rw [charOfCode?, if_pos (.inl hc), Char.ofNat_toNat]
  show unicodeEscape? 4 (Writer.upperHex (c.toNat / 4096 % 16) ::
    Writer.upperHex (c.toNat / 256 % 16) :: Writer.upperHex (c.toNat / 16 % 16) ::
    Writer.upperHex (c.toNat % 16) :: rest) = _
  rw [unicodeEscape?, hread]
  simp only [Option.bind_some, hnum, hcode, Option.map_some]

/-- A character other than a quote stands for itself or is escaped. -/
lemma escapeChar_cases (lines : Bool) (hq : c ≠ '"') :
    (Writer.escapeChar lines c = [c] ∧ isPlain c = true ∧ c ≠ '\\') ∨
      (lines = true ∧ c = '\n' ∧ Writer.escapeChar lines c = ['\n']) ∨
      ∃ e, Writer.escapeChar lines c = '\\' :: e ∧
        ∀ rest, escape? (e ++ rest) = some (c, rest) := by
  unfold Writer.escapeChar
  split
  · subst c
    exact .inr (.inr ⟨['b'], rfl, fun _ => rfl⟩)
  split
  · subst c
    exact .inr (.inr ⟨['t'], rfl, fun _ => rfl⟩)
  split
  · subst c
    cases lines
    · exact .inr (.inr ⟨['n'], rfl, fun _ => rfl⟩)
    · exact .inr (.inl ⟨rfl, rfl, rfl⟩)
  rename_i hn
  split
  · subst c
    exact .inr (.inr ⟨['f'], rfl, fun _ => rfl⟩)
  split
  · subst c
    exact .inr (.inr ⟨['r'], rfl, fun _ => rfl⟩)
  split
  · subst c
    exact .inr (.inr ⟨['\\'], rfl, fun _ => rfl⟩)
  rename_i hb
  split
  · rename_i hctl
    refine .inr (.inr ⟨(Writer.unicodeEscape c).tail, rfl, escape?_unicodeEscape ?_⟩)
    simp only [Writer.isControl, Bool.or_eq_true, Bool.and_eq_true, decide_eq_true_eq] at hctl
    omega
  · rename_i hctl
    exact .inl ⟨rfl, isPlain_of_not_isControl (by simpa using hctl) hn, hb⟩

/-- What is written for a character other than a quote does not begin with one. -/
lemma escapeChar_head (lines : Bool) (hq : c ≠ '"') :
    ∃ d e, Writer.escapeChar lines c = d :: e ∧ d ≠ '"' := by
  rcases escapeChar_cases lines hq with ⟨h, -, -⟩ | ⟨-, rfl, h⟩ | ⟨e, h, -⟩
  · exact ⟨c, [], h, hq⟩
  · exact ⟨'\n', [], h, by decide⟩
  · exact ⟨'\\', e, h, by decide⟩

lemma escapeFrom_cons (most room : Nat) (hq : c ≠ '"') (s : List Char) :
    Writer.escapeFrom lines most room (c :: s) =
      Writer.escapeChar lines c ++ Writer.escapeFrom lines most most s := by
  rcases room with _ | k <;> rw [Writer.escapeFrom, if_neg hq]

/-! ### On one line -/

lemma basicBody_quote (r : List Char) : basicBody ('"' :: r) = some ([], r) := by
  rw [basicBody]
  rfl

lemma basicBody_escape {d : Char} {r' : List Char} (h : escape? r = some (d, r')) :
    basicBody ('\\' :: r) = (basicBody r').map fun (cs, rest) => (d :: cs, rest) := by
  rw [basicBody, if_neg (by decide), if_pos rfl]
  split
  · rename_i d' r'' h'
    obtain ⟨rfl, rfl⟩ := Prod.mk.inj (Option.some.inj (h.symm.trans h'))
    rfl
  · rename_i h'
    simp [h] at h'

lemma basicBody_plain (hp : isPlain c = true) (hq : c ≠ '"') (hb : c ≠ '\\') :
    basicBody (c :: r) = (basicBody r).map fun (cs, rest) => (c :: cs, rest) := by
  rw [basicBody, if_neg hq, if_neg hb, if_pos hp]

/-- On one line every quote is escaped, and what is written is read back. -/
lemma basicBody_escapeFrom (s rest : List Char) :
    basicBody (Writer.escapeFrom false 0 0 s ++ '"' :: rest) = some (s, rest) := by
  induction s with
  | nil => exact basicBody_quote rest
  | cons c s ih =>
    by_cases hq : c = '"'
    · subst c
      show basicBody ('\\' :: '"' :: (Writer.escapeFrom false 0 0 s ++ '"' :: rest)) = _
      rw [basicBody_escape rfl, ih]
      rfl
    · rw [escapeFrom_cons 0 0 hq]
      rcases escapeChar_cases false hq with ⟨h, hp, hb⟩ | ⟨h, -, -⟩ | ⟨e, h, he⟩
      · rw [h, List.singleton_append, List.cons_append, basicBody_plain hp hq hb, ih]
        rfl
      · simp at h
      · rw [h, List.cons_append, List.cons_append, List.append_assoc,
          basicBody_escape (he _), ih]
        rfl

lemma literalBody_append (hs : ∀ c ∈ s, isPlain c = true ∧ c ≠ '\'') (rest : List Char) :
    literalBody (s ++ '\'' :: rest) = some (s, rest) := by
  induction s with
  | nil => rfl
  | cons c s ih =>
    obtain ⟨hp, hq⟩ := hs c (List.mem_cons_self ..)
    rw [List.cons_append, literalBody, if_neg hq, if_pos hp,
      ih fun c hc => hs c (List.mem_cons_of_mem _ hc)]
    rfl

/-! ### Where a delimiter is found -/

/-- At most `room` delimiter characters stand in front of a written text, followed by another
character or, where they are all of it, by its end. -/
def Guarded (q : Char) (room : Nat) (s w : List Char) : Prop :=
  ∃ k ≤ room, (s = List.replicate k q ∧ w = List.replicate k q) ∨
    ∃ d r, d ≠ q ∧ w = List.replicate k q ++ d :: r

lemma Guarded.nil (q : Char) (room : Nat) : Guarded q room [] [] := ⟨0, by omega, .inl ⟨rfl, rfl⟩⟩

lemma Guarded.other {room : Nat} {d : Char} {w : List Char} (hd : d ≠ q) :
    Guarded q room s (d :: w) := ⟨0, by omega, .inr ⟨d, w, hd, rfl⟩⟩

lemma Guarded.more {room : Nat} {w : List Char} (h : Guarded q room s w) :
    Guarded q (room + 1) (q :: s) (q :: w) := by
  obtain ⟨k, hk, ⟨rfl, rfl⟩ | ⟨d, r, hd, rfl⟩⟩ := h
  · exact ⟨k + 1, by omega, .inl ⟨rfl, rfl⟩⟩
  · exact ⟨k + 1, by omega, .inr ⟨d, r, hd, rfl⟩⟩

lemma closing?_end {k : Nat} (hk : k ≤ 2) (hr : rest.head? ≠ some q) :
    closing? q (List.replicate k q ++ q :: q :: q :: rest) = some (List.replicate k q, rest) := by
  obtain rfl | rfl | rfl : k = 0 ∨ k = 1 ∨ k = 2 := by omega
  · rcases rest with _ | ⟨d, _ | ⟨e, r⟩⟩
    · simp [closing?]
    · have hd : d ≠ q := by simpa using hr
      simp [closing?, hd]
    · have hd : d ≠ q := by simpa using hr
      simp [closing?, hd]
  · rcases rest with _ | ⟨d, r⟩
    · simp [closing?]
    · have hd : d ≠ q := by simpa using hr
      simp [closing?, hd]
  · simp [closing?, List.replicate_succ]

lemma closing?_early {k : Nat} (hk : k ≤ 2) {d : Char} (hd : d ≠ q) :
    closing? q (List.replicate k q ++ d :: r) = none := by
  obtain rfl | rfl | rfl : k = 0 ∨ k = 1 ∨ k = 2 := by omega
  · rcases r with _ | ⟨a, _ | ⟨b, r⟩⟩ <;> simp [closing?, hd]
  · rcases r with _ | ⟨a, r⟩ <;> simp [closing?, hd]
  · simp [closing?, hd, List.replicate_succ]

/-- After a guarded text the delimiter is found at once if that is all of the text, and otherwise
not yet. -/
lemma Guarded.closing? {w : List Char} (h : Guarded q 2 s w) (hr : rest.head? ≠ some q) :
    closing? q (w ++ q :: q :: q :: rest) = some (s, rest) ∨
      closing? q (w ++ q :: q :: q :: rest) = none := by
  obtain ⟨k, hk, ⟨rfl, rfl⟩ | ⟨d, r, hd, rfl⟩⟩ := h
  · exact .inl (closing?_end hk hr)
  · rw [List.append_assoc]
    exact .inr (closing?_early hk hd)

lemma Guarded.mono {room room' : Nat} {w : List Char} (h : Guarded q room s w)
    (hle : room ≤ room') : Guarded q room' s w := by
  obtain ⟨k, hk, h⟩ := h
  exact ⟨k, by omega, h⟩

/-! ### On several lines -/

lemma guarded_escapeFrom (lines : Bool) (most room : Nat) (s : List Char) :
    Guarded '"' room s (Writer.escapeFrom lines most room s) := by
  induction s generalizing room with
  | nil => exact .nil _ _
  | cons c s ih =>
    by_cases hq : c = '"'
    · subst c
      rcases room with _ | k
      · exact .other (by decide)
      · exact (ih k).more
    · obtain ⟨d, e, he, hd⟩ := escapeChar_head lines hq
      rw [escapeFrom_cons most room hq, he]
      exact .other hd

lemma multilineBasicBody_close {p : List Char × List Char} (h : closing? '"' s = some p) :
    multilineBasicBody s = some p := by
  rw [multilineBasicBody.eq_def, h]

lemma multilineBasicBody_escape {d : Char} {r' : List Char} (h : escape? r = some (d, r')) :
    multilineBasicBody ('\\' :: r) =
      (multilineBasicBody r').map fun (cs, rest) => (d :: cs, rest) := by
  have hc : closing? '"' ('\\' :: r) = none := closing?_early (k := 0) (by omega) (by decide)
  rw [multilineBasicBody, hc]
  simp only [if_pos]
  split
  · rename_i d' r'' h'
    obtain ⟨rfl, rfl⟩ := Prod.mk.inj (Option.some.inj (h.symm.trans h'))
    rfl
  · rename_i h'
    simp [h] at h'

lemma multilineBasicBody_plain (hc : closing? '"' (c :: r) = none) (hp : isPlain c = true)
    (hb : c ≠ '\\') : multilineBasicBody (c :: r) =
      (multilineBasicBody r).map fun (cs, rest) => (c :: cs, rest) := by
  rw [multilineBasicBody, hc]
  simp only
  rw [if_neg hb, if_pos hp]

lemma multilineBasicBody_newline : multilineBasicBody ('\n' :: r) =
    (multilineBasicBody r).map fun (cs, rest) => ('\n' :: cs, rest) := by
  have hc : closing? '"' ('\n' :: r) = none := closing?_early (k := 0) (by omega) (by decide)
  rw [multilineBasicBody, hc]
  simp only
  rw [if_neg (by decide), if_neg (by decide)]
  rfl

/-- Between three quotes each, what is written is read back. -/
lemma multilineBasicBody_escapeFrom (hr : rest.head? ≠ some '"') (s : List Char) {room : Nat}
    (hroom : room ≤ 2) :
    multilineBasicBody (Writer.escapeFrom true 2 room s ++ '"' :: '"' :: '"' :: rest) =
      some (s, rest) := by
  induction s generalizing room with
  | nil => exact multilineBasicBody_close (closing?_end (k := 0) (by omega) hr)
  | cons c s ih =>
    rcases ((guarded_escapeFrom true 2 room (c :: s)).mono hroom).closing? hr with
      hc | hc
    · exact multilineBasicBody_close hc
    by_cases hq : c = '"'
    · subst c
      rcases room with _ | k
      · show multilineBasicBody ('\\' :: '"' :: (Writer.escapeFrom true 2 2 s ++ _)) = _
        rw [multilineBasicBody_escape rfl, ih (Nat.le_refl 2)]
        rfl
      · have hk : k ≤ 2 := by omega
        change closing? '"' ('"' :: (Writer.escapeFrom true 2 k s ++ _)) = none at hc
        show multilineBasicBody ('"' :: (Writer.escapeFrom true 2 k s ++ _)) = _
        rw [multilineBasicBody_plain hc rfl (by decide), ih hk]
        rfl
    · rw [escapeFrom_cons 2 room hq] at hc ⊢
      rcases escapeChar_cases true hq with ⟨h, hp, hb⟩ | ⟨-, rfl, h⟩ | ⟨e, h, he⟩ <;>
        rw [h] at hc ⊢
      · rw [List.singleton_append, List.cons_append] at hc ⊢
        rw [multilineBasicBody_plain hc hp hb, ih (Nat.le_refl 2)]
        rfl
      · rw [List.singleton_append, List.cons_append, multilineBasicBody_newline,
          ih (Nat.le_refl 2)]
        rfl
      · rw [List.cons_append, List.cons_append, List.append_assoc,
          multilineBasicBody_escape (he _), ih (Nat.le_refl 2)]
        rfl

/-- No more than two `q` stand in a row, and no more than `room` at the front. -/
def ShortRuns (q : Char) : Nat → List Char → Prop
  | _, [] => True
  | room, c :: r => if c = q then ∃ k, room = k + 1 ∧ ShortRuns q k r else ShortRuns q 2 r

lemma ShortRuns.guarded {room : Nat} (h : ShortRuns q room s) : Guarded q room s s := by
  induction s generalizing room with
  | nil => exact .nil _ _
  | cons c s ih =>
    unfold ShortRuns at h
    split at h
    · rename_i hq
      subst c
      obtain ⟨k, rfl, h⟩ := h
      exact (ih h).more
    · exact .other (by assumption)

/-- How the length of the longest run is counted: the longest so far, and the one at the end. -/
def runStep (q : Char) (b : Nat × Nat) (c : Char) : Nat × Nat :=
  if c = q then (max b.1 (b.2 + 1), b.2 + 1) else (b.1, 0)

lemma longestRun_eq (q : Char) (s : List Char) :
    Writer.longestRun q s = (s.foldl (runStep q) (0, 0)).1 := rfl

lemma le_foldl_runStep (s : List Char) (b : Nat × Nat) : b.1 ≤ (s.foldl (runStep q) b).1 := by
  induction s generalizing b with
  | nil => exact Nat.le_refl _
  | cons c s ih =>
    refine le_trans ?_ (ih (runStep q b c))
    unfold runStep
    split
    · exact le_max_left _ _
    · exact Nat.le_refl _

lemma shortRuns_of_foldl (s : List Char) {b : Nat × Nat} (h : (s.foldl (runStep q) b).1 < 3) :
    ShortRuns q (2 - b.2) s := by
  induction s generalizing b with
  | nil => trivial
  | cons c s ih =>
    have hle := le_foldl_runStep (q := q) s (runStep q b c)
    have hs := ih (b := runStep q b c) h
    rw [List.foldl_cons] at h
    unfold ShortRuns
    split
    · rename_i hc
      simp only [runStep, if_pos hc] at hs hle h
      exact ⟨2 - (b.2 + 1), by omega, hs⟩
    · rename_i hc
      simp only [runStep, if_neg hc] at hs
      exact hs

lemma shortRuns_of_longestRun (h : Writer.longestRun q s < 3) : ShortRuns q 2 s :=
  shortRuns_of_foldl s (b := (0, 0)) (longestRun_eq q s ▸ h)

lemma multilineLiteralBody_close {p : List Char × List Char} (h : closing? '\'' s = some p) :
    multilineLiteralBody s = some p := by
  rw [multilineLiteralBody.eq_def, h]

lemma multilineLiteralBody_cons (hc : closing? '\'' (c :: r) = none)
    (hp : isPlain c = true ∨ c = '\n') : multilineLiteralBody (c :: r) =
      (multilineLiteralBody r).map fun (cs, rest) => (c :: cs, rest) := by
  rw [multilineLiteralBody.eq_def, hc]
  simp only
  by_cases hc' : isPlain c = true
  · rw [if_pos hc']
  · obtain rfl := hp.resolve_left hc'
    rw [if_neg hc']
    rfl

/-- Between three apostrophes each, a text stands as it is. -/
lemma multilineLiteralBody_append (hr : rest.head? ≠ some '\'')
    (hs : ∀ c ∈ s, isPlain c = true ∨ c = '\n') {room : Nat} (hroom : room ≤ 2)
    (h : ShortRuns '\'' room s) :
    multilineLiteralBody (s ++ '\'' :: '\'' :: '\'' :: rest) = some (s, rest) := by
  induction s generalizing room with
  | nil => exact multilineLiteralBody_close (closing?_end (k := 0) (by omega) hr)
  | cons c s ih =>
    rcases (h.guarded.mono hroom).closing? hr with hc | hc
    · exact multilineLiteralBody_close hc
    have hs' : ∀ d ∈ s, isPlain d = true ∨ d = '\n' := fun d hd => hs d (List.mem_cons_of_mem _ hd)
    rw [List.cons_append] at hc ⊢
    rw [multilineLiteralBody_cons hc (hs c (List.mem_cons_self ..))]
    unfold ShortRuns at h
    split at h
    · obtain ⟨k, rfl, h⟩ := h
      rw [ih hs' (by omega) h]
      rfl
    · rw [ih hs' (Nat.le_refl 2) h]
      rfl

/-! ### Every form -/

lemma text_some (s rest : List Char) : text (some (s, rest)) = some (String.ofList s, rest) := rfl

/-- A newline is written after the delimiter just when it is needed, and always dropped. -/
lemma afterOpening_opening (delimiter w : List Char)
    (hw : s.contains '\n' = false → newline? w = none) :
    ∃ r, Writer.opening delimiter s ++ w = delimiter ++ r ∧ afterOpening r = w := by
  unfold Writer.opening
  cases hs : s.contains '\n'
  · refine ⟨w, rfl, ?_⟩
    rw [afterOpening, hw hs]
    rfl
  · exact ⟨'\n' :: w, by simp, rfl⟩

lemma newline?_eq_none (hn : c ≠ '\n') (hr : c ≠ '\r') (r : List Char) :
    newline? (c :: r) = none := by
  unfold newline?
  split
  · rename_i h
    exact absurd (List.cons.inj h).1 hn
  · rename_i h
    exact absurd (List.cons.inj h).1 hr
  · rfl

lemma newline?_of_isPlain (h : isPlain c = true) (r : List Char) : newline? (c :: r) = none := by
  refine newline?_eq_none ?_ ?_ r
  · rintro rfl
    simp [isPlain] at h
  · rintro rfl
    simp [isPlain] at h

lemma newline?_escape (hs : s.contains '\n' = false) (r : List Char) :
    newline? (Writer.escape true s ++ '"' :: r) = none := by
  rcases s with _ | ⟨c, s⟩
  · exact newline?_of_isPlain rfl r
  · have hc : c ≠ '\n' := by
      rintro rfl
      simp at hs
    by_cases hq : c = '"'
    · subst c
      exact newline?_of_isPlain rfl _
    · show newline? (Writer.escapeFrom true 2 2 (c :: s) ++ '"' :: r) = none
      rw [escapeFrom_cons 2 2 hq]
      rcases escapeChar_cases true hq with ⟨h, hp, -⟩ | ⟨-, hn, -⟩ | ⟨e, h, -⟩
      · rw [h]
        exact newline?_of_isPlain hp _
      · exact absurd hn hc
      · rw [h]
        exact newline?_of_isPlain rfl _

lemma string?_multilineBasic (hr : rest.head? ≠ some '"') (s : List Char) :
    string? (Writer.opening Writer.quotes s ++ Writer.escape true s ++ Writer.quotes ++ rest) =
      some (String.ofList s, rest) := by
  have hnl : s.contains '\n' = false →
      newline? (Writer.escape true s ++ '"' :: '"' :: '"' :: rest) = none :=
    fun h => newline?_escape h _
  obtain ⟨r, h, hr'⟩ := afterOpening_opening Writer.quotes _ hnl
  have hw : Writer.opening Writer.quotes s ++ Writer.escape true s ++ Writer.quotes ++ rest =
      Writer.quotes ++ r := by
    rw [← h]
    simp [Writer.quotes]
  rw [hw]
  show text (multilineBasicBody (afterOpening r)) = _
  rw [hr']
  exact (congrArg text (multilineBasicBody_escapeFrom hr s (Nat.le_refl 2))).trans
    (text_some s rest)

lemma string?_multilineLiteral (hr : rest.head? ≠ some '\'')
    (hs : ∀ c ∈ s, isPlain c = true ∨ c = '\n') (h : ShortRuns '\'' 2 s) :
    string? (Writer.opening Writer.apostrophes s ++ s ++ Writer.apostrophes ++ rest) =
      some (String.ofList s, rest) := by
  have hnl : s.contains '\n' = false → newline? (s ++ '\'' :: '\'' :: '\'' :: rest) = none := by
    intro hn
    rcases s with _ | ⟨c, s⟩
    · exact newline?_of_isPlain rfl _
    · have hc : c ≠ '\n' := by
        rintro rfl
        simp at hn
      exact newline?_of_isPlain ((hs c (List.mem_cons_self ..)).resolve_right hc) _
  obtain ⟨r, ho, hr'⟩ := afterOpening_opening Writer.apostrophes _ hnl
  have hw : Writer.opening Writer.apostrophes s ++ s ++ Writer.apostrophes ++ rest =
      Writer.apostrophes ++ r := by
    rw [← ho]
    simp [Writer.apostrophes]
  rw [hw]
  show text (multilineLiteralBody (afterOpening r)) = _
  rw [hr']
  exact (congrArg text (multilineLiteralBody_append hr hs (Nat.le_refl 2) h)).trans
    (text_some s rest)

/-- Three quotes begin a string on several lines, which two quotes and another character do not. -/
lemma string?_quote (hc : ∀ r', r ≠ '"' :: '"' :: r') :
    string? ('"' :: r) = text (basicBody r) := by
  unfold string?
  split
  · rename_i h
    exact absurd (List.cons.inj h).2 (hc _)
  · rename_i h
    simp at h
  · rfl

lemma string?_apostrophe (hc : ∀ r', r ≠ '\'' :: '\'' :: r') :
    string? ('\'' :: r) = text (literalBody r) := by
  unfold string?
  split
  · rename_i h
    simp at h
  · rename_i h
    exact absurd (List.cons.inj h).2 (hc _)
  · rfl

lemma string?_basic (hr : rest.head? ≠ some '"') (s : List Char) :
    string? ('"' :: Writer.escape false s ++ ['"'] ++ rest) = some (String.ofList s, rest) := by
  have hw : '"' :: Writer.escape false s ++ ['"'] ++ rest =
      '"' :: (Writer.escapeFrom false 0 0 s ++ '"' :: rest) := by
    simp [Writer.escape]
  have hne : ∀ r', Writer.escapeFrom false 0 0 s ++ '"' :: rest ≠ '"' :: '"' :: r' := by
    intro r' h
    rcases s with _ | ⟨c, s⟩
    · obtain rfl : rest = '"' :: r' := (List.cons.inj h).2
      simp at hr
    · by_cases hq : c = '"'
      · subst c
        exact absurd (List.cons.inj h).1 (by decide)
      · obtain ⟨d, e, he, hd⟩ := escapeChar_head false hq
        rw [escapeFrom_cons 0 0 hq, he] at h
        exact hd (List.cons.inj h).1
  rw [hw, string?_quote hne, basicBody_escapeFrom]
  rfl

lemma string?_literal (hs : ∀ c ∈ s, isPlain c = true ∧ c ≠ '\'') (hne : s ≠ []) :
    string? ('\'' :: s ++ ['\''] ++ rest) = some (String.ofList s, rest) := by
  have hw : '\'' :: s ++ ['\''] ++ rest = '\'' :: (s ++ '\'' :: rest) := by simp
  have hne' : ∀ r', s ++ '\'' :: rest ≠ '\'' :: '\'' :: r' := by
    intro r' h
    obtain ⟨c, s, rfl⟩ := List.exists_cons_of_ne_nil hne
    exact (hs c (List.mem_cons_self ..)).2 (List.cons.inj h).1
  rw [hw, string?_apostrophe hne', literalBody_append hs]
  rfl

lemma isPlain_of_any_eq_false (h : s.any Writer.isControl = false) :
    ∀ c ∈ s, isPlain c = true ∨ c = '\n' := by
  intro c hc
  by_cases hn : c = '\n'
  · exact .inr hn
  · have hctl : Writer.isControl c = false := by
      simpa using List.any_eq_false.mp h c hc
    exact .inl (isPlain_of_not_isControl hctl hn)

lemma formOf_literal (h : Writer.formOf s = .literal) :
    s.any Writer.isControl = false ∧ s.contains '\n' = false ∧ s.contains '\'' = false ∧
      s ≠ [] := by
  unfold Writer.formOf at h
  simp only at h
  split at h
  · simp at h
  rename_i hbasic
  split at h
  · rename_i hlit
    simp only [Bool.and_eq_true, Bool.not_eq_true'] at hlit
    refine ⟨hlit.1.1, hlit.1.2, hlit.2, ?_⟩
    rintro rfl
    simp at hbasic
  split at h
  · simp at h
  split at h <;> simp at h

lemma formOf_multilineLiteral (h : Writer.formOf s = .multilineLiteral) :
    s.any Writer.isControl = false ∧ Writer.longestRun '\'' s < 3 := by
  unfold Writer.formOf at h
  simp only at h
  split at h
  · simp at h
  split at h
  · simp at h
  split at h
  · simp at h
  split at h
  · rename_i hml
    simpa using hml
  · simp at h

/-- **Round trip of strings**: whatever the text, what is written for it is read back, with
anything after it that is no quote. -/
theorem string?_string (s : List Char) (hq : rest.head? ≠ some '"')
    (ha : rest.head? ≠ some '\'') :
    string? (Writer.string s ++ rest) = some (String.ofList s, rest) := by
  unfold Writer.string
  split
  · exact string?_basic hq s
  · rename_i hform
    obtain ⟨hctl, hn, hapo, hne⟩ := formOf_literal hform
    refine string?_literal (fun c hc => ⟨?_, ?_⟩) hne
    · refine (isPlain_of_any_eq_false hctl c hc).resolve_right ?_
      rintro rfl
      simp_all
    · rintro rfl
      simp_all
  · exact string?_multilineBasic hq s
  · rename_i hform
    obtain ⟨hctl, hrun⟩ := formOf_multilineLiteral hform
    exact string?_multilineLiteral ha (isPlain_of_any_eq_false hctl) (shortRuns_of_longestRun hrun)
  · split
    · exact string?_multilineBasic hq s
    · exact string?_basic hq s

/-- What is written for a string begins with a quote or an apostrophe. -/
lemma string_head (s : List Char) :
    ∃ d r, Writer.string s = d :: r ∧ (d = '"' ∨ d = '\'') := by
  have hopen : ∀ (d : Char) (ds w : List Char), ∃ r, Writer.opening (d :: ds) s ++ w = d :: r := by
    intro d ds w
    unfold Writer.opening
    split <;> exact ⟨_, rfl⟩
  unfold Writer.string
  split
  · exact ⟨'"', _, rfl, .inl rfl⟩
  · exact ⟨'\'', _, rfl, .inr rfl⟩
  · obtain ⟨r, h⟩ := hopen '"' ['"', '"'] (Writer.escape true s ++ Writer.quotes)
    exact ⟨'"', r, by rw [List.append_assoc]; exact h, .inl rfl⟩
  · obtain ⟨r, h⟩ := hopen '\'' ['\'', '\''] (s ++ Writer.apostrophes)
    exact ⟨'\'', r, by rw [List.append_assoc]; exact h, .inr rfl⟩
  · split
    · obtain ⟨r, h⟩ := hopen '"' ['"', '"'] (Writer.escape true s ++ Writer.quotes)
      exact ⟨'"', r, by rw [List.append_assoc]; exact h, .inl rfl⟩
    · exact ⟨'"', _, rfl, .inl rfl⟩

end PinnedBuild.Toml
