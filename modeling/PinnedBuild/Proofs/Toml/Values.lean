import Mathlib
import PinnedBuild.Proofs.Toml.Strings
import PinnedBuild.Toml.Reader

/-!
Arrays of strings, booleans and numbers are read back as they were written.
-/

namespace PinnedBuild.Toml

variable {c : Char} {r rest : List Char} {depth : Nat}

lemma value?_scalar (hb : c ≠ '[') (hc : c ≠ '\x7b') (depth : Nat) (r : List Char) :
    value? depth (c :: r) = scalar? (c :: r) := by
  unfold value?
  split
  · rename_i h
    exact absurd (List.cons.inj h).1 hb
  · rename_i h
    exact absurd (List.cons.inj h).1 hc
  · rfl

lemma string?_eq_none (hq : c ≠ '"') (ha : c ≠ '\'') (r : List Char) : string? (c :: r) = none := by
  unfold string?
  split
  · rename_i h
    exact absurd (List.cons.inj h).1 hq
  · rename_i h
    exact absurd (List.cons.inj h).1 ha
  · unfold lineString?
    split
    · rename_i h
      exact absurd (List.cons.inj h).1 hq
    · rename_i h
      exact absurd (List.cons.inj h).1 ha
    · rfl

lemma value?_string (depth : Nat) (s rest : List Char) (hq : rest.head? ≠ some '"')
    (ha : rest.head? ≠ some '\'') :
    value? depth (Writer.string s ++ rest) = some (.string (String.ofList s), rest) := by
  have hs := string?_string s hq ha
  obtain ⟨d, w, hw, hd⟩ := string_head s
  rw [hw, List.cons_append] at hs ⊢
  have hb : d ≠ '[' := by rcases hd with rfl | rfl <;> decide
  have hc : d ≠ '\x7b' := by rcases hd with rfl | rfl <;> decide
  rw [value?_scalar hb hc, scalar?, hs]
  rfl

lemma value?_boolean (depth : Nat) (b : Bool) (rest : List Char) :
    value? depth (Writer.boolean b ++ rest) = some (.boolean b, rest) := by
  cases b
  · show value? depth ('f' :: 'a' :: 'l' :: 's' :: 'e' :: rest) = _
    rw [value?_scalar (by decide) (by decide), scalar?, string?_eq_none (by decide) (by decide)]
    rfl
  · show value? depth ('t' :: 'r' :: 'u' :: 'e' :: rest) = _
    rw [value?_scalar (by decide) (by decide), scalar?, string?_eq_none (by decide) (by decide)]
    rfl

/-! ### Arrays -/

lemma skipLayout_blank (s : List Char) : skipLayout (' ' :: s) = skipLayout s := by
  have hb : skipBlanks (' ' :: s) = skipBlanks s := rfl
  rw [skipLayout.eq_def, skipLayout.eq_def s, hb]

lemma skipLayout_newline (s : List Char) : skipLayout ('\n' :: s) = skipLayout s := by
  rw [skipLayout.eq_def]
  rfl

lemma skipBlanks_cons (hb : isBlank c = false) (r : List Char) : skipBlanks (c :: r) = c :: r := by
  rw [skipBlanks, List.dropWhile_cons_of_neg (by simp [hb])]

lemma skipComment_cons (hc : c ≠ '#') (r : List Char) : skipComment (c :: r) = c :: r := by
  unfold skipComment
  split
  · rename_i h
    exact absurd (List.cons.inj h).1 hc
  · rfl

lemma skipLayout_cons (hp : isPlain c = true) (hb : isBlank c = false) (hc : c ≠ '#')
    (r : List Char) : skipLayout (c :: r) = c :: r := by
  rw [skipLayout.eq_def, skipBlanks_cons hb, skipComment_cons hc]
  split
  · rename_i h
    simp [newline?_of_isPlain hp] at h
  · rfl

lemma skipLayout_string (s : List Char) :
    skipLayout (Writer.string s ++ rest) = Writer.string s ++ rest := by
  obtain ⟨d, w, hw, hd⟩ := string_head s
  rw [hw, List.cons_append]
  rcases hd with rfl | rfl <;> exact skipLayout_cons (by decide) (by decide) (by decide) _

lemma elements?_nil (value? : List Char → Option (Value × List Char)) {s : List Char}
    (hs : skipLayout s = ']' :: rest) : elements? value? s = some ([], rest) := by
  rw [elements?.eq_def, hs]
  rfl

/-- The last element, after any layout. -/
lemma elements?_last {s : List Char} (x : List Char)
    (hs : skipLayout s = Writer.string x ++ ']' :: rest) :
    elements? (value? depth) s = some ([.string (String.ofList x)], rest) := by
  have hv := value?_string depth x (']' :: rest) (by simp) (by simp)
  obtain ⟨d, w, hw, hd⟩ := string_head x
  rw [elements?.eq_def, hs]
  rw [hw, List.cons_append] at hv ⊢
  have hne : d ≠ ']' := by rcases hd with rfl | rfl <;> decide
  split
  · rename_i h
    exact absurd (List.cons.inj h).1 hne
  · rw [hv]
    simp only
    rw [skipLayout_cons (by decide) (by decide) (by decide)]
    rfl

/-- An element that others may follow. -/
lemma elements?_more {s : List Char} (x : List Char)
    (hs : skipLayout s = Writer.string x ++ ',' :: rest) (hl : rest.length < s.length) :
    elements? (value? depth) s =
      (elements? (value? depth) rest).map fun (vs, r) => (.string (String.ofList x) :: vs, r) := by
  have hv := value?_string depth x (',' :: rest) (by simp) (by simp)
  obtain ⟨d, w, hw, hd⟩ := string_head x
  rw [elements?.eq_def, hs]
  rw [hw, List.cons_append] at hv ⊢
  have hne : d ≠ ']' := by rcases hd with rfl | rfl <;> decide
  split
  · rename_i h
    exact absurd (List.cons.inj h).1 hne
  · rw [hv]
    simp only
    rw [skipLayout_cons (by decide) (by decide) (by decide)]
    simp only
    rw [if_pos hl]

/-- Elements that stand on a line each. -/
lemma elements?_lines (depth : Nat) (l : List String) (rest : List Char) :
    elements? (value? depth) ('\n' :: l.flatMap (fun x => "    ".toList ++ Writer.string x.toList ++
      [',', '\n']) ++ ']' :: rest) = some (l.map .string, rest) := by
  induction l with
  | nil =>
    refine elements?_nil _ ?_
    rw [List.cons_append, skipLayout_newline]
    exact skipLayout_cons rfl rfl (by decide) rest
  | cons x l ih =>
    have hs : skipLayout ('\n' :: (x :: l).flatMap (fun x => "    ".toList ++
        Writer.string x.toList ++ [',', '\n']) ++ ']' :: rest) =
        Writer.string x.toList ++ ',' :: ('\n' :: l.flatMap (fun x => "    ".toList ++
          Writer.string x.toList ++ [',', '\n']) ++ ']' :: rest) := by
      rw [List.cons_append, skipLayout_newline, List.flatMap_cons]
      show skipLayout
        (' ' :: ' ' :: ' ' :: ' ' :: (Writer.string x.toList ++ [',', '\n']) ++ _ ++ _) = _
      simp only [List.cons_append, skipLayout_blank, List.append_assoc, skipLayout_string]
      rfl
    have hl : ('\n' :: l.flatMap (fun x => "    ".toList ++ Writer.string x.toList ++
        [',', '\n']) ++ ']' :: rest).length < ('\n' :: (x :: l).flatMap (fun x =>
          "    ".toList ++ Writer.string x.toList ++ [',', '\n']) ++ ']' :: rest).length := by
      rw [List.flatMap_cons]
      simp only [List.length_cons, List.length_append]
      omega
    rw [elements?_more x.toList hs hl, ih]
    simp

/-- Arrays of any number of strings. -/
lemma value?_strings (depth : Nat) (l : List String) (rest : List Char) :
    value? (depth + 1) (Writer.strings l ++ rest) =
      some (.array false (l.map .string), rest) := by
  have hread : elements? (value? depth) ((Writer.strings l).tail ++ rest) =
      some (l.map .string, rest) := by
    rcases l with _ | ⟨x, _ | ⟨y, l⟩⟩
    · exact elements?_nil _ (skipLayout_cons rfl rfl (by decide) _)
    · show elements? (value? depth) (Writer.string x.toList ++ [']'] ++ rest) = _
      rw [List.append_assoc, List.singleton_append,
        elements?_last x.toList (skipLayout_string x.toList)]
      simp
    · have h := elements?_lines depth (x :: y :: l) rest
      show elements? (value? depth) (('\n' :: (x :: y :: l).flatMap _ ++ [']']) ++ rest) = _
      simpa using h
  have hw : Writer.strings l = '[' :: (Writer.strings l).tail := by
    rcases l with _ | ⟨x, _ | ⟨y, l⟩⟩ <;> rfl
  rw [hw, List.cons_append]
  show (elements? (value? depth) _).map _ = _
  rw [hread]
  rfl

/-! ### Numbers -/

/-- Nothing stands here that a number could go on with. -/
def EndsNumber (rest : List Char) : Prop :=
  ∀ c ∈ rest.head?, isBare c = false ∧ c ≠ '.' ∧ c ≠ ':'

/-- The digits of a number without needless zeros, with or without a sign. -/
inductive Decimal : Int → List Char → Prop
  | plain (n : Nat) : Decimal n (Nat.toDigits 10 n)
  | plus (n : Nat) : Decimal n ('+' :: Nat.toDigits 10 n)
  | minus (n : Nat) : Decimal (-n) ('-' :: Nat.toDigits 10 n)

lemma EndsNumber.head (he : EndsNumber rest) (hc : isBare c = true ∨ c = '.' ∨ c = ':') :
    rest.head? ≠ some c := by
  intro h
  obtain ⟨hb, hp, hq⟩ := he c h
  rcases hc with hc | hc | hc
  · simp [hb] at hc
  · exact hp hc
  · exact hq hc

lemma isBare_of_isDigit (h : c.isDigit = true) : isBare c = true := by
  simp [isBare, Char.isAlphanum, h]

section

variable {ds : List Char} (hd : ∀ d ∈ ds, d.isDigit = true) (he : EndsNumber rest)

include hd

lemma expect_digits (hc : c.isDigit = false) (hn : rest.head? ≠ some c) :
    expect c (ds ++ rest) = none := by
  rcases ds with _ | ⟨d, ds⟩
  · rcases rest with _ | ⟨e, rest⟩
    · rfl
    · have hne : e ≠ c := by simpa using hn
      simp [expect, hne]
  · have hne : d ≠ c := by
      rintro rfl
      simp [hd d (List.mem_cons_self ..)] at hc
    simp [expect, hne]

lemma numberOf_digits : numberOf 10 ds = Nat.ofDigitChars 10 ds 0 := by
  have hfold : ∀ n, ds.foldl (fun n c => n * 10 + digitValue c) n = Nat.ofDigitChars 10 ds n := by
    induction ds with
    | nil => exact fun n => rfl
    | cons d ds ih =>
      intro n
      have h := hd d (List.mem_cons_self ..)
      have hv : n * 10 + digitValue d = 10 * n + (d.toNat - 48) := by
        rw [digitValue, if_pos h, Nat.mul_comm]
      rw [List.foldl_cons, hv, ih fun e he => hd e (List.mem_cons_of_mem _ he)]
      rfl
  exact hfold 0

include he

lemma exactly_digits {n : Nat} {front : List Char}
    (h : exactly n Char.isDigit (ds ++ rest) = some (front, r)) :
    ∃ ds', (∀ d ∈ ds', d.isDigit = true) ∧ r = ds' ++ rest := by
  unfold exactly at h
  simp only at h
  split at h
  · rename_i hn
    obtain ⟨-, rfl⟩ := Prod.mk.inj (Option.some.inj h)
    by_cases hle : n ≤ ds.length
    · refine ⟨ds.drop n, fun d hm => hd d (List.mem_of_mem_drop hm), ?_⟩
      rw [List.drop_append_of_le_length hle]
    · rcases rest with _ | ⟨c, rest⟩
      · have hlen := hn.1
        rw [List.append_nil, List.length_take] at hlen
        omega
      · have hmem : c ∈ (ds ++ c :: rest).take n := by
          rw [List.take_append]
          refine List.mem_append_right _ ?_
          rw [show n - ds.length = (n - ds.length - 1) + 1 by omega, List.take_succ_cons]
          exact List.mem_cons_self ..
        have hdigit := isBare_of_isDigit (List.all_eq_true.mp hn.2 _ hmem)
        exact absurd rfl (he.head (.inl hdigit))
  · simp at h

lemma field?_digits {n low high v : Nat} (h : field? n low high (ds ++ rest) = some (v, r)) :
    ∃ ds', (∀ d ∈ ds', d.isDigit = true) ∧ r = ds' ++ rest := by
  unfold field? at h
  rcases hx : exactly n Char.isDigit (ds ++ rest) with _ | ⟨front, r'⟩ <;> rw [hx] at h
  · simp at h
  · simp only [Option.bind_eq_bind, Option.bind_some] at h
    split at h
    · obtain ⟨-, rfl⟩ := Prod.mk.inj (Option.some.inj h)
      exact exactly_digits hd he hx
    · simp at h

/-- Digits alone are no date and no time. -/
lemma datetime?_digits : datetime? (ds ++ rest) = none := by
  have hdate : date? (ds ++ rest) = none := by
    unfold date?
    rcases h : field? 4 0 9999 (ds ++ rest) with _ | ⟨v, r⟩
    · rfl
    · obtain ⟨ds', hd', rfl⟩ := field?_digits hd he h
      simp [expect_digits hd' (c := '-') (by decide) (he.head (.inl (by decide)))]
  have htime : time? (ds ++ rest) = none := by
    unfold time?
    rcases h : field? 2 0 23 (ds ++ rest) with _ | ⟨v, r⟩
    · rfl
    · obtain ⟨ds', hd', rfl⟩ := field?_digits hd he h
      simp [expect_digits hd' (c := ':') (by decide) (he.head (.inr (.inr rfl)))]
  unfold datetime?
  rw [hdate, htime]
  rfl

lemma moreDigits_digits : moreDigits Char.isDigit (ds ++ rest) = (ds, rest) := by
  induction ds with
  | nil =>
    rw [List.nil_append]
    unfold moreDigits
    split
    · rfl
    · exact absurd rfl (he.head (.inl (by decide)))
    · rename_i c r _
      rw [if_neg]
      intro hc
      exact absurd rfl (he.head (.inl (isBare_of_isDigit hc)))
  | cons d ds ih =>
    have h := hd d (List.mem_cons_self ..)
    have hu : d ≠ '_' := by
      rintro rfl
      simp at h
    rw [List.cons_append]
    unfold moreDigits
    split
    · rename_i heq
      simp at heq
    · rename_i heq
      exact absurd (List.cons.inj heq).1 hu
    · rename_i heq
      obtain ⟨rfl, rfl⟩ := List.cons.inj heq
      rw [if_pos h, ih fun e he => hd e (List.mem_cons_of_mem _ he)]

lemma digits?_digits (hne : ds ≠ []) : digits? Char.isDigit (ds ++ rest) = some (ds, rest) := by
  obtain ⟨d, ds, rfl⟩ := List.exists_cons_of_ne_nil hne
  rw [List.cons_append, digits?, if_pos (hd d (List.mem_cons_self ..)),
    moreDigits_digits (fun e he => hd e (List.mem_cons_of_mem _ he)) he]

end

lemma toDigits_head {n : Nat} (h : 0 < n) : ∃ c ds, Nat.toDigits 10 n = c :: ds ∧ c ≠ '0' := by
  induction n using Nat.strong_induction_on with
  | _ n ih =>
    by_cases hlt : n < 10
    · refine ⟨n.digitChar, [], Nat.toDigits_of_lt_base hlt, ?_⟩
      interval_cases n <;> decide
    · obtain ⟨c, ds, hc, hne⟩ := ih (n / 10) (by omega) (by omega)
      refine ⟨c, ds ++ [(n % 10).digitChar], ?_, hne⟩
      rw [Nat.toDigits_of_base_le (by decide) (by omega), hc]
      rfl

/-- What the digits of a number look like: a lone zero, or no zero in front. -/
lemma toDigits_cases (n : Nat) :
    Nat.toDigits 10 n = ['0'] ∨ ∃ c ds, Nat.toDigits 10 n = c :: ds ∧ c ≠ '0' := by
  rcases Nat.eq_zero_or_pos n with rfl | h
  · exact .inl (Nat.toDigits_zero 10)
  · exact .inr (toDigits_head h)

lemma isDigit_toDigits (n : Nat) : ∀ d ∈ Nat.toDigits 10 n, d.isDigit = true :=
  fun _ hd => Nat.isDigit_of_mem_toDigits (by decide) (by decide) hd

lemma wholeDigits?_toDigits (n : Nat) (he : EndsNumber rest) :
    wholeDigits? (Nat.toDigits 10 n ++ rest) = some (Nat.toDigits 10 n, rest) := by
  have hd := digits?_digits (isDigit_toDigits n) he Nat.toDigits_ne_nil
  rcases toDigits_cases n with h | ⟨c, ds, h, hc⟩ <;> rw [h] at hd ⊢
  · rfl
  · rw [List.cons_append] at hd ⊢
    unfold wholeDigits?
    split
    · rename_i heq
      exact absurd (List.cons.inj heq).1 hc
    · exact hd

lemma sign_toDigits (n : Nat) (rest : List Char) :
    sign (Nat.toDigits 10 n ++ rest) = (false, Nat.toDigits 10 n ++ rest) := by
  obtain ⟨c, ds, h⟩ := List.exists_cons_of_ne_nil (Nat.toDigits_ne_nil (n := n) (b := 10))
  have hc := isDigit_toDigits n c (by rw [h]; exact List.mem_cons_self ..)
  rw [h, List.cons_append]
  unfold sign
  split
  · rename_i heq
    obtain ⟨rfl, -⟩ := List.cons.inj heq
    simp at hc
  · rename_i heq
    obtain ⟨rfl, -⟩ := List.cons.inj heq
    simp at hc
  · rfl

namespace Decimal

variable {n : Int} {cs : List Char}

lemma sign (h : Decimal n cs) (rest : List Char) : ∃ negative k, n = signed negative k ∧
    Toml.sign (cs ++ rest) = (negative, Nat.toDigits 10 k ++ rest) := by
  rcases h with ⟨k⟩ | ⟨k⟩ | ⟨k⟩
  · exact ⟨false, k, rfl, sign_toDigits k rest⟩
  · exact ⟨false, k, rfl, rfl⟩
  · exact ⟨true, k, rfl, rfl⟩

lemma head (h : Decimal n cs) : ∃ c r, cs = c :: r ∧ (c.isDigit = true ∨ c = '+' ∨ c = '-') := by
  rcases h with ⟨k⟩ | ⟨k⟩ | ⟨k⟩
  · obtain ⟨c, ds, h⟩ := List.exists_cons_of_ne_nil (Nat.toDigits_ne_nil (n := k) (b := 10))
    exact ⟨c, ds, h, .inl (isDigit_toDigits k c (by rw [h]; exact List.mem_cons_self ..))⟩
  · exact ⟨'+', _, rfl, .inr (.inl rfl)⟩
  · exact ⟨'-', _, rfl, .inr (.inr rfl)⟩

/-- A number begins with no other character. -/
lemma head_ne (h : Decimal n cs) : ∃ d r, cs = d :: r ∧
    ∀ c, c.isDigit = false → c ≠ '+' → c ≠ '-' → d ≠ c := by
  obtain ⟨d, r, rfl, hd⟩ := h.head
  refine ⟨d, r, rfl, ?_⟩
  rintro c hc hp hm rfl
  rcases hd with hd | hd | hd
  · simp [hd] at hc
  · exact hp hd
  · exact hm hd

/-- A number without point or exponent is no floating-point number. -/
lemma float? (h : Decimal n cs) (he : EndsNumber rest) : Toml.float? (cs ++ rest) = none := by
  obtain ⟨negative, k, -, hs⟩ := h.sign rest
  have hdec : decimalFloat? (cs ++ rest) = none := by
    unfold decimalFloat?
    rw [hs]
    simp only [wholeDigits?_toDigits k he, Option.bind_eq_bind, Option.bind_some]
    have hexp : exponent? rest = none := by
      rcases rest with _ | ⟨c, r⟩
      · rfl
      · refine if_neg ?_
        rintro (rfl | rfl)
        · exact he.head (.inl (by decide)) rfl
        · exact he.head (.inl (by decide)) rfl
    split
    · exact absurd rfl (he.head (.inr (.inl rfl)))
    · rw [hexp]
      rfl
  have hspecial : specialFloat? (cs ++ rest) = none := by
    unfold specialFloat?
    rw [hs]
    obtain ⟨c, ds, hk⟩ := List.exists_cons_of_ne_nil (Nat.toDigits_ne_nil (n := k) (b := 10))
    have hc := isDigit_toDigits k c (by rw [hk]; exact List.mem_cons_self ..)
    rw [hk, List.cons_append]
    split
    · rename_i heq
      obtain ⟨rfl, -⟩ := List.cons.inj (Prod.mk.inj heq).2
      simp at hc
    · rename_i heq
      obtain ⟨rfl, -⟩ := List.cons.inj (Prod.mk.inj heq).2
      simp at hc
    · rfl
  rw [Toml.float?, hdec, hspecial]
  rfl

/-- A sign and digits are read as a number to base ten. -/
lemma integer?_eq (h : Decimal n cs) (he : EndsNumber rest) :
    Toml.integer? (cs ++ rest) = (do
      let (negative, r) := Toml.sign (cs ++ rest)
      let (ds, rest) ← wholeDigits? r
      let n ← inRange? (signed negative (numberOf 10 ds))
      return (n, rest)) := by
  have hbase : ∀ x r, isBare x = true → cs ++ rest = '0' :: x :: r → x.isDigit = true := by
    intro x r hx heq
    rcases h with ⟨k⟩ | ⟨k⟩ | ⟨k⟩
    · rcases toDigits_cases k with hk | ⟨c, ds, hk, hc⟩ <;> rw [hk] at heq
      · obtain rfl : rest = x :: r := (List.cons.inj heq).2
        exact absurd rfl (he.head (.inl hx))
      · exact absurd (List.cons.inj heq).1 hc
    · exact absurd (List.cons.inj heq).1 (by decide)
    · exact absurd (List.cons.inj heq).1 (by decide)
  unfold Toml.integer?
  split
  · rename_i heq
    exact absurd (hbase _ _ (by decide) heq) (by decide)
  · rename_i heq
    exact absurd (hbase _ _ (by decide) heq) (by decide)
  · rename_i heq
    exact absurd (hbase _ _ (by decide) heq) (by decide)
  · rfl

lemma integer? (h : Decimal n cs) (he : EndsNumber rest) :
    Toml.integer? (cs ++ rest) = (inRange? n).map fun n => (n, rest) := by
  obtain ⟨negative, k, rfl, hs⟩ := h.sign rest
  have hnum : numberOf 10 (Nat.toDigits 10 k) = k := by
    rw [numberOf_digits (isDigit_toDigits k), Nat.ofDigitChars_ten_toDigits]
  rw [h.integer?_eq he, hs]
  simp only [wholeDigits?_toDigits k he, hnum, Option.bind_eq_bind, Option.bind_some]
  rcases inRange? (signed negative k) with _ | m <;> rfl

lemma boolean? (h : Decimal n cs) (rest : List Char) : Toml.boolean? (cs ++ rest) = none := by
  obtain ⟨d, r, rfl, hd⟩ := h.head_ne
  have htrue : expect 't' (d :: r ++ rest) = none :=
    if_neg (hd 't' (by decide) (by decide) (by decide))
  have hfalse : expect 'f' (d :: r ++ rest) = none :=
    if_neg (hd 'f' (by decide) (by decide) (by decide))
  show (((expect 't' (d :: r ++ rest)).bind _).map _).or
    (((expect 'f' (d :: r ++ rest)).bind _).map _) = none
  rw [htrue, hfalse]
  rfl

lemma exactly_sign (n : Nat) {c : Char} (hc : c.isDigit = false) (r : List Char) :
    exactly (n + 1) Char.isDigit (c :: r) = none := by
  unfold exactly
  rw [List.take_succ_cons]
  exact if_neg (by simp [hc])

lemma datetime? (h : Decimal n cs) (he : EndsNumber rest) : Toml.datetime? (cs ++ rest) = none := by
  have hsign : ∀ c r, c.isDigit = false → Toml.datetime? (c :: r) = none := by
    intro c r hc
    unfold Toml.datetime? date? time? field?
    rw [exactly_sign 3 hc, exactly_sign 1 hc]
    rfl
  rcases h with ⟨k⟩ | ⟨k⟩ | ⟨k⟩
  · exact datetime?_digits (isDigit_toDigits k) he
  · exact hsign _ _ (by decide)
  · exact hsign _ _ (by decide)

/-- A number is read as an integer, or not at all if it is none of 64 bits. -/
lemma value? (h : Decimal n cs) (he : EndsNumber rest) (depth : Nat) :
    Toml.value? depth (cs ++ rest) = (inRange? n).map fun n => (.integer n, rest) := by
  have hb := h.boolean? rest
  have ht := h.datetime? he
  have hf := h.float? he
  have hi := h.integer? he
  obtain ⟨d, r, rfl, hd⟩ := h.head_ne
  rw [List.cons_append] at hb ht hf hi ⊢
  rw [value?_scalar (hd _ (by decide) (by decide) (by decide))
    (hd _ (by decide) (by decide) (by decide)), scalar?,
    string?_eq_none (hd _ (by decide) (by decide) (by decide))
      (hd _ (by decide) (by decide) (by decide)), hb, ht, hf, hi]
  rcases inRange? n with _ | m <;> rfl

lemma skipBlanks (h : Decimal n cs) (rest : List Char) :
    Toml.skipBlanks (cs ++ rest) = cs ++ rest := by
  obtain ⟨d, r, rfl, hd⟩ := h.head_ne
  refine skipBlanks_cons ?_ _
  rw [isBlank, Bool.or_eq_false_iff, decide_eq_false_iff_not, decide_eq_false_iff_not]
  exact ⟨hd _ (by decide) (by decide) (by decide), hd _ (by decide) (by decide) (by decide)⟩

end Decimal

lemma endsNumber_newline (rest : List Char) : EndsNumber ('\n' :: rest) := by
  intro c hc
  obtain rfl := Option.some.inj hc
  decide

/-! ### Written values -/

/-- A text that is read as a value where a line ends after it. -/
structure Written (w : List Char) (v : Value) : Prop where
  head : ∀ rest, skipBlanks (w ++ rest) = w ++ rest
  read : ∀ rest, value? depthLimit (w ++ '\n' :: rest) = some (v, '\n' :: rest)

lemma skipBlanks_append {w : List Char} (hw : w = c :: r) (hb : isBlank c = false)
    (rest : List Char) : skipBlanks (w ++ rest) = w ++ rest := by
  rw [hw, List.cons_append, skipBlanks_cons hb]

lemma written_string (s : String) : Written (Writer.string s.toList) (.string s) where
  head := by
    obtain ⟨d, r, hw, hd⟩ := string_head s.toList
    refine skipBlanks_append hw ?_
    rcases hd with rfl | rfl <;> rfl
  read rest := by
    rw [value?_string depthLimit s.toList _ (by simp) (by simp), String.ofList_toList]

lemma written_strings (l : List String) :
    Written (Writer.strings l) (.array false (l.map .string)) where
  head := by
    obtain ⟨r, hw⟩ : ∃ r, Writer.strings l = '[' :: r := by
      rcases l with _ | ⟨x, _ | ⟨y, l⟩⟩ <;> exact ⟨_, rfl⟩
    exact skipBlanks_append hw rfl
  read rest := value?_strings 78 l ('\n' :: rest)

lemma written_boolean (b : Bool) : Written (Writer.boolean b) (.boolean b) where
  head := by
    cases b
    · exact skipBlanks_append (c := 'f') rfl rfl
    · exact skipBlanks_append (c := 't') rfl rfl
  read rest := value?_boolean depthLimit b _

lemma written_toDigits {n : Nat} (hn : n < 2 ^ 63) :
    Written (Nat.toDigits 10 n) (.integer n) where
  head := (Decimal.plain n).skipBlanks
  read rest := by
    have hrange : inRange? (n : Int) = some (n : Int) := if_pos (by omega)
    rw [(Decimal.plain n).value? (endsNumber_newline rest), hrange]
    rfl

end PinnedBuild.Toml
