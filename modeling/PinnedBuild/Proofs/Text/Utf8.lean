import Mathlib
import PinnedBuild.Path

/-!
Text is shown as it is: what a character is spelt by in UTF-8 is read back as that character, so
that nothing is put in place of it.
-/

namespace PinnedBuild

namespace Text.Utf8

/-! ### One character -/

/-- The bound is a numeral here, which arithmetic can see. -/
lemma toNat_ofNat {n : Nat} (h : n < 256) : (UInt8.ofNat n).toNat = n :=
  UInt8.toNat_ofNat_of_lt' h

/-- A byte that goes on with a character adds its six bits. -/
lemma tail_continued {k : Nat} (hk : k < 64) (n code : Nat) (rest : Bytes) :
    tail (n + 1) code (UInt8.ofNat (k + 128) :: rest) = tail n (code * 64 + k) rest := by
  have hb := toNat_ofNat (show k + 128 < 256 by omega)
  have hrange : 0x80 ≤ UInt8.ofNat (k + 128) ∧ UInt8.ofNat (k + 128) ≤ 0xBF := by
    rw [UInt8.le_iff_toNat_le, UInt8.le_iff_toNat_le, hb]
    exact ⟨Nat.le_add_left _ _, by show k + 128 ≤ 191; omega⟩
  rw [tail, if_pos hrange, hb, Nat.add_sub_cancel]

/-- The least second byte. It is greater where a shorter spelling would begin. -/
def least (b : Nat) : Nat := if b = 224 then 160 else if b = 240 then 144 else 128

/-- The greatest second byte. It is less where a surrogate or a number beyond the last character
would begin. -/
def greatest (b : Nat) : Nat := if b = 237 then 159 else if b = 244 then 143 else 191

/-- How many bytes follow the second. -/
def further (b : Nat) : Nat := if b < 224 then 0 else if b < 240 then 1 else 2

lemma lead?_ofNat {b : Nat} (h : 194 ≤ b) (h' : b ≤ 244) : lead? (UInt8.ofNat b) =
    some (UInt8.ofNat (least b), UInt8.ofNat (greatest b), further b) := by
  interval_cases b <;> rfl

lemma greatest_le (b : Nat) : greatest b ≤ 191 := by
  unfold greatest
  split_ifs <;> omega

/-- The first byte and the second, where the second is among those that may follow. -/
lemma next_led {b k : Nat} (h : 194 ≤ b) (h' : b ≤ 244) (hlo : least b ≤ k + 128)
    (hhi : k + 128 ≤ greatest b) (rest : Bytes) :
    next (UInt8.ofNat b) (UInt8.ofNat (k + 128) :: rest) =
      tail (further b) (leadBits (UInt8.ofNat b) (further b) * 64 + k) rest := by
  have hmost := greatest_le b
  have hk := toNat_ofNat (show k + 128 < 256 by omega)
  have hlarge : ¬ UInt8.ofNat b < 0x80 := by
    rw [UInt8.lt_iff_toNat_lt, toNat_ofNat (by omega)]
    show ¬ b < 128
    omega
  have hrange : UInt8.ofNat (least b) ≤ UInt8.ofNat (k + 128) ∧
      UInt8.ofNat (k + 128) ≤ UInt8.ofNat (greatest b) := by
    rw [UInt8.le_iff_toNat_le, UInt8.le_iff_toNat_le, hk, toNat_ofNat (by omega),
      toNat_ofNat (by omega)]
    exact ⟨hlo, hhi⟩
  unfold next
  rw [if_neg hlarge, lead?_ofNat h h']
  simp only [if_pos hrange, hk]
  rw [Nat.add_sub_cancel]

/-- What a character is spelt by is read as its number. -/
lemma next_utf8EncodeChar (c : Char) (more : Bytes) :
    ∃ b rest, String.utf8EncodeChar c ++ more = b :: rest ∧ next b rest = (some c.toNat, more) := by
  have hvalid : c.toNat < 55296 ∨ 57343 < c.toNat ∧ c.toNat < 1114112 := c.valid
  have hv : c.val.toNat = c.toNat := rfl
  unfold String.utf8EncodeChar
  simp only [hv]
  generalize c.toNat = v at hvalid
  -- one byte to four, as the number asks for
  split_ifs with h₁ h₂ h₃
  · refine ⟨_, more, rfl, ?_⟩
    have hsmall : UInt8.ofNat v < 0x80 := by
      rw [UInt8.lt_iff_toNat_lt, toNat_ofNat (by omega)]
      exact Nat.lt_succ_of_le h₁
    unfold next
    rw [if_pos hsmall, toNat_ofNat (by omega)]
  · refine ⟨_, _, rfl, ?_⟩
    show next _ (_ :: more) = _
    have hn : further (v / 64 % 32 + 192) = 0 := if_pos (by omega)
    rw [next_led (by omega) (by omega) (by unfold least; split_ifs <;> omega)
      (by unfold greatest; split_ifs <;> omega), hn]
    show (some ((UInt8.ofNat (v / 64 % 32 + 192)).toNat % 32 * 64 + v % 64), more) = _
    rw [toNat_ofNat (by omega)]
    congr 2
    omega
  · refine ⟨_, _, rfl, ?_⟩
    show next _ (_ :: _ :: more) = _
    have hn : further (v / 4096 % 16 + 224) = 1 := by
      rw [further, if_neg (by omega), if_pos (by omega)]
    rw [next_led (by omega) (by omega) (by unfold least; split_ifs <;> omega)
      (by unfold greatest; split_ifs <;> omega), hn, tail_continued (by omega)]
    show (some (((UInt8.ofNat (v / 4096 % 16 + 224)).toNat % 16 * 64 + v / 64 % 64) * 64 + v % 64),
      more) = _
    rw [toNat_ofNat (by omega)]
    congr 2
    omega
  · refine ⟨_, _, rfl, ?_⟩
    show next _ (_ :: _ :: _ :: more) = _
    have hn : further (v / 262144 % 8 + 240) = 2 := by
      rw [further, if_neg (by omega), if_neg (by omega)]
    rw [next_led (by omega) (by omega) (by unfold least; split_ifs <;> omega)
      (by unfold greatest; split_ifs <;> omega), hn, tail_continued (by omega),
      tail_continued (by omega)]
    show (some ((((UInt8.ofNat (v / 262144 % 8 + 240)).toNat % 8 * 64 + v / 4096 % 64) * 64 +
      v / 64 % 64) * 64 + v % 64), more) = _
    rw [toNat_ofNat (by omega)]
    congr 2
    omega

/-! ### Whole texts -/

lemma lossyFrom_utf8EncodeChar (shown : List Char) (c : Char) (more : Bytes) :
    lossyFrom shown (String.utf8EncodeChar c ++ more) = lossyFrom (c :: shown) more := by
  obtain ⟨b, rest, hspelt, hnext⟩ := next_utf8EncodeChar c more
  rw [hspelt, lossyFrom]
  simp only [hnext, Option.map_some, Option.getD_some, Char.ofNat_toNat]

lemma lossyFrom_flatMap (shown cs : List Char) :
    lossyFrom shown (cs.flatMap String.utf8EncodeChar) = shown.reverse ++ cs := by
  induction cs generalizing shown with
  | nil => simp [lossyFrom]
  | cons c cs ih => rw [List.flatMap_cons, lossyFrom_utf8EncodeChar, ih]; simp

lemma ofString_eq (s : String) : Bytes.ofString s = s.toList.flatMap String.utf8EncodeChar := by
  obtain ⟨cs, rfl⟩ : ∃ cs, s = String.ofList cs := ⟨s.toList, by simp⟩
  simp [Bytes.ofString, String.toUTF8, List.utf8Encode]

lemma ofString_append (s t : String) :
    Bytes.ofString (s ++ t) = Bytes.ofString s ++ Bytes.ofString t := by
  rw [ofString_eq, ofString_eq, ofString_eq, String.toList_append, List.flatMap_append]

/-- A text is shown as it is. -/
theorem lossy_ofString (s : String) : lossy (Bytes.ofString s) = s := by
  rw [lossy, ofString_eq, lossyFrom_flatMap]
  simp

end Text.Utf8

namespace Path

/-- The path is the spelling of a text. -/
def IsText (p : Path) : Prop := ∃ s, p = ofString s

/-- What is shown of such a path leads back to it. -/
lemma IsText.ofString_display {p : Path} (h : p.IsText) : ofString p.display = p := by
  obtain ⟨s, rfl⟩ := h
  rw [display, ofString, ofString, Text.Utf8.lossy_ofString]

lemma isText_append {p q : Path} (hp : p.IsText) (hq : q.IsText) : IsText (p ++ q) := by
  obtain ⟨a, rfl⟩ := hp
  obtain ⟨b, rfl⟩ := hq
  refine ⟨a ++ b, ?_⟩
  simp [ofString, Text.Utf8.ofString_eq]

lemma isText_join {p q : Path} (hp : p.IsText) (hq : q.IsText) : (p.join q).IsText := by
  have hslash : IsText [slash] := ⟨"/", rfl⟩
  unfold join
  split
  · exact hq
  · split
    · exact isText_append hp hq
    · exact isText_append hp (isText_append hslash hq)

end Path

end PinnedBuild
