import Mathlib
import PinnedBuild.Digest.Sha256
import PinnedBuild.Proofs.Digest.Standard

/-!
The digest of a message is that of the standard: bytes are read as their bits, block by block.
-/

namespace PinnedBuild.Digest

open Standard

namespace Sha256

/-! ### Words -/

lemma toBitVec_bigSigma0 (x : UInt32) :
    (bigSigma0 x).toBitVec = Standard.bigSigma0 x.toBitVec := rfl

lemma toBitVec_bigSigma1 (x : UInt32) :
    (bigSigma1 x).toBitVec = Standard.bigSigma1 x.toBitVec := rfl

lemma toBitVec_smallSigma0 (x : UInt32) :
    (smallSigma0 x).toBitVec = Standard.smallSigma0 x.toBitVec := rfl

lemma toBitVec_smallSigma1 (x : UInt32) :
    (smallSigma1 x).toBitVec = Standard.smallSigma1 x.toBitVec := rfl

lemma map_roundConstants : roundConstants.map UInt32.toBitVec = constants := by decide +kernel

/-- The words of a state as the standard has them. -/
def State.toWords (s : State) : Words :=
  ⟨s.a.toBitVec, s.b.toBitVec, s.c.toBitVec, s.d.toBitVec, s.e.toBitVec, s.f.toBitVec,
    s.g.toBitVec, s.h.toBitVec⟩

lemma toWords_initial : initial.toWords = Standard.initial := by decide +kernel

lemma toWords_round (s : State) (k w : UInt32) :
    (round s k w).toWords = Standard.round s.toWords k.toBitVec w.toBitVec := by
  simp only [round, State.toWords, UInt32.toBitVec_add, toBitVec_bigSigma0, toBitVec_bigSigma1]
  rfl

lemma toWords_add (s t : State) : (s.add t).toWords = s.toWords.add t.toWords := rfl

lemma toBitVec_word (w x y z : UInt8) :
    ((w.toUInt32 <<< 24) ||| (x.toUInt32 <<< 16) ||| (y.toUInt32 <<< 8) ||| z.toUInt32).toBitVec =
      BitVec.ofNat 32 (value (bits [w, x, y, z])) := by
  have hw := w.toNat_lt
  have hx := x.toNat_lt
  have hy := y.toNat_lt
  have hz := z.toNat_lt
  have hv : value (bits [w, x, y, z]) =
      w.toNat * 2 ^ 24 + (x.toNat * 2 ^ 16 + (y.toNat * 2 ^ 8 + z.toNat)) := by
    simp only [value_bits_cons, value_bits_nil, List.length_cons, List.length_nil]
    omega
  refine BitVec.eq_of_toNat_eq ?_
  have hshift : ∀ (a n : Nat), n < 32 → a * 2 ^ n < 2 ^ 32 →
      a <<< (n % 32) % 2 ^ 32 = a * 2 ^ n := by
    intro a n hn ha
    rw [Nat.mod_eq_of_lt hn, Nat.shiftLeft_eq, Nat.mod_eq_of_lt ha]
  have hor : ∀ (a b n : Nat), b < 2 ^ n → a * 2 ^ n ||| b = a * 2 ^ n + b := by
    intro a b n hb
    rw [← Nat.shiftLeft_eq, ← Nat.shiftLeft_add_eq_or_of_lt hb]
  simp only [UInt32.toNat_toBitVec, UInt32.toNat_or, UInt32.toNat_shiftLeft, UInt8.toNat_toUInt32,
    BitVec.toNat_ofNat, hv, Nat.or_assoc]
  -- The amounts are literals of words, and shifts take them modulo 32.
  change w.toNat <<< (24 % 32) % 2 ^ 32 ||| (x.toNat <<< (16 % 32) % 2 ^ 32 |||
    (y.toNat <<< (8 % 32) % 2 ^ 32 ||| z.toNat)) = _
  rw [hshift _ 24 (by omega) (by omega), hshift _ 16 (by omega) (by omega),
    hshift _ 8 (by omega) (by omega), hor _ _ 8 hz, hor _ _ 16 (by omega), hor _ _ 24 (by omega),
    Nat.mod_eq_of_lt (by omega)]

/-- Bytes are read as words where the standard parses their bits. -/
lemma words_take (m : Bytes) (k : Nat) (h : 4 * k ≤ m.length) :
    (words (m.take (4 * k))).map UInt32.toBitVec = (List.range k).map (wordAt (bits m) 0) := by
  induction k generalizing m with
  | zero => simp [words]
  | succ k ih =>
    match m, h with
    | w :: x :: y :: z :: m, h =>
      have hm : 4 * k ≤ m.length := by
        simp only [List.length_cons] at h
        omega
      have hrest : ∀ t, wordAt (bits (w :: x :: y :: z :: m)) 0 (t + 1) = wordAt (bits m) 0 t := by
        intro t
        rw [wordAt_bits, wordAt_bits, Nat.mul_succ, ← Nat.add_assoc]
        rfl
      have hhead : wordAt (bits (w :: x :: y :: z :: m)) 0 0 =
          BitVec.ofNat 32 (value (bits [w, x, y, z])) := wordAt_bits _ 0 0
      rw [List.range_succ_eq_map, List.map_cons, List.map_map, hhead, ← toBitVec_word, Nat.mul_succ]
      exact congrArg₂ _ rfl ((ih m hm).trans (List.map_congr_left fun t _ => (hrest t).symm))

/-! ### Blocks -/

variable {block : Nat → Word} {w : Array UInt32} {t : Nat}

/-- The next word of a schedule that is right so far is right. -/
lemma map_push_scheduleWord (ht : 16 ≤ t)
    (h : w.toList.map UInt32.toBitVec = (List.range t).map (Standard.schedule block)) :
    (w.push (scheduleWord w t)).toList.map UInt32.toBitVec =
      (List.range (t + 1)).map (Standard.schedule block) := by
  have hget : ∀ i < t, (w.getD i 0).toBitVec = Standard.schedule block i := by
    intro i hi
    have hw : (w.toList.map UInt32.toBitVec)[i]? = some (Standard.schedule block i) := by
      rw [h, List.getElem?_map, List.getElem?_range hi]
      rfl
    rw [List.getElem?_map, Array.getElem?_toList, Option.map_eq_some_iff] at hw
    obtain ⟨x, hx, hi⟩ := hw
    rw [Array.getD_eq_getD_getElem?, hx]
    exact hi
  have hword : (scheduleWord w t).toBitVec = Standard.schedule block t := by
    rw [Standard.schedule, if_neg (by omega), ← hget (t - 2) (by omega), ← hget (t - 7) (by omega),
      ← hget (t - 15) (by omega), ← hget (t - 16) (by omega), ← toBitVec_smallSigma0,
      ← toBitVec_smallSigma1]
    rfl
  rw [Array.toList_push, List.map_append, h, List.range_succ, List.map_append, List.map_singleton,
    List.map_singleton, hword]

lemma map_foldl_scheduleWord (n : Nat) (ht : 16 ≤ t)
    (h : w.toList.map UInt32.toBitVec = (List.range t).map (Standard.schedule block)) :
    ((List.range' t n).foldl (fun w t => w.push (scheduleWord w t)) w).toList.map
      UInt32.toBitVec = (List.range (t + n)).map (Standard.schedule block) := by
  induction n generalizing w t with
  | zero => exact h
  | succ n ih =>
    rw [List.range'_succ, List.foldl_cons, ih (by omega) (map_push_scheduleWord ht h),
      Nat.add_assoc, Nat.add_comm 1 n]

/-- The 64 words of a block are those of the standard's schedule. -/
lemma map_schedule {m : Bytes} (h : 64 ≤ m.length) :
    (schedule (m.take 64)).map UInt32.toBitVec =
      (List.range 64).map (Standard.schedule (wordAt (bits m) 0)) := by
  refine map_foldl_scheduleWord 48 (Nat.le_refl 16) ?_
  rw [words_take m 16 h]
  refine List.map_congr_left fun t ht => ?_
  rw [Standard.schedule, if_pos (List.mem_range.mp ht)]

lemma toWords_rounds (ks ws : List UInt32) (s : State) :
    ((ks.zip ws).foldl (fun u kw => round u kw.1 kw.2) s).toWords =
      ((ks.map UInt32.toBitVec).zip (ws.map UInt32.toBitVec)).foldl
        (fun u kw => Standard.round u kw.1 kw.2) s.toWords := by
  rw [List.zip_map, List.foldl_map]
  exact (List.foldl_hom State.toWords fun s kw => toWords_round s kw.1 kw.2).symm

lemma toWords_compress {m : Bytes} (s : State) (h : 64 ≤ m.length) :
    (compress s (m.take 64)).toWords = next s.toWords (wordAt (bits m) 0) := by
  rw [compress, toWords_add, toWords_rounds, map_roundConstants, map_schedule h,
    Words.add_comm]
  rfl

/-! ### Messages of whole blocks -/

lemma absorb_of_lt {m : Bytes} (s : State) (h : m.length < 64) : absorb s m = (s, m) := by
  rw [absorb]
  split
  · rfl
  next x rest hr =>
    have := congrArg List.length hr
    simp only [List.length_drop, List.length_cons] at this
    omega

lemma absorb_of_le {m : Bytes} (s : State) (h : 64 ≤ m.length) :
    absorb s m = absorb (compress s (m.take 64)) (m.drop 64) := by
  rw [absorb]
  split
  next hr =>
    rw [List.drop_eq_nil_iff] at hr
    omega
  next x rest hr => rw [← List.tail_drop, hr, List.tail_cons]

lemma wordAt_drop (m : Bytes) (i : Nat) :
    wordAt (bits (m.drop 64)) i = wordAt (bits m) (i + 1) := by
  funext t
  rw [wordAt_bits, wordAt_bits, List.drop_drop, Nat.mul_succ, Nat.add_right_comm, Nat.add_comm 64]

/-- Whole blocks are compressed one after the other. -/
lemma toWords_absorb (n : Nat) {m : Bytes} (s : State) (h : m.length = 64 * n) :
    (absorb s m).1.toWords =
      (List.range n).foldl (fun v i => next v (wordAt (bits m) i)) s.toWords := by
  induction n generalizing m s with
  | zero =>
    rw [absorb_of_lt s (by omega)]
    rfl
  | succ n ih =>
    have hdrop : (m.drop 64).length = 64 * n := by
      rw [List.length_drop]
      omega
    rw [absorb_of_le s (by omega), ih _ hdrop, toWords_compress s (by omega),
      List.range_succ_eq_map, List.foldl_cons, List.foldl_map]
    simp only [wordAt_drop]

/-! ### Padding and the digest -/

lemma bits_ofNatBE (width n : Nat) : bits (Bytes.ofNatBE width n) = natBits (8 * width) n := by
  induction width generalizing n with
  | zero => rfl
  | succ width ih =>
    have hlast : bits [UInt8.ofNat n] = natBits 8 n := by
      rw [bits_cons, UInt8.toNat_ofNat', natBits_mod]
      exact List.append_nil _
    rw [Bytes.ofNatBE, bits_append, ih, hlast, Nat.mul_succ, natBits_add]
    rfl

lemma bits_replicate_zero (n : Nat) :
    bits (List.replicate n 0) = List.replicate (8 * n) false := by
  induction n with
  | zero => rfl
  | succ n ih =>
    rw [List.replicate_succ, bits_cons, ih, Nat.mul_succ, Nat.add_comm, List.replicate_add]
    rfl

/-- Whole bytes are padded as their bits are. -/
lemma bits_padding (m : Bytes) : bits (m ++ padding m.length) = pad (bits m) := by
  have hzeros : zeros (8 * m.length) = 7 + 8 * ((119 - m.length % 64) % 64) := by
    unfold zeros
    omega
  rw [pad, length_bits, hzeros, bits_append, padding, List.cons_append, bits_cons, bits_append,
    bits_ofNatBE, bits_replicate_zero, List.replicate_add, List.append_assoc]
  rfl

lemma bits_toBytes (s : State) :
    bits s.toBytes = s.toWords.toList.flatMap fun w => natBits 32 w.toNat := by
  have hword : ∀ w : UInt32, bits (Bytes.ofNatBE 4 w.toNat) = natBits 32 w.toBitVec.toNat :=
    fun w => bits_ofNatBE 4 w.toNat
  simp only [State.toBytes, State.toWords, Words.toList, List.flatMap_cons, List.flatMap_nil,
    bits_append, hword]
  rfl

/-- **The digest is that of the standard**: padded bytes are compressed block by block as the
standard does with their bits. -/
theorem bits_hash (m : Bytes) : bits (hash m) = sha256 (bits m) := by
  have hlen : (m ++ padding m.length).length = 64 * ((pad (bits m)).length / 512) := by
    have hwhole := length_pad (bits m)
    have hbits := congrArg List.length (bits_padding m)
    rw [length_bits] at hbits
    omega
  rw [hash, bits_toBytes, toWords_absorb _ _ hlen, toWords_initial, bits_padding]
  rfl
end Sha256

/-! ### Hexadecimal digits -/

lemma hexDigits_bits_cons (x : UInt8) (m : Bytes) :
    hexDigits (bits (x :: m)) =
      Bytes.hexDigit (x >>> 4) :: Bytes.hexDigit (x &&& 15) :: hexDigits (bits m) := by
  have hdigits : ∀ n < 256, hexDigits (natBits 8 n) =
      [Bytes.hexDigit (UInt8.ofNat n >>> 4), Bytes.hexDigit (UInt8.ofNat n &&& 15)] := by
    decide +kernel
  have happend : hexDigits (natBits 8 x.toNat ++ bits m) =
      hexDigits (natBits 8 x.toNat) ++ hexDigits (bits m) := rfl
  rw [bits_cons, happend, hdigits _ x.toNat_lt, UInt8.ofNat_toNat]
  rfl

lemma toHex_eq (m : Bytes) : Bytes.toHex m = String.ofList (hexDigits (bits m)) := by
  refine congrArg String.ofList ?_
  induction m with
  | nil => rfl
  | cons x m ih => rw [List.foldr_cons, ih, hexDigits_bits_cons]

lemma toHex_hash (m : Bytes) : Bytes.toHex (Sha256.hash m) = hexDigest m := by
  rw [toHex_eq, Sha256.bits_hash, hexDigest]

end PinnedBuild.Digest
