import PinnedBuild.Bytes

/-!
Showing bytes that need not be text: each longest run that begins a character but does not
complete it, and each byte that begins none, is shown as U+FFFD.
-/

namespace PinnedBuild.Text.Utf8

/-- The bytes that may follow a first byte: the range of the second byte and the number of bytes
after that. -/
def lead? (b : UInt8) : Option (UInt8 × UInt8 × Nat) :=
  if b < 0xC2 then none
  else if b < 0xE0 then some (0x80, 0xBF, 0)
  else if b = 0xE0 then some (0xA0, 0xBF, 1)
  else if b = 0xED then some (0x80, 0x9F, 1)
  else if b < 0xF0 then some (0x80, 0xBF, 1)
  else if b = 0xF0 then some (0x90, 0xBF, 2)
  else if b < 0xF4 then some (0x80, 0xBF, 2)
  else if b = 0xF4 then some (0x80, 0x8F, 2)
  else none

/-- Six bits from each of `n` continuation bytes; the second part is what stands after the run. -/
def tail : Nat → Nat → Bytes → Option Nat × Bytes
  | 0, code, rest => (some code, rest)
  | _ + 1, _, [] => (none, [])
  | n + 1, code, b :: rest =>
    if 0x80 ≤ b ∧ b ≤ 0xBF then tail n (code * 64 + (b.toNat - 0x80)) rest else (none, b :: rest)

theorem length_tail_le (n code : Nat) (b : Bytes) : (tail n code b).2.length ≤ b.length := by
  induction n generalizing code b with
  | zero => simp [tail]
  | succ n ih =>
    cases b with
    | nil => simp [tail]
    | cons x r =>
      unfold tail
      split
      · exact Nat.le_succ_of_le (ih _ _)
      · simp

/-- The bits of a first byte that belong to the character, where `n + 1` bytes follow it. -/
def leadBits (b : UInt8) : Nat → Nat
  | 0 => b.toNat % 32
  | 1 => b.toNat % 16
  | _ => b.toNat % 8

/-- The character at the front, `none` for a run that is no character, and what stands after it. -/
def next (b : UInt8) (rest : Bytes) : Option Nat × Bytes :=
  if b < 0x80 then (some b.toNat, rest)
  else match lead? b, rest with
    | some (lo, hi, n), c :: rest' =>
      if lo ≤ c ∧ c ≤ hi then tail n (leadBits b n * 64 + (c.toNat - 0x80)) rest'
      else (none, rest)
    | _, _ => (none, rest)

theorem length_next_le (b : UInt8) (rest : Bytes) : (next b rest).2.length ≤ rest.length := by
  unfold next
  split
  · simp
  · split
    · split
      · exact Nat.le_succ_of_le (length_tail_le _ _ _)
      · simp
    · simp

def lossyFrom (shown : List Char) : Bytes → List Char
  | [] => shown.reverse
  | b :: rest =>
    let r := next b rest
    lossyFrom (((r.1.map Char.ofNat).getD '\uFFFD') :: shown) r.2
termination_by b => b.length
decreasing_by
  have := length_next_le b rest
  simp only [List.length_cons]
  omega

/-- The bytes as text, with U+FFFD in place of what is no text. -/
def lossy (b : Bytes) : String := String.ofList (lossyFrom [] b)

end PinnedBuild.Text.Utf8
