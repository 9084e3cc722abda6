import PinnedBuild.Bytes

/-!
Reading bytes bit by bit, the least significant bit of each first.
-/

namespace PinnedBuild.Archive

/-- The bits left of the byte begun, and the bytes after it. -/
structure BitSource where
  current : List Bool
  rest : Bytes
  deriving Repr

/-- Why a compressed stream cannot be read on. -/
inductive Defect where
  | truncated
  /-- What is read makes no sense; so many bytes stand after the one in which it shows. -/
  | corrupt (unread : Nat)
  deriving DecidableEq, Repr

abbrev BitReader (α : Type) := BitSource → Except Defect (α × BitSource)

namespace BitSource

def ofBytes (b : Bytes) : BitSource := ⟨[], b⟩

def size (s : BitSource) : Nat := s.current.length + 8 * s.rest.length

/-- The bits of a byte, the least significant first. -/
def bitsOf (b : UInt8) : List Bool :=
  [b &&& 1 != 0, b &&& 2 != 0, b &&& 4 != 0, b &&& 8 != 0,
   b &&& 16 != 0, b &&& 32 != 0, b &&& 64 != 0, b &&& 128 != 0]

def next? : BitSource → Option (Bool × BitSource)
  | ⟨b :: bs, rest⟩ => some (b, ⟨bs, rest⟩)
  | ⟨[], x :: rest⟩ =>
    some (x &&& 1 != 0, ⟨(bitsOf x).tail, rest⟩)
  | ⟨[], []⟩ => none

theorem size_next? {s r : BitSource} {b : Bool} (h : s.next? = some (b, r)) :
    r.size + 1 = s.size := by
  unfold next? at h
  split at h
  · simp only [Option.some.injEq, Prod.mk.injEq] at h
    obtain ⟨-, rfl⟩ := h
    simp [size]
    omega
  · simp only [Option.some.injEq, Prod.mk.injEq] at h
    obtain ⟨-, rfl⟩ := h
    simp [size, bitsOf]
    omega
  · simp at h

def corrupt {α : Type} (s : BitSource) : Except Defect (α × BitSource) :=
  .error (.corrupt s.rest.length)

/-- A number of `n` bits, the least significant first. -/
def bits : Nat → BitReader Nat
  | 0, s => .ok (0, s)
  | n + 1, s =>
    match s.next? with
    | none => .error .truncated
    | some (b, r) => (bits n r).map fun (v, r) => (2 * v + b.toNat, r)

theorem size_bits_le {n v : Nat} {s r : BitSource} (h : s.bits n = .ok (v, r)) :
    r.size ≤ s.size := by
  induction n generalizing s v with
  | zero =>
    simp only [bits, Except.ok.injEq, Prod.mk.injEq] at h
    simp [h.2]
  | succ n ih =>
    unfold bits at h
    split at h
    · simp at h
    · rename_i b q hq
      cases hb : bits n q with
      | error e => simp [hb, Except.map] at h
      | ok p =>
        simp only [hb, Except.map, Except.ok.injEq, Prod.mk.injEq] at h
        have h1 := size_next? hq
        have h2 := ih (v := p.1) (hb.trans (by rw [← h.2]))
        omega

/-- The bits left of the byte begun are dropped. -/
def aligned (s : BitSource) : Bytes := s.rest

end BitSource

end PinnedBuild.Archive
