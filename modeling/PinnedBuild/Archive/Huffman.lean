import PinnedBuild.Archive.Bits

/-!
Canonical Huffman codes: among codes of one length symbols come in rising order, and shorter codes
come before longer ones.
-/

namespace PinnedBuild.Archive

inductive Code where
  | leaf (symbol : Nat)
  | node (zero one : Code)
  /-- No symbol has a code that begins so. -/
  | gap
  deriving Repr

namespace Code

def decode : Code → BitReader Nat
  | leaf symbol, s => .ok (symbol, s)
  | gap, s => s.corrupt
  | node zero one, s =>
    match s.next? with
    | none => .error .truncated
    | some (true, r) => one.decode r
    | some (false, r) => zero.decode r

theorem size_decode_le {c : Code} {v : Nat} {s r : BitSource} (h : c.decode s = .ok (v, r)) :
    r.size ≤ s.size := by
  induction c generalizing s with
  | leaf symbol =>
    simp only [decode, Except.ok.injEq, Prod.mk.injEq] at h
    simp [h.2]
  | gap => simp [decode, BitSource.corrupt] at h
  | node zero one ihz iho =>
    unfold decode at h
    split at h
    · simp at h
    · rename_i q hq
      have h1 := BitSource.size_next? hq
      have h2 := iho h
      omega
    · rename_i q hq
      have h1 := BitSource.size_next? hq
      have h2 := ihz h
      omega

/-- The code below a place at the given depth, for symbols in the order of their codes, and the
symbols that it does not take up. -/
def grow : Nat → Nat → List (Nat × Nat) → Code × List (Nat × Nat)
  | _, _, [] => (gap, [])
  | 0, depth, (length, symbol) :: queue =>
    if length ≤ depth then (leaf symbol, queue) else (gap, (length, symbol) :: queue)
  | room + 1, depth, (length, symbol) :: queue =>
    if length ≤ depth then (leaf symbol, queue)
    else
      let (zero, queue) := grow room (depth + 1) ((length, symbol) :: queue)
      let (one, queue) := grow room (depth + 1) queue
      (node zero one, queue)

end Code

/-- A code that spends at least one bit on each symbol. -/
structure CodeTable where
  zero : Code
  one : Code
  deriving Repr

namespace CodeTable

def maxLength : Nat := 15

/-- Length and number of each symbol that has a code, in the order of the codes. -/
def inOrder (lengths : List Nat) : List (Nat × Nat) :=
  (List.range' 1 maxLength).flatMap fun n => lengths.zipIdx.filter fun l => l.1 = n

/-- How much of all codes of the greatest length is taken up. -/
def share (order : List (Nat × Nat)) : Nat :=
  order.foldl (fun n l => n + Nat.pow 2 (maxLength - l.1)) 0

/-- The code with these lengths, where zero stands for no code. The lengths have to use up all
codes exactly; unless `full` is asked for, a code of at most one symbol need not. -/
def ofLengths? (full : Bool) (lengths : List Nat) : Option CodeTable :=
  let order := inOrder lengths
  if share order = Nat.pow 2 maxLength ∨ (full = false ∧ order.length ≤ 1) then
    let (zero, queue) := Code.grow (maxLength - 1) 1 order
    let (one, _) := Code.grow (maxLength - 1) 1 queue
    some ⟨zero, one⟩
  else none

def decode (t : CodeTable) : BitReader Nat := (Code.node t.zero t.one).decode

theorem size_decode_lt {t : CodeTable} {v : Nat} {s r : BitSource} (h : t.decode s = .ok (v, r)) :
    r.size < s.size := by
  unfold decode Code.decode at h
  split at h
  · simp at h
  · rename_i q hq
    have h1 := BitSource.size_next? hq
    have h2 := Code.size_decode_le h
    omega
  · rename_i q hq
    have h1 := BitSource.size_next? hq
    have h2 := Code.size_decode_le h
    omega

end CodeTable

end PinnedBuild.Archive
