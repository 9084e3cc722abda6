import PinnedBuild.Archive.Huffman

/-!
Inflating: blocks of stored bytes, or of literals and copies under Huffman codes.

What has been put out before a defect stays.
-/

namespace PinnedBuild.Archive.Inflate

open BitSource

/-- What has been put out, and either the bits that follow or why there is no more. -/
abbrev Outcome := Array UInt8 × Except Defect BitSource

/-- Least length and number of extra bits for each length symbol from 257 on. -/
def lengthClasses : Array (Nat × Nat) :=
  #[(3, 0), (4, 0), (5, 0), (6, 0), (7, 0), (8, 0), (9, 0), (10, 0), (11, 1), (13, 1), (15, 1),
    (17, 1), (19, 2), (23, 2), (27, 2), (31, 2), (35, 3), (43, 3), (51, 3), (59, 3), (67, 4),
    (83, 4), (99, 4), (115, 4), (131, 5), (163, 5), (195, 5), (227, 5), (258, 0)]

/-- Least distance and number of extra bits for each distance symbol. -/
def distanceClasses : Array (Nat × Nat) :=
  #[(1, 0), (2, 0), (3, 0), (4, 0), (5, 1), (7, 1), (9, 2), (13, 2), (17, 3), (25, 3), (33, 4),
    (49, 4), (65, 5), (97, 5), (129, 6), (193, 6), (257, 7), (385, 7), (513, 8), (769, 8),
    (1025, 9), (1537, 9), (2049, 10), (3073, 10), (4097, 11), (6145, 11), (8193, 12), (12289, 12),
    (16385, 13), (24577, 13)]

/-- The number that a symbol and its extra bits stand for. -/
def amount (classes : Array (Nat × Nat)) (symbol : Nat) : BitReader Nat := fun s =>
  match classes[symbol]? with
  | none => s.corrupt
  | some (least, extra) => (s.bits extra).map fun (v, r) => (least + v, r)

theorem size_amount_le {classes : Array (Nat × Nat)} {symbol v : Nat} {s r : BitSource}
    (h : amount classes symbol s = .ok (v, r)) : r.size ≤ s.size := by
  unfold amount at h
  split at h
  · simp [corrupt] at h
  · rename_i least extra _
    cases hb : s.bits extra with
    | error e => simp [hb, Except.map] at h
    | ok p =>
      simp only [hb, Except.map, Except.ok.injEq, Prod.mk.injEq] at h
      exact size_bits_le (v := p.1) (hb.trans (by rw [← h.2]))

/-- What one symbol under the codes of a block says. -/
inductive Element where
  | literal (b : UInt8)
  | copy (length distance : Nat)
  | stop
  deriving DecidableEq, Repr

/-- The element that a symbol begins. Symbols below 256 are bytes, those above it lengths. -/
def elementOf (distances : CodeTable) (symbol : Nat) : BitReader Element := fun s =>
  if symbol < 256 then .ok (.literal (UInt8.ofNat symbol), s)
  else if symbol = 256 then .ok (.stop, s)
  else do
    let (length, s) ← amount lengthClasses (symbol - 257) s
    let (d, s) ← distances.decode s
    let (distance, s) ← amount distanceClasses d s
    return (.copy length distance, s)

def element (literals distances : CodeTable) : BitReader Element := fun s =>
  (literals.decode s).bind fun (symbol, s) => elementOf distances symbol s

theorem size_elementOf_le {distances : CodeTable} {symbol : Nat} {e : Element} {s r : BitSource}
    (h : elementOf distances symbol s = .ok (e, r)) : r.size ≤ s.size := by
  unfold elementOf at h
  split at h
  · simp only [Except.ok.injEq, Prod.mk.injEq] at h
    simp [h.2]
  · split at h
    · simp only [Except.ok.injEq, Prod.mk.injEq] at h
      simp [h.2]
    · simp only [bind, Except.bind, pure, Except.pure] at h
      split at h
      · simp at h
      · rename_i p hp
        split at h
        · simp at h
        · rename_i q hq
          split at h
          · simp at h
          · rename_i t ht
            simp only [Except.ok.injEq, Prod.mk.injEq] at h
            have h1 := size_amount_le hp
            have h2 := CodeTable.size_decode_lt hq
            have h3 := size_amount_le ht
            rw [h.2] at h3
            omega

theorem size_element_lt {literals distances : CodeTable} {e : Element} {s r : BitSource}
    (h : element literals distances s = .ok (e, r)) : r.size < s.size := by
  unfold element at h
  cases hd : literals.decode s with
  | error d => simp [hd, Except.bind] at h
  | ok p =>
    simp only [hd, Except.bind] at h
    have h1 := CodeTable.size_decode_lt (v := p.1) hd
    have h2 := size_elementOf_le h
    omega

/-- Repeats what stands `distance` back, byte by byte. Before the start stand zeros. -/
def copy (distance : Nat) : Nat → Array UInt8 → Array UInt8
  | 0, out => out
  | n + 1, out =>
    copy distance n (out.push (if distance ≤ out.size then out.getD (out.size - distance) 0 else 0))

/-- Literals and copies up to the end of the block. -/
def elements (literals distances : CodeTable) (out : Array UInt8) (s : BitSource) : Outcome :=
  match _h : element literals distances s with
  | .error d => (out, .error d)
  | .ok (.literal b, r) => elements literals distances (out.push b) r
  | .ok (.copy length distance, r) => elements literals distances (copy distance length out) r
  | .ok (.stop, r) => (out, .ok r)
termination_by s.size
decreasing_by
  all_goals exact size_element_lt _h

def storedBytes : Nat → Array UInt8 → Bytes → Outcome
  | 0, out, rest => (out, .ok (.ofBytes rest))
  | _ + 1, out, [] => (out, .error .truncated)
  | n + 1, out, b :: rest => storedBytes n (out.push b) rest

/-- The number of bytes is written twice, the second time with every bit turned over. -/
def stored (out : Array UInt8) (s : BitSource) : Outcome :=
  match s.aligned with
  | a :: b :: c :: d :: rest =>
    let n := a.toNat + 256 * b.toNat
    if n + (c.toNat + 256 * d.toNat) = 65535 then storedBytes n out rest
    else (out, .error (.corrupt rest.length))
  | _ => (out, .error .truncated)

def fixedLiterals : CodeTable :=
  (CodeTable.ofLengths? true <| List.replicate 144 8 ++ List.replicate 112 9
    ++ List.replicate 24 7 ++ List.replicate 8 8).getD ⟨.gap, .gap⟩

def fixedDistances : CodeTable :=
  (CodeTable.ofLengths? true (List.replicate 32 5)).getD ⟨.gap, .gap⟩

/-- The order in which the lengths of the code for lengths are written. -/
def lengthOrder : List Nat := [16, 17, 18, 0, 8, 7, 9, 6, 10, 5, 11, 4, 12, 3, 13, 2, 14, 1, 15]

def lengthsOfLengths : Nat → BitReader (List Nat)
  | 0, s => .ok ([], s)
  | n + 1, s => do
    let (v, s) ← s.bits 3
    let (vs, s) ← lengthsOfLengths n s
    return (v :: vs, s)

/-- The written lengths, put where they belong. -/
def placed (written : List Nat) : List Nat :=
  (List.range 19).map fun i => ((lengthOrder.zip written).lookup i).getD 0

/-- Code lengths, the last first. Symbols from 16 on repeat the last length or zero. -/
def codeLengths (t : CodeTable) (total : Nat) (found : List Nat) : BitReader (List Nat) := fun s =>
  if total ≤ found.length then
    if found.length = total then .ok (found.reverse, s) else s.corrupt
  else
    (t.decode s).bind fun (symbol, r) =>
      if symbol < 16 then codeLengths t total (symbol :: found) r
      else if symbol = 16 then
        match found.head? with
        | none => r.corrupt
        | some last => (r.bits 2).bind fun (n, r) =>
          codeLengths t total (List.replicate (n + 3) last ++ found) r
      else if symbol = 17 then (r.bits 3).bind fun (n, r) =>
        codeLengths t total (List.replicate (n + 3) 0 ++ found) r
      else (r.bits 7).bind fun (n, r) =>
        codeLengths t total (List.replicate (n + 11) 0 ++ found) r
termination_by total - found.length
decreasing_by
  all_goals
    simp only [List.length_cons, List.length_append, List.length_replicate]
    omega

def table (full : Bool) (lengths : List Nat) : BitReader CodeTable := fun s =>
  match CodeTable.ofLengths? full lengths with
  | some t => .ok (t, s)
  | none => s.corrupt

/-- The codes that stand in front of a block. -/
def dynamicTables : BitReader (CodeTable × CodeTable) := fun s => do
  let (l, s) ← s.bits 5
  let (d, s) ← s.bits 5
  let (c, s) ← s.bits 4
  if 286 < l + 257 ∨ 30 < d + 1 then s.corrupt
  else
    let (written, s) ← lengthsOfLengths (c + 4) s
    let (t, s) ← table true (placed written) s
    let (lengths, s) ← codeLengths t (l + 257 + (d + 1)) [] s
    let (literals, s) ← table false (lengths.take (l + 257)) s
    let (distances, s) ← table false (lengths.drop (l + 257)) s
    return ((literals, distances), s)

/-- A block of the given kind. -/
def body (kind : Nat) (out : Array UInt8) (s : BitSource) : Outcome :=
  if kind = 0 then stored out s
  else if kind = 1 then elements fixedLiterals fixedDistances out s
  else if kind = 2 then
    match dynamicTables s with
    | .ok ((literals, distances), r) => elements literals distances out r
    | .error d => (out, .error d)
  else (out, .error (.corrupt s.rest.length))

/-- Blocks up to the one that is marked as the last. -/
def blocks (out : Array UInt8) (s : BitSource) : Outcome :=
  match (s.bits 1).bind fun (final, r) => (r.bits 2).map fun (kind, r) => (final, kind, r) with
  | .error d => (out, .error d)
  | .ok (final, kind, r) =>
    match body kind out r with
    | (out, .error d) => (out, .error d)
    | (out, .ok r) =>
      if final = 1 then (out, .ok r)
      else if r.size < s.size then blocks out r
      else (out, .error .truncated)
termination_by s.size

def inflate (b : Bytes) : Outcome := blocks #[] (.ofBytes b)

end PinnedBuild.Archive.Inflate
