import Mathlib
import PinnedBuild.Archive.Inflate
import PinnedBuild.Proofs.Action

/-!
What inflating gives rests on the bytes that it takes; whatever may stand after them.

A stream that breaks off can still go on in any way, and then nothing that was put out is taken
back.
-/

namespace PinnedBuild.Archive

open BitSource

variable {α β : Type}

/-- The same source with more bytes at its end. -/
def BitSource.extend (s : BitSource) (more : Bytes) : BitSource := ⟨s.current, s.rest ++ more⟩

/-- What a reader gives rests on the bytes that it takes off a source, unless they break off. -/
inductive Reads (r : BitReader α) (s : BitSource) : Prop
  | ok {t u : Bytes} {v : α} {c : List Bool} (split : s.rest = t ++ u)
      (fits : c.length ≤ s.current.length + 8 * t.length)
      (eq : ∀ y, r ⟨s.current, t ++ y⟩ = .ok (v, ⟨c, y⟩))
  | corrupt {t u : Bytes} (split : s.rest = t ++ u)
      (eq : ∀ y, r ⟨s.current, t ++ y⟩ = .error (.corrupt y.length))
  | truncated (eq : r s = .error .truncated)

/-- A reader that first takes some bytes and then goes on as another. -/
lemma Reads.after {r r' : BitReader α} {s : BitSource} {t u : Bytes} {c : List Bool}
    (split : s.rest = t ++ u) (fits : c.length ≤ s.current.length + 8 * t.length)
    (eq : ∀ y, r ⟨s.current, t ++ y⟩ = r' ⟨c, y⟩) (h : Reads r' ⟨c, u⟩) : Reads r s := by
  rcases h with @⟨t', u', v, c', hs, hf, h⟩ | @⟨t', u', hs, h⟩ | h
  · refine .ok (t := t ++ t') (u := u') (v := v) (c := c') ?_ ?_ fun y => ?_
    · rw [split, show u = t' ++ u' from hs, List.append_assoc]
    · rw [List.length_append]
      have : c'.length ≤ c.length + 8 * t'.length := hf
      omega
    · rw [List.append_assoc, eq]
      exact h y
  · refine .corrupt (t := t ++ t') (u := u') ?_ fun y => ?_
    · rw [split, show u = t' ++ u' from hs, List.append_assoc]
    · rw [List.append_assoc, eq]
      exact h y
  · refine .truncated ?_
    rw [← h, ← eq, ← split]

lemma reads_pure (v : α) (s : BitSource) : Reads (fun s => .ok (v, s)) s :=
  .ok (t := []) rfl (Nat.le_add_right _ _) fun _ => rfl

lemma reads_corrupt (s : BitSource) : Reads (fun s => s.corrupt (α := α)) s :=
  .corrupt (t := []) rfl fun _ => rfl

lemma Reads.bind {r : BitReader α} {f : α × BitSource → Except Defect (β × BitSource)}
    {s : BitSource} (h : Reads r s) (hf : ∀ v s, Reads (fun s => f (v, s)) s) :
    Reads (fun s => (r s).bind f) s := by
  rcases h with @⟨t, u, v, c, hs, hc, h⟩ | @⟨t, u, hs, h⟩ | h
  · refine .after hs hc (fun y => ?_) (hf v ⟨c, u⟩)
    rw [h]
    rfl
  · refine .corrupt hs fun y => ?_
    rw [h]
    rfl
  · refine .truncated ?_
    rw [h]
    rfl

/-- The same for readers in sequence. -/
lemma Reads.seq {r : BitReader α} {f : α × BitSource → Except Defect (β × BitSource)}
    {s : BitSource} (h : Reads r s) (hf : ∀ v s, Reads (fun s => f (v, s)) s) :
    Reads (fun s => r s >>= f) s := h.bind hf

lemma Reads.map {r : BitReader α} {f : α × BitSource → β × BitSource} {g : α → β} {s : BitSource}
    (h : Reads r s) (hf : ∀ v s, f (v, s) = (g v, s)) : Reads (fun s => (r s).map f) s := by
  have hb := h.bind (f := fun p => .ok (f p)) fun v s => by
    simp only [hf]
    exact reads_pure (g v) s
  convert hb using 2 with q
  rcases r q with e | p <;> rfl

/-! ### Bits and codes -/

lemma reads_next (s : BitSource) {r : BitReader α} {f : Bool → BitReader α}
    (hr : ∀ s, r s = match s.next? with
      | none => .error .truncated
      | some (b, q) => f b q) (hf : ∀ b s, Reads (f b) s) : Reads r s := by
  rcases s with ⟨_ | ⟨b, bs⟩, rest⟩
  · rcases rest with _ | ⟨x, rest⟩
    · exact .truncated (hr _)
    · exact .after (t := [x]) rfl (by simp [bitsOf]) (fun y => hr _) (hf _ _)
  · exact .after (t := []) rfl (by simp) (fun y => hr _) (hf b ⟨bs, rest⟩)

lemma reads_bits (n : Nat) (s : BitSource) : Reads (bits n) s := by
  induction n generalizing s with
  | zero => exact reads_pure 0 s
  | succ n ih =>
    refine reads_next s (f := fun b q => (bits n q).map fun p => (2 * p.1 + b.toNat, p.2))
      (fun q => ?_) fun b q => (ih q).map (g := fun v => 2 * v + b.toNat) fun _ _ => rfl
    rcases hq : q.next? with _ | ⟨b, q'⟩ <;> simp only [bits, hq]

lemma Code.reads (c : Code) (s : BitSource) : Reads c.decode s := by
  induction c generalizing s with
  | leaf symbol => exact reads_pure symbol s
  | gap => exact reads_corrupt s
  | node zero one ihz iho =>
    refine reads_next s (f := fun b => if b then one.decode else zero.decode) (fun q => ?_)
      fun b q => ?_
    · unfold Code.decode
      rcases q.next? with _ | ⟨_ | _, q⟩ <;> rfl
    · rcases b with _ | _
      · exact ihz q
      · exact iho q

lemma CodeTable.reads (t : CodeTable) (s : BitSource) : Reads t.decode s := Code.reads _ s

namespace Inflate

lemma reads_amount (classes : Array (Nat × Nat)) (symbol : Nat) (s : BitSource) :
    Reads (amount classes symbol) s := by
  unfold amount
  rcases classes[symbol]? with _ | ⟨least, extra⟩
  · exact reads_corrupt s
  · exact (reads_bits extra s).map fun _ _ => rfl

lemma reads_elementOf (distances : CodeTable) (symbol : Nat) (s : BitSource) :
    Reads (elementOf distances symbol) s := by
  unfold elementOf
  split_ifs
  · exact reads_pure _ s
  · exact reads_pure _ s
  · refine (reads_amount lengthClasses (symbol - 257) s).seq fun length s => ?_
    refine (distances.reads s).seq fun d s => ?_
    exact (reads_amount distanceClasses d s).seq fun distance s => reads_pure _ s

lemma reads_element (literals distances : CodeTable) (s : BitSource) :
    Reads (element literals distances) s :=
  (literals.reads s).bind fun symbol s => reads_elementOf distances symbol s

/-! ### The codes of a block -/

lemma reads_lengthsOfLengths (n : Nat) (s : BitSource) : Reads (lengthsOfLengths n) s := by
  induction n generalizing s with
  | zero => exact reads_pure [] s
  | succ n ih =>
    exact (reads_bits 3 s).seq fun v s => (ih s).seq fun vs s => reads_pure (v :: vs) s

lemma reads_table (full : Bool) (lengths : List Nat) (s : BitSource) :
    Reads (table full lengths) s := by
  unfold table
  rcases CodeTable.ofLengths? full lengths with _ | t
  · exact reads_corrupt s
  · exact reads_pure t s

lemma reads_codeLengths (t : CodeTable) (total : Nat) (found : List Nat) (s : BitSource) :
    Reads (codeLengths t total found) s := by
  induction hm : total - found.length using Nat.strong_induction_on generalizing found s with
  | _ m ih =>
    -- Whatever a symbol adds to the lengths brings them nearer to their total.
    have hmore : ∀ more : List Nat, more ≠ [] → found.length < total → ∀ s,
        Reads (codeLengths t total (more ++ found)) s := by
      intro more hne hlt s
      have := List.length_pos_iff.mpr hne
      exact ih _ (by rw [List.length_append]; omega) _ s rfl
    have hrepeat : ∀ (n least last : Nat), found.length < total → ∀ s, Reads (fun s =>
        (s.bits n).bind fun r =>
          codeLengths t total (List.replicate (r.1 + (least + 1)) last ++ found) r.2) s :=
      fun n least last hlt s => (reads_bits n s).bind fun k s =>
        hmore (List.replicate (k + (least + 1)) last) (by simp) hlt s
    have hc := funext (codeLengths.eq_1 t total found)
    rw [hc]
    split_ifs with h1 h2
    · exact reads_pure _ s
    · exact reads_corrupt s
    · have hlt : found.length < total := by omega
      refine (t.reads s).bind fun symbol s => ?_
      simp only
      split_ifs
      · exact hmore [symbol] (by simp) hlt s
      · rcases found.head? with _ | last
        · exact reads_corrupt s
        · exact hrepeat 2 2 last hlt s
      · exact hrepeat 3 2 0 hlt s
      · exact hrepeat 7 10 0 hlt s

lemma reads_dynamicTables (s : BitSource) : Reads dynamicTables s := by
  refine (reads_bits 5 s).seq fun l s => ?_
  refine (reads_bits 5 s).seq fun d s => ?_
  refine (reads_bits 4 s).seq fun c s => ?_
  simp only
  split_ifs
  · exact reads_corrupt s
  · refine (reads_lengthsOfLengths (c + 4) s).seq fun written s => ?_
    refine (reads_table true (placed written) s).seq fun t s => ?_
    refine (reads_codeLengths t (l + 257 + (d + 1)) [] s).seq fun lengths s => ?_
    simp only
    refine (reads_table false (lengths.take (l + 257)) s).seq fun literals s => ?_
    simp only
    exact (reads_table false (lengths.drop (l + 257)) s).seq fun distances s =>
      reads_pure (literals, distances) s

/-! ### What is put out -/

/-- What is put out rests on the bytes taken off; where they break off, more of them can only add
to it. -/
inductive Puts (k : BitSource → Outcome) (s : BitSource) : Prop
  | ok {t u : Bytes} {o : Array UInt8} {c : List Bool} (split : s.rest = t ++ u)
      (fits : c.length ≤ s.current.length + 8 * t.length)
      (eq : ∀ y, k ⟨s.current, t ++ y⟩ = (o, .ok ⟨c, y⟩))
  | corrupt {t u : Bytes} {o : Array UInt8} (split : s.rest = t ++ u)
      (eq : ∀ y, k ⟨s.current, t ++ y⟩ = (o, .error (.corrupt y.length)))
  | truncated {o : Array UInt8} (eq : k s = (o, .error .truncated))
      (grows : ∀ y, o.toList <+: (k (s.extend y)).1.toList)

lemma Puts.size_le {k : BitSource → Outcome} {s q : BitSource} {out : Array UInt8} (h : Puts k s)
    (hq : k s = (out, .ok q)) : q.size ≤ s.size := by
  rcases h with @⟨t, u, out', c, hs, hf, h⟩ | @⟨t, u, out', hs, h⟩ | ⟨h, -⟩
  · have he := h u
    rw [← hs, hq] at he
    obtain rfl := Except.ok.inj (Prod.mk.inj he).2
    rw [BitSource.size, BitSource.size, hs, List.length_append]
    show c.length + 8 * u.length ≤ _
    omega
  · have he := h u
    rw [← hs, hq] at he
    simp at he
  · simp [hq] at h

lemma Puts.after {k k' : BitSource → Outcome} {s : BitSource} {t u : Bytes} {c : List Bool}
    (split : s.rest = t ++ u) (fits : c.length ≤ s.current.length + 8 * t.length)
    (eq : ∀ y, k ⟨s.current, t ++ y⟩ = k' ⟨c, y⟩) (h : Puts k' ⟨c, u⟩) : Puts k s := by
  rcases h with @⟨t', u', o, c', hs, hf, h⟩ | @⟨t', u', o, hs, h⟩ | @⟨o, h, hg⟩
  · refine .ok (t := t ++ t') (u := u') (o := o) (c := c') ?_ ?_ fun y => ?_
    · rw [split, show u = t' ++ u' from hs, List.append_assoc]
    · rw [List.length_append]
      have : c'.length ≤ c.length + 8 * t'.length := hf
      omega
    · rw [List.append_assoc, eq]
      exact h y
  · refine .corrupt (t := t ++ t') (u := u') (o := o) ?_ fun y => ?_
    · rw [split, show u = t' ++ u' from hs, List.append_assoc]
    · rw [List.append_assoc, eq]
      exact h y
  · refine .truncated (o := o) ?_ fun y => ?_
    · rw [← h, ← eq, ← split]
    · rw [show s.extend y = ⟨s.current, t ++ (u ++ y)⟩ by
        rw [extend, split, List.append_assoc], eq]
      exact hg y

/-- A reader that says how to go on, where `o` was put out before it. -/
lemma Puts.bind {r : BitReader α} {k : BitSource → Outcome} {f : α → BitSource → Outcome}
    {o : Array UInt8} {s : BitSource} (h : Reads r s)
    (heq : ∀ s, k s = match r s with
      | .error d => (o, .error d)
      | .ok (v, s) => f v s)
    (hf : ∀ v q, r s = .ok (v, q) → Puts (f v) q)
    (hg : ∀ y, o.toList <+: (k (s.extend y)).1.toList) : Puts k s := by
  rcases h with @⟨t, u, v, c, hs, hc, h⟩ | @⟨t, u, hs, h⟩ | h
  · refine .after hs hc (fun y => ?_) (hf v ⟨c, u⟩ ?_)
    · rw [heq, h]
    · rw [← h, ← hs]
  · refine .corrupt (o := o) hs fun y => ?_
    rw [heq, h]
  · refine .truncated (o := o) ?_ hg
    rw [heq, h]

/-- What is put out first, and then more after it unless it ends in a defect. -/
lemma Puts.next {k k' : BitSource → Outcome} {g : Array UInt8 → BitSource → Outcome}
    {s : BitSource} (h : Puts k' s)
    (heq : ∀ s, k s = match k' s with
      | (out, .error d) => (out, .error d)
      | (out, .ok r) => g out r)
    (hg : ∀ out r, k' s = (out, .ok r) → Puts (g out) r)
    (grows : ∀ out r, out.toList <+: (g out r).1.toList) : Puts k s := by
  rcases h with @⟨t, u, out, c, hs, hc, h⟩ | @⟨t, u, out, hs, h⟩ | @⟨out, h, hx⟩
  · refine .after hs hc (fun y => ?_) (hg out ⟨c, u⟩ ?_)
    · rw [heq, h]
    · rw [← h, ← hs]
  · refine .corrupt (o := out) hs fun y => ?_
    rw [heq, h]
  · refine .truncated (o := out) ?_ fun y => ?_
    · rw [heq, h]
    · refine (hx y).trans ?_
      rw [heq]
      rcases k' (s.extend y) with ⟨out', d | r⟩
      · exact List.prefix_rfl
      · exact grows out' r

lemma prefix_push (out : Array UInt8) (b : UInt8) : out.toList <+: (out.push b).toList := by
  rw [Array.toList_push]
  exact List.prefix_append _ _

lemma prefix_copy (distance n : Nat) (out : Array UInt8) :
    out.toList <+: (copy distance n out).toList := by
  induction n generalizing out with
  | zero => exact List.prefix_rfl
  | succ n ih => exact (prefix_push out _).trans (ih _)

section

variable (literals distances : CodeTable)

lemma elements_eq (out : Array UInt8) (s : BitSource) :
    elements literals distances out s = match element literals distances s with
      | .error d => (out, .error d)
      | .ok (.literal b, r) => elements literals distances (out.push b) r
      | .ok (.copy length distance, r) => elements literals distances (copy distance length out) r
      | .ok (.stop, r) => (out, .ok r) := by
  rw [elements]
  split <;> simp_all

lemma prefix_elements (out : Array UInt8) (s : BitSource) :
    out.toList <+: (elements literals distances out s).1.toList := by
  induction hm : s.size using Nat.strong_induction_on generalizing out s with
  | _ m ih =>
    rw [elements_eq]
    rcases he : element literals distances s with d | ⟨e, r⟩
    · exact List.prefix_rfl
    have hlt : r.size < m := hm ▸ size_element_lt he
    rcases e with b | ⟨length, distance⟩ | _
    · exact (prefix_push out b).trans (ih _ hlt _ r rfl)
    · exact (prefix_copy distance length out).trans (ih _ hlt _ r rfl)
    · exact List.prefix_rfl

/-- What is done with an element that has been read. -/
def afterElement (out : Array UInt8) (e : Element) (s : BitSource) : Outcome :=
  match e with
  | .literal b => elements literals distances (out.push b) s
  | .copy length distance => elements literals distances (copy distance length out) s
  | .stop => (out, .ok s)

lemma puts_elements (out : Array UInt8) (s : BitSource) :
    Puts (elements literals distances out) s := by
  induction hm : s.size using Nat.strong_induction_on generalizing out s with
  | _ m ih =>
    refine Puts.bind (reads_element literals distances s) (f := afterElement literals distances out)
      (fun s => ?_) (fun e r he => ?_) fun y => prefix_elements ..
    · rw [elements_eq]
      rcases element literals distances s with d | ⟨b | ⟨length, distance⟩ | _, r⟩ <;> rfl
    · have hlt : r.size < m := hm ▸ size_element_lt he
      rcases e with b | ⟨length, distance⟩ | _
      · exact ih _ hlt _ r rfl
      · exact ih _ hlt _ r rfl
      · exact .ok (t := []) rfl (by simp) fun _ => rfl

end

lemma prefix_storedBytes (n : Nat) (out : Array UInt8) (b : Bytes) :
    out.toList <+: (storedBytes n out b).1.toList := by
  induction n generalizing out b with
  | zero => exact List.prefix_rfl
  | succ n ih =>
    rcases b with _ | ⟨x, b⟩
    · exact List.prefix_rfl
    · exact (prefix_push out x).trans (ih _ b)

lemma puts_storedBytes (n : Nat) (out : Array UInt8) (s : BitSource) :
    Puts (fun s => storedBytes n out s.rest) s := by
  induction n generalizing out s with
  | zero => exact .ok (t := []) rfl (by simp) fun _ => rfl
  | succ n ih =>
    rcases s with ⟨c, _ | ⟨x, rest⟩⟩
    · exact .truncated rfl fun y => prefix_storedBytes ..
    · exact .after (t := [x]) rfl (by simp) (fun y => rfl) (ih (out.push x) ⟨c, rest⟩)

lemma prefix_stored (out : Array UInt8) (s : BitSource) :
    out.toList <+: (stored out s).1.toList := by
  unfold stored
  split
  · simp only
    split_ifs
    · exact prefix_storedBytes ..
    · exact List.prefix_rfl
  · exact List.prefix_rfl

lemma puts_stored (out : Array UInt8) (s : BitSource) : Puts (stored out) s := by
  by_cases hs : ∃ a b c d rest, s.rest = a :: b :: c :: d :: rest
  · obtain ⟨a, b, c, d, rest, hs⟩ := hs
    by_cases hn : a.toNat + 256 * b.toNat + (c.toNat + 256 * d.toNat) = 65535
    · refine .after (t := [a, b, c, d]) (c := []) hs (by simp) (fun y => ?_)
        (puts_storedBytes (a.toNat + 256 * b.toNat) out _)
      simp only [stored, aligned, List.cons_append, List.nil_append, if_pos hn]
    · refine .corrupt (t := [a, b, c, d]) (u := rest) (o := out) hs fun y => ?_
      simp only [stored, aligned, List.cons_append, List.nil_append, if_neg hn]
  · refine .truncated (o := out) ?_ fun y => prefix_stored out _
    unfold stored aligned
    split
    · rename_i a b c d rest h
      exact absurd ⟨a, b, c, d, rest, h⟩ hs
    · rfl

lemma prefix_body (kind : Nat) (out : Array UInt8) (s : BitSource) :
    out.toList <+: (body kind out s).1.toList := by
  unfold body
  split_ifs
  · exact prefix_stored out s
  · exact prefix_elements ..
  · split
    · exact prefix_elements ..
    · exact List.prefix_rfl
  · exact List.prefix_rfl

lemma puts_body (kind : Nat) (out : Array UInt8) (s : BitSource) : Puts (body kind out) s := by
  by_cases h0 : kind = 0
  · have heq : body kind out = stored out := funext fun s => by rw [body, if_pos h0]
    exact heq ▸ puts_stored out s
  by_cases h1 : kind = 1
  · have heq : body kind out = elements fixedLiterals fixedDistances out :=
      funext fun s => by rw [body, if_neg h0, if_pos h1]
    exact heq ▸ puts_elements _ _ out s
  by_cases h2 : kind = 2
  · refine Puts.bind (reads_dynamicTables s)
      (f := fun tables s => elements tables.1 tables.2 out s) (fun s => ?_)
      (fun tables s _ => puts_elements _ _ out s) fun y => prefix_body kind out _
    rw [body, if_neg h0, if_neg h1, if_pos h2]
    rcases dynamicTables s with d | ⟨⟨literals, distances⟩, r⟩ <;> rfl
  · refine .corrupt (t := []) (o := out) rfl fun y => ?_
    rw [List.nil_append, body, if_neg h0, if_neg h1, if_neg h2]

/-! ### Blocks -/

lemma size_bits {n v : Nat} {s r : BitSource} (h : s.bits n = .ok (v, r)) :
    r.size + n = s.size := by
  induction n generalizing s v with
  | zero =>
    obtain ⟨-, rfl⟩ := Prod.mk.inj (Except.ok.inj h)
    rfl
  | succ n ih =>
    rw [bits] at h
    rcases hq : s.next? with _ | ⟨b, q⟩ <;> rw [hq] at h
    · simp at h
    · rcases hb : bits n q with d | ⟨w, r'⟩ <;> simp only [hb, Except.map] at h
      · simp at h
      · obtain ⟨-, rfl⟩ := Prod.mk.inj (Except.ok.inj h)
        have h1 := size_next? hq
        have h2 := ih hb
        omega

/-- What a block begins with: whether it is the last one, and its kind. -/
def opening : BitReader (Nat × Nat) := fun s =>
  (s.bits 1).bind fun (final, s) => (s.bits 2).map fun (kind, s) => ((final, kind), s)

lemma reads_opening (s : BitSource) : Reads opening s :=
  (reads_bits 1 s).bind fun final s =>
    (reads_bits 2 s).map (g := fun kind => (final, kind)) fun _ _ => rfl

lemma size_opening {m : Nat × Nat} {s r : BitSource} (h : opening s = .ok (m, r)) :
    r.size + 3 = s.size := by
  unfold opening at h
  rcases h1 : s.bits 1 with d | ⟨final, q⟩ <;> simp only [h1, Except.bind] at h
  · simp at h
  rcases h2 : q.bits 2 with d | ⟨kind, q'⟩ <;> simp only [h2, Except.map] at h
  · simp at h
  · obtain ⟨-, rfl⟩ := Prod.mk.inj (Except.ok.inj h)
    have := size_bits h1
    have := size_bits h2
    omega

/-- A block after its opening, and the blocks after it unless it is the last. -/
def opened (out : Array UInt8) (m : Nat × Nat) (s : BitSource) : Outcome :=
  match body m.2 out s with
  | (out, .error d) => (out, .error d)
  | (out, .ok r) => if m.1 = 1 then (out, .ok r) else blocks out r

/-- Every block takes bits, so that those after it are read in any case. -/
lemma blocks_eq (out : Array UInt8) (s : BitSource) :
    blocks out s = match opening s with
      | .error d => (out, .error d)
      | .ok (m, s) => opened out m s := by
  have hb : blocks out s = match opening s with
      | .error d => (out, .error d)
      | .ok (m, r) => match body m.2 out r with
        | (out, .error d) => (out, .error d)
        | (out, .ok r) =>
          if m.1 = 1 then (out, .ok r)
          else if r.size < s.size then blocks out r
          else (out, .error .truncated) := by
    rw [blocks, opening]
    rcases s.bits 1 with d | ⟨final, q⟩
    · rfl
    · simp only [Except.bind_ok]
      rcases q.bits 2 with d | ⟨kind, r⟩ <;> rfl
  rw [hb]
  rcases ho : opening s with d | ⟨m, r⟩
  · rfl
  simp only [opened]
  rcases hr : body m.2 out r with ⟨out', d | r'⟩
  · rfl
  · have hlt : r'.size < s.size := by
      have := size_opening ho
      have := (puts_body m.2 out r).size_le hr
      omega
    simp only [hlt, if_true]

lemma prefix_blocks (out : Array UInt8) (s : BitSource) :
    out.toList <+: (blocks out s).1.toList := by
  induction hm : s.size using Nat.strong_induction_on generalizing out s with
  | _ n ih =>
    rw [blocks_eq]
    rcases ho : opening s with d | ⟨m, r⟩
    · exact List.prefix_rfl
    simp only [opened]
    have hp := prefix_body m.2 out r
    rcases hb : body m.2 out r with ⟨out', d | r'⟩ <;> rw [hb] at hp
    · exact hp
    · have := size_opening ho
      have := (puts_body m.2 out r).size_le hb
      simp only
      split_ifs
      · exact hp
      · exact hp.trans (ih _ (by omega) out' r' rfl)

/-- **What is read of a stream stays**: blocks that come to an end or to a defect do so whatever
stands after them, and of blocks that break off, what is put out comes first. -/
lemma puts_blocks (out : Array UInt8) (s : BitSource) : Puts (blocks out) s := by
  induction hm : s.size using Nat.strong_induction_on generalizing out s with
  | _ n ih =>
    refine Puts.bind (o := out) (f := opened out) (reads_opening s) (fun s => ?_) ?_
      fun y => prefix_blocks out _
    · rw [blocks_eq]
      rcases opening s with d | ⟨m, r⟩ <;> rfl
    intro m r ho
    have h3 := size_opening ho
    refine (puts_body m.2 out r).next (g := fun out r => if m.1 = 1 then (out, .ok r)
      else blocks out r) (fun s => rfl) ?_ ?_
    · intro out' r' hb
      have := (puts_body m.2 out r).size_le hb
      split_ifs
      · exact .ok (t := []) rfl (by simp) fun _ => rfl
      · exact ih _ (by omega) out' r' rfl
    · intro out' r'
      split_ifs
      · exact List.prefix_rfl
      · exact prefix_blocks out' r'

/-- A stream ends or has a defect at some place, whatever stands after it, or it breaks off. -/
theorem inflate_cases (b : Bytes) :
    (∃ t u out unused, b = t ++ u ∧ ∀ y, inflate (t ++ y) = (out, .ok ⟨unused, y⟩)) ∨
      (∃ t u out, b = t ++ u ∧ ∀ y, inflate (t ++ y) = (out, .error (.corrupt y.length))) ∨
      ∃ out, inflate b = (out, .error .truncated) ∧
        ∀ y, out.toList <+: (inflate (b ++ y)).1.toList := by
  rcases puts_blocks #[] (.ofBytes b) with
    @⟨t, u, out, unused, hs, -, he⟩ | @⟨t, u, out, hs, he⟩ | @⟨out, he, hg⟩
  · exact .inl ⟨t, u, out, unused, hs, he⟩
  · exact .inr (.inl ⟨t, u, out, hs, he⟩)
  · exact .inr (.inr ⟨out, he, hg⟩)

end Inflate

end PinnedBuild.Archive
