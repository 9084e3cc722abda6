import Mathlib
import PinnedBuild.Archive.Member
import PinnedBuild.Proofs.Archive.Gzip

/-!
The members of an archive end at a block of zeros, and what stands after it is not looked at.

Without such a block they end properly only where the feed does.
-/

namespace PinnedBuild.Archive

open Files

/-- The second feed is the first after some bytes. -/
structure Feed.Takes (t : Bytes) (f g : Feed) : Prop where
  bytes : f.bytes = t ++ g.bytes
  complete : g.complete = f.complete
  position : g.position = f.position + t.length

namespace Feed

variable {f g : Feed} {t u : Bytes} {n : Nat}

lemma Takes.trans {k : Feed} (h : Takes t f g) (h' : Takes u g k) : Takes (t ++ u) f k where
  bytes := by rw [h.bytes, h'.bytes, List.append_assoc]
  complete := h'.complete.trans h.complete
  position := by rw [h'.position, h.position, List.length_append, Nat.add_assoc]

lemma Takes.split (h : Takes (t ++ u) f g) : ∃ k, Takes t f k ∧ Takes u k g := by
  refine ⟨⟨u ++ g.bytes, f.complete, f.position + t.length⟩, ⟨?_, rfl, rfl⟩, rfl, h.complete, ?_⟩
  · rw [h.bytes, List.append_assoc]
  · rw [h.position, List.length_append, Nat.add_assoc]

lemma takes_nil : Takes [] f g ↔ g = f := by
  constructor
  · rintro ⟨hb, hc, hp⟩
    rcases f with ⟨fb, fc, fp⟩
    rcases g with ⟨gb, gc, gp⟩
    simp_all
  · rintro rfl
    exact ⟨rfl, rfl, rfl⟩

/-- A feed that begins with some bytes, after them. -/
lemma takes_of_bytes (h : f.bytes = t ++ u) :
    Takes t f ⟨u, f.complete, f.position + t.length⟩ := ⟨h, rfl, rfl⟩

lemma drop?_iff : f.drop? n = some g ↔ ∃ t, t.length = n ∧ Takes t f g := by
  unfold drop?
  split_ifs with hn
  · subst hn
    constructor
    · intro h
      exact ⟨[], rfl, takes_nil.mpr (Option.some.inj h).symm⟩
    · rintro ⟨t, ht, h⟩
      obtain rfl := List.length_eq_zero_iff.mp ht
      rw [takes_nil.mp h]
  · constructor
    · intro h
      split at h
      · simp at h
      · rename_i x rest hd
        obtain rfl := Option.some.inj h
        have hlen := congrArg List.length hd
        simp only [List.length_drop, List.length_cons] at hlen
        have ht : (f.bytes.take n).length = n := by
          rw [List.length_take]
          omega
        refine ⟨f.bytes.take n, ht, ?_, rfl, ?_⟩
        · have hrest : f.bytes.drop n = rest := by
            have := congrArg (List.drop 1) hd
            rw [List.drop_drop] at this
            simpa [show n - 1 + 1 = n by omega] using this
          exact hrest ▸ (List.take_append_drop n f.bytes).symm
        · rw [ht]
    · rintro ⟨t, ht, hb, hc, hp⟩
      obtain ⟨t', x, rfl⟩ := List.eq_nil_or_concat t |>.resolve_left (by
        rintro rfl
        exact hn ht.symm)
      rw [List.length_concat] at ht
      have hd : f.bytes.drop (n - 1) = x :: g.bytes := by
        rw [hb, List.concat_eq_append, List.append_assoc]
        exact List.drop_left' (by omega)
      rw [hd]
      rcases g with ⟨gb, gc, gp⟩
      simp only [List.length_concat] at hc hp
      simp [hc, hp, ht]

lemma block?_some {b : Bytes} :
    f.block? = .ok (some (b, g)) ↔ b.length = blockSize ∧ Takes b f g := by
  unfold block?
  constructor
  · intro h
    split_ifs at h
    · simp at h
    · split at h
      · rename_i q hq
        obtain ⟨t, ht, hq⟩ := drop?_iff.mp hq
        obtain ⟨rfl, rfl⟩ := Prod.mk.inj (Option.some.inj (Except.ok.inj h))
        rw [hq.bytes, List.take_left' ht]
        exact ⟨ht, hq⟩
      · simp at h
  · rintro ⟨hb, h⟩
    have hne : f.bytes.isEmpty = false := by
      rw [h.bytes]
      rcases b with _ | ⟨x, b⟩
      · simp [blockSize] at hb
      · rfl
    rw [hne, drop?_iff.mpr ⟨b, hb, h⟩]
    simp [h.bytes, List.take_left' hb]

lemma block?_none : f.block? = .ok none ↔ f.bytes = [] ∧ f.complete = true := by
  unfold block?
  constructor
  · intro h
    split_ifs at h with he
    · simpa using he
    · split at h <;> simp at h
  · rintro ⟨hb, hc⟩
    simp [hb, hc]

end Feed

namespace Raw

variable {records : Option Bytes} {f g : Feed} {r : Raw} {a : Attached}

lemma size_le_span (r : Raw) : r.size ≤ r.span := by
  unfold span
  have := Nat.div_add_mod (r.size + (blockSize - 1)) blockSize
  have hlt := Nat.mod_lt (r.size + (blockSize - 1)) (show 0 < blockSize by decide)
  have hb : blockSize = 512 := rfl
  rw [hb] at this hlt ⊢
  omega

lemma dvd_span (r : Raw) : blockSize ∣ r.span := Nat.dvd_mul_left _ _

/-- What a header comes to, once its block has been read. -/
def ofBlock (records : Option Bytes) (h : Header) (after : Feed) : Except Unit (Option Raw) :=
  if Header.isZero h then .ok none
  else if !Header.checksumFits h then .error ()
  else match Header.size? h with
    | none => .error ()
    | some own =>
      let r : Raw := ⟨h, (records.bind Pax.size?).getD own, after⟩
      if r.size + (blockSize - 1) < UInt64.size ∧ after.position + r.span < UInt64.size then
        .ok (some r)
      else .error ()

lemma next?_eq (records : Option Bytes) (f : Feed) : next? records f = match f.block? with
    | .error e => .error e
    | .ok none => .ok none
    | .ok (some (h, after)) => ofBlock records h after := by
  unfold next?
  rcases f.block? with e | _ | ⟨h, after⟩
  · rfl
  · rfl
  · show (if Header.isZero h then _ else _) = ofBlock records h after
    unfold ofBlock
    split_ifs
    · rfl
    · rfl
    · rcases Header.size? h with _ | own
      · rfl
      · simp only
        split_ifs <;> rfl

lemma ofBlock_some {h : Header} {after : Feed} (ho : ofBlock records h after = .ok (some r)) :
    r.after = after ∧ after.position + r.span < UInt64.size ∧
      ∀ g : Feed, g.position + r.span < UInt64.size →
        ofBlock records h g = .ok (some { r with after := g }) := by
  unfold ofBlock at ho ⊢
  split_ifs at ho ⊢ with hz hc
  · simp at ho
  rcases hs : Header.size? h with _ | own <;> rw [hs] at ho
  · simp at ho
  · simp only at ho ⊢
    split_ifs at ho with hp
    obtain rfl := Option.some.inj (Except.ok.inj ho)
    exact ⟨rfl, hp.2, fun g hg => if_pos ⟨hp.1, hg⟩⟩

/-- A header is read off a block, wherever there is room for what it announces. -/
lemma next?_within (h : next? records f = .ok (some r)) :
    ∃ t, t.length = blockSize ∧ Feed.Takes t f r.after ∧
      r.after.position + r.span < UInt64.size ∧
      ∀ f₂ g₂, Feed.Takes t f₂ g₂ → g₂.position + r.span < UInt64.size →
        next? records f₂ = .ok (some { r with after := g₂ }) := by
  rw [next?_eq] at h
  rcases hb : f.block? with e | _ | ⟨t, after⟩ <;> rw [hb] at h
  · simp at h
  · simp at h
  obtain ⟨ht, htakes⟩ := Feed.block?_some.mp hb
  obtain ⟨rfl, hroom, hany⟩ := ofBlock_some h
  refine ⟨t, ht, htakes, hroom, fun f₂ g₂ h₂ hp => ?_⟩
  rw [next?_eq, Feed.block?_some.mpr ⟨ht, h₂⟩]
  exact hany g₂ hp

/-- A header is read off a block, and what stands after it does not matter. -/
lemma next?_some (h : next? records f = .ok (some r)) :
    ∃ t, t.length = blockSize ∧ Feed.Takes t f r.after ∧ ∀ f₂ g₂, Feed.Takes t f₂ g₂ →
      f₂.position = f.position → next? records f₂ = .ok (some { r with after := g₂ }) := by
  obtain ⟨t, ht, htakes, hroom, hany⟩ := next?_within h
  refine ⟨t, ht, htakes, fun f₂ g₂ h₂ hp => hany f₂ g₂ h₂ ?_⟩
  rwa [h₂.position, hp, ← htakes.position]

/-- No header follows at the end of the feed and at a block of zeros. -/
lemma next?_none (h : next? records f = .ok none) : (f.bytes = [] ∧ f.complete = true) ∨
    ∃ t g, t.length = blockSize ∧ Feed.Takes t f g ∧ Header.isZero t = true := by
  rw [next?_eq] at h
  rcases hb : f.block? with e | _ | ⟨t, after⟩ <;> rw [hb] at h
  · simp at h
  · exact .inl (Feed.block?_none.mp hb)
  · obtain ⟨ht, htakes⟩ := Feed.block?_some.mp hb
    refine .inr ⟨t, after, ht, htakes, ?_⟩
    simp only [ofBlock] at h
    split_ifs at h with hz
    · exact hz
    · rcases hs : Header.size? t with _ | own <;> rw [hs] at h
      · simp at h
      · simp only at h
        split_ifs at h
        simp at h

lemma next?_of_isZero {t : Bytes} (ht : t.length = blockSize) (hz : Header.isZero t = true)
    (h : Feed.Takes t f g) : next? records f = .ok none := by
  rw [next?_eq, Feed.block?_some.mpr ⟨ht, h⟩]
  exact if_pos hz

end Raw

/-! ### Files with holes -/

namespace HoleMap

/-- The same map with other data. -/
def withData (m : HoleMap) (d : Bytes) : HoleMap := { m with data := d }

/-- All the data still to be given out are there, and the same in both. -/
structure Agrees (m : HoleMap) (d : Bytes) : Prop where
  enough : m.remaining ≤ m.data.length
  same : d.take m.remaining = m.data.take m.remaining

/-- A step that gives out the same of data that agree. -/
def Steady (step : HoleMap → Option HoleMap) : Prop :=
  ∀ m d m', step m = some m' → m.Agrees d →
    ∃ d', step (m.withData d) = some (m'.withData d') ∧ m'.Agrees d'

lemma steady_add (size : Nat) (entry : Bytes) : Steady (add size entry) := by
  intro m d m' h ha
  unfold add at h
  simp only at h
  by_cases hnone : (entry.take 12).headD 0 = 0 ∨ ((entry.drop 12).take 12).headD 0 = 0
  · rw [if_pos hnone] at h
    obtain rfl := Option.some.inj h
    exact ⟨d, by simp only [add, if_pos hnone], ha⟩
  rw [if_neg hnone] at h
  obtain ⟨off, hoff, h⟩ := Option.bind_eq_some_iff.mp h
  obtain ⟨len, hlen, h⟩ := Option.bind_eq_some_iff.mp h
  by_cases h₁ : len ≠ 0 ∧ (size - m.remaining) % blockSize ≠ 0
  · simp [if_pos h₁] at h
  by_cases h₂ : off < m.position
  · simp [if_pos h₂] at h
  by_cases h₃ : UInt64.size ≤ off + len ∨ m.remaining < len
  · simp [if_pos h₃] at h
  rw [if_neg h₁, if_neg h₂, if_neg h₃] at h
  obtain rfl := Option.some.inj h
  have hle : len ≤ m.remaining := by omega
  have htake : d.take len = m.data.take len := by
    have := congrArg (List.take len) ha.same
    rwa [List.take_take, List.take_take, Nat.min_eq_left hle] at this
  refine ⟨d.drop len, ?_, ?_, ?_⟩
  · simp only [add, withData, if_neg hnone, hoff, hlen, bind, Option.bind, if_neg h₁, if_neg h₂,
      if_neg h₃, htake]
    rfl
  · have := ha.enough
    simp only [List.length_drop]
    omega
  · have := congrArg (List.drop len) ha.same
    rwa [List.drop_take, List.drop_take] at this

lemma steady_foldlM {γ : Type} {step : HoleMap → γ → Option HoleMap}
    (h : ∀ c, Steady fun m => step m c) (l : List γ) : Steady fun m => l.foldlM step m := by
  induction l with
  | nil =>
    intro m d m' hm ha
    obtain rfl := Option.some.inj hm
    exact ⟨d, rfl, ha⟩
  | cons c l ih =>
    intro m d m' hm ha
    simp only [List.foldlM_cons] at hm ⊢
    obtain ⟨m₁, h₁, hm⟩ := Option.bind_eq_some_iff.mp hm
    obtain ⟨d₁, hd₁, ha₁⟩ := h c m d m₁ h₁ ha
    obtain ⟨d', hd', ha'⟩ := ih m₁ d₁ m' hm ha₁
    exact ⟨d', Option.bind_eq_some_iff.mpr ⟨_, hd₁, hd'⟩, ha'⟩

lemma steady_addAll (size count : Nat) (entries : Bytes) :
    Steady (addAll size count entries) :=
  steady_foldlM (fun _ => steady_add size _) _

end HoleMap

lemma holeEntries_true (f : Feed) : holeEntries true f = match f.block? with
    | .error e => .error e
    | .ok none => .error ()
    | .ok (some (b, rest)) =>
      (holeEntries ((b.drop 504).headD 0 == 1) rest).map fun p => (b :: p.1, p.2) := by
  rw [holeEntries]
  simp only [if_true]
  split <;> simp only [*]

lemma holeEntries_ok {more : Bool} {f g : Feed} {bs : List Bytes}
    (h : holeEntries more f = .ok (bs, g)) :
    ∃ t, blockSize ∣ t.length ∧ Feed.Takes t f g ∧
      ∀ f₂ g₂, Feed.Takes t f₂ g₂ → holeEntries more f₂ = .ok (bs, g₂) := by
  induction hm : f.bytes.length using Nat.strong_induction_on generalizing more f bs with
  | _ n ih =>
    cases more
    · rw [holeEntries] at h
      obtain ⟨rfl, rfl⟩ := Prod.mk.inj (Except.ok.inj h)
      refine ⟨[], Nat.dvd_zero _, Feed.takes_nil.mpr rfl, fun f₂ g₂ h₂ => ?_⟩
      rw [holeEntries, Feed.takes_nil.mp h₂]
      rfl
    · rw [holeEntries_true] at h
      rcases hb : f.block? with e | _ | ⟨b, rest⟩ <;> simp only [hb] at h
      · simp at h
      · simp at h
      obtain ⟨hlen, htakes⟩ := Feed.block?_some.mp hb
      rcases hr : holeEntries ((b.drop 504).headD 0 == 1) rest with e | ⟨bs', g'⟩ <;>
        rw [hr] at h
      · simp [Except.map] at h
      obtain ⟨rfl, rfl⟩ := Prod.mk.inj (Except.ok.inj h)
      have hlt : rest.bytes.length < n := by
        have hblock : blockSize = 512 := rfl
        rw [← hm, htakes.bytes, List.length_append]
        omega
      obtain ⟨t, hdvd, ht, hany⟩ := ih _ hlt hr rfl
      refine ⟨b ++ t, ?_, htakes.trans ht, fun f₂ g₂ h₂ => ?_⟩
      · rw [List.length_append, hlen]
        exact Nat.dvd_add (Nat.dvd_refl _) hdvd
      · obtain ⟨k, hmid, hend⟩ := h₂.split
        rw [holeEntries_true, Feed.block?_some.mpr ⟨hlen, hmid⟩]
        simp only [hany _ _ hend]
        rfl

/-- The map of a file with holes, in its header and in the blocks after it. -/
def holes (r : Raw) (blocks : List Bytes) (start : HoleMap) : Option HoleMap :=
  (start.addAll r.size 4 (r.header.field 386 96)).bind fun m =>
    blocks.foldlM (fun m b => m.addAll r.size 21 b) m

lemma steady_holes (r : Raw) (blocks : List Bytes) : HoleMap.Steady (holes r blocks) := by
  intro m d m' h ha
  obtain ⟨m₁, h₁, h⟩ := Option.bind_eq_some_iff.mp h
  obtain ⟨d₁, hd₁, ha₁⟩ := HoleMap.steady_addAll r.size 4 (r.header.field 386 96) m d m₁ h₁ ha
  obtain ⟨d', hd', ha'⟩ :=
    HoleMap.steady_foldlM (HoleMap.steady_addAll r.size 21) blocks m₁ d₁ m' h ha₁
  exact ⟨d', Option.bind_eq_some_iff.mpr ⟨_, hd₁, hd'⟩, ha'⟩

lemma holeBody_eq (r : Raw) : holeBody r =
    if r.header.isGnu then match holeEntries (r.header.byteAt 482 == 1) r.after with
      | .error e => .error e
      | .ok (blocks, after) =>
        match holes r blocks ⟨0, r.size, [], after.bytes⟩,
          Header.octal? (r.header.field 483 12) with
        | some m, some real =>
          if m.position = real ∧ m.remaining = 0 then .ok (m.body.reverse, after) else .error ()
        | _, _ => .error ()
    else .error () := by
  unfold holeBody
  rcases r.header.isGnu
  · rfl
  · rcases holeEntries (r.header.byteAt 482 == 1) r.after with e | ⟨blocks, after⟩ <;> rfl

lemma holeBody_ok {r : Raw} {body : List Segment} {after : Feed}
    (h : holeBody r = .ok (body, after)) :
    ∃ t, blockSize ∣ t.length ∧ Feed.Takes t r.after after ∧
      ∀ g g', Feed.Takes t g g' → r.size ≤ after.bytes.length →
      g'.bytes.take r.size = after.bytes.take r.size →
      holeBody { r with after := g } = .ok (body, g') := by
  rw [holeBody_eq] at h
  rcases hgnu : r.header.isGnu <;> rw [hgnu] at h
  · simp at h
  rcases he : holeEntries (r.header.byteAt 482 == 1) r.after with e | ⟨blocks, rest⟩ <;>
    simp only [he, if_true] at h
  · simp at h
  obtain ⟨t, hdvd, ht, hany⟩ := holeEntries_ok he
  rcases hm : holes r blocks ⟨0, r.size, [], rest.bytes⟩ with _ | m <;> rw [hm] at h
  · simp at h
  rcases hr : Header.octal? (r.header.field 483 12) with _ | real <;> rw [hr] at h
  · simp at h
  simp only at h
  split_ifs at h with hend
  obtain ⟨rfl, rfl⟩ := Prod.mk.inj (Except.ok.inj h)
  refine ⟨t, hdvd, ht, fun g g' hg hle hsame => ?_⟩
  obtain ⟨d', hd', -⟩ := steady_holes r blocks _ g'.bytes m hm ⟨hle, hsame⟩
  rw [holeBody_eq]
  simp only [hgnu, if_true, hany g g' hg, hr]
  rw [show holes { r with after := g } blocks ⟨0, r.size, [], g'.bytes⟩ =
    some (m.withData d') from hd']
  exact if_pos hend

/-! ### Members -/

/-- A member is the same wherever all of its data are the same. -/
lemma Raw.member_ok {r : Raw} {a : Attached} {m : Member} {after : Feed}
    (h : r.member a = .ok (m, after)) :
    ∃ t, blockSize ∣ t.length ∧ Feed.Takes t r.after after ∧
      ∀ g g', Feed.Takes t g g' → r.size ≤ after.bytes.length →
      g'.bytes.take r.size = after.bytes.take r.size →
      Raw.member { r with after := g } a = .ok (m, g') := by
  unfold Raw.member at h
  by_cases hs : r.header.typeFlag = 'S'
  · rw [if_pos hs] at h
    rcases hb : holeBody r with e | ⟨body, rest⟩ <;> rw [hb] at h
    · simp at h
    obtain ⟨rfl, rfl⟩ := Prod.mk.inj (Except.ok.inj h)
    obtain ⟨t, hdvd, ht, hany⟩ := holeBody_ok hb
    refine ⟨t, hdvd, ht, fun g g' hg hle hsame => ?_⟩
    simp only [Raw.member, if_pos hs, hany g g' hg hle hsame]
    rfl
  · rw [if_neg hs] at h
    obtain ⟨rfl, rfl⟩ := Prod.mk.inj (Except.ok.inj h)
    refine ⟨[], Nat.dvd_zero _, Feed.takes_nil.mpr rfl, fun g g' hg hle hsame => ?_⟩
    obtain rfl := Feed.takes_nil.mp hg
    simp only [Raw.member, if_neg hs, Raw.data, hsame]
    rfl

/-- What a header leads to: an attachment to the next member, or a member of its own. -/
def goOn (found : List Member) (a : Attached) (r : Raw) : List Member × Bool :=
  match a.add? r.header r.data with
  | some (.error _) => (found.reverse, false)
  | some (.ok a') => membersFrom found a' r.span r.after
  | none => match r.member a with
    | .error _ => (found.reverse, false)
    | .ok (m, after) => membersFrom (m :: found) {} r.span after

lemma membersFrom_eq (found : List Member) (a : Attached) (skip : Nat) (f : Feed) :
    membersFrom found a skip f = match f.drop? skip with
      | none => (found.reverse, false)
      | some f => match Raw.next? a.records f with
        | .error _ => (found.reverse, false)
        | .ok none => (found.reverse, a.isNone)
        | .ok (some r) => goOn found a r := by
  rw [membersFrom]
  split
  · rename_i h
    rw [h]
  · rename_i f' h
    rw [h]
    simp only
    split
    · rename_i e h'
      rw [h']
    · rename_i h'
      rw [h']
    · rename_i r h'
      rw [h']
      simp only [goOn]
      rcases a.add? r.header r.data with _ | (_ | a')
      · simp only
        rcases hm : r.member a with e | ⟨m, after⟩
        · rfl
        · obtain ⟨t, -, ht, -⟩ := Raw.member_ok hm
          have hle : after.bytes.length ≤ r.after.bytes.length := by
            rw [ht.bytes, List.length_append]
            omega
          simp only [if_pos hle]
      · rfl
      · rfl

lemma le_length_of_membersFrom {found ms : List Member} {a : Attached} {skip : Nat} {f : Feed}
    (h : membersFrom found a skip f = (ms, true)) : skip ≤ f.bytes.length := by
  rw [membersFrom_eq] at h
  rcases hd : f.drop? skip with _ | f' <;> rw [hd] at h
  · simp at h
  · obtain ⟨t, rfl, ht⟩ := Feed.drop?_iff.mp hd
    rw [ht.bytes, List.length_append]
    omega

/-- Whether a header announces an attachment does not rest on the data. -/
lemma Attached.add?_none {a : Attached} {h : Header} {d : Bytes} (hn : a.add? h d = none)
    (d' : Bytes) : a.add? h d' = none := by
  unfold Attached.add? at hn ⊢
  by_cases hk : (h.isGnu || h.isUstar) = true
  · rw [if_pos hk] at hn ⊢
    revert hn
    split <;> simp
  · rw [if_neg hk]

/-- What a header leads to rests on the bytes up to the end of its data. -/
lemma goOn_ok {found ms : List Member} {a : Attached} {r : Raw} (h : goOn found a r = (ms, true)) :
    ∃ found' a' k t, blockSize ∣ t.length ∧ Feed.Takes t r.after k ∧
      membersFrom found' a' r.span k = (ms, true) ∧
      ∀ g g', Feed.Takes t g g' → g'.bytes.take r.size = k.bytes.take r.size →
        goOn found a { r with after := g } = membersFrom found' a' r.span g' := by
  unfold goOn at h
  rcases hadd : a.add? r.header r.data with _ | (_ | a') <;> rw [hadd] at h
  · simp only at h
    rcases hm : r.member a with e | ⟨m, after⟩ <;> rw [hm] at h
    · simp at h
    · obtain ⟨t, hdvd, ht, hany⟩ := Raw.member_ok hm
      have hsize : r.size ≤ after.bytes.length := r.size_le_span.trans (le_length_of_membersFrom h)
      refine ⟨m :: found, {}, after, t, hdvd, ht, h, fun g g' hg hsame => ?_⟩
      simp only [goOn, Attached.add?_none hadd, hany g g' hg hsize hsame]
      rfl
  · simp at h
  · refine ⟨found, a', r.after, [], Nat.dvd_zero _, Feed.takes_nil.mpr rfl, h,
      fun g g' hg hsame => ?_⟩
    obtain rfl := Feed.takes_nil.mp hg
    have hdata : a.add? r.header (g'.bytes.take r.size) = some (.ok a') := by rw [hsame]; exact hadd
    simp only [goOn, Raw.data, hdata]
    rfl

lemma membersFrom_drop {found : List Member} {a : Attached} {skip : Nat} {f g : Feed}
    (h : f.drop? skip = some g) : membersFrom found a skip f = membersFrom found a 0 g := by
  rw [membersFrom_eq, membersFrom_eq found a 0 g, h]
  rfl

/-! ### Complete members -/

/-- Bytes that are one member from its first header to the end of its padding: what is attached to
it first, each with its own header and data, and then itself. `a` has been attached before. -/
inductive Complete : Attached → Bytes → Member → Prop
  | own {a : Attached} {b : Bytes} {r : Raw} {m : Member} {after : Feed} :
      Raw.next? a.records ⟨b, true, 0⟩ = .ok (some r) → a.add? r.header r.data = none →
      r.member a = .ok (m, after) → after.bytes.length = r.span → Complete a b m
  | attached {a a' : Attached} {b rest : Bytes} {r : Raw} {m : Member} :
      Raw.next? a.records ⟨b, true, 0⟩ = .ok (some r) →
      a.add? r.header r.data = some (.ok a') → r.after.bytes.length = r.span →
      Complete a' rest m → Complete a (b ++ rest) m

section

variable {a : Attached} {b : Bytes} {bs : List Bytes} {m : Member} {ms : List Member} {f g : Feed}
  {r : Raw}

/-- A header with the data that belong to it and nothing else, wherever it stands. -/
lemma next?_alone {records : Option Bytes} (h : Raw.next? records ⟨b, true, 0⟩ = .ok (some r))
    {front data : Bytes} (hfront : front ++ data = r.after.bytes) (hdata : data.length = r.span)
    (ht : Feed.Takes b f g) (hg : g.position < UInt64.size) :
    ∃ k k', Raw.next? records f = .ok (some { r with after := k }) ∧ Feed.Takes front k k' ∧
      Feed.Takes data k' g := by
  obtain ⟨t, -, htakes, -, hany⟩ := Raw.next?_within h
  have hb : b = t ++ (front ++ data) := by
    rw [hfront]
    exact htakes.bytes
  rw [hb] at ht
  obtain ⟨k, hheader, hrest⟩ := ht.split
  obtain ⟨k', hk, hk'⟩ := hrest.split
  refine ⟨k, k', hany f k hheader ?_, hk, hk'⟩
  have hfits : k'.position + r.span = g.position := by rw [hk'.position, hdata]
  have hafter : k'.position = k.position + front.length := hk.position
  omega

/-- A complete member is read as that, wherever it stands. -/
lemma membersFrom_complete (h : Complete a b m) (ht : Feed.Takes b f g)
    (hg : g.position < UInt64.size) (found : List Member) :
    membersFrom found a 0 f = membersFrom (m :: found) {} 0 g := by
  induction h generalizing f with
  | @own a b r m after hnext hadd hmember hlength =>
    obtain ⟨front, -, hafter, hany⟩ := Raw.member_ok hmember
    obtain ⟨k, k', hk, hfront, hdata⟩ := next?_alone hnext hafter.bytes.symm hlength ht hg
    have hsize : r.size ≤ after.bytes.length := hlength ▸ r.size_le_span
    have hsame : k'.bytes.take r.size = after.bytes.take r.size := by
      rw [hdata.bytes, List.take_append_of_le_length hsize]
    have hread := hany k k' hfront hsize hsame
    have hdrop : k'.drop? r.span = some g := Feed.drop?_iff.mpr ⟨_, hlength, hdata⟩
    rw [membersFrom_eq]
    simp only [Feed.drop?, if_true, hk, goOn, Attached.add?_none hadd, hread]
    exact membersFrom_drop hdrop
  | @attached a a' b rest r m hnext hadd hlength hrest ih =>
    obtain ⟨k₀, hown, hmember⟩ := ht.split
    have hk₀ : k₀.position < UInt64.size := by
      have := hmember.position
      omega
    obtain ⟨k, k', hk, hfront, hdata⟩ :=
      next?_alone hnext (List.nil_append _) hlength hown hk₀
    rw [Feed.takes_nil.mp hfront] at hdata
    have hsize : r.size ≤ r.after.bytes.length := hlength ▸ r.size_le_span
    have hsame : Raw.data { r with after := k } = r.data := by
      show k.bytes.take r.size = r.after.bytes.take r.size
      rw [hdata.bytes, List.take_append_of_le_length hsize]
    have hdrop : k.drop? r.span = some k₀ := Feed.drop?_iff.mpr ⟨_, hlength, hdata⟩
    rw [membersFrom_eq]
    simp only [Feed.drop?, if_true, hk, goOn, hsame, hadd]
    exact (membersFrom_drop hdrop).trans (ih hmember)

lemma membersFrom_all (h : List.Forall₂ (Complete {}) bs ms) (ht : Feed.Takes bs.flatten f g)
    (hg : g.position < UInt64.size) (found : List Member) :
    membersFrom found {} 0 f = membersFrom (ms.reverse ++ found) {} 0 g := by
  induction h generalizing f found with
  | nil => rw [Feed.takes_nil.mp ht, List.reverse_nil, List.nil_append]
  | @cons b m bs ms hm _ ih =>
    obtain ⟨k, hb, hrest⟩ := (List.flatten_cons ▸ ht : Feed.Takes (b ++ bs.flatten) f g).split
    have hk : k.position < UInt64.size := by
      have := hrest.position
      omega
    rw [membersFrom_complete hm hb hk, ih hrest, List.reverse_cons, List.append_assoc]
    rfl

end

/-! ### The end of an archive -/

/-- Full blocks, the last of which holds zeros only. -/
def EndsInZeros (b : Bytes) : Prop :=
  ∃ front zeros, b = front ++ zeros ∧ blockSize ∣ front.length ∧ zeros.length = blockSize ∧
    Header.isZero zeros = true

lemma EndsInZeros.append {b t : Bytes} (h : EndsInZeros b) (ht : blockSize ∣ t.length) :
    EndsInZeros (t ++ b) := by
  obtain ⟨front, zeros, rfl, hf, hl, hz⟩ := h
  refine ⟨t ++ front, zeros, by simp, ?_, hl, hz⟩
  rw [List.length_append]
  exact Nat.dvd_add ht hf

/-- The members of a feed end at a block of zeros within it, and do so whatever stands after it. -/
def EndsAtMark (found : List Member) (a : Attached) (skip : Nat) (f : Feed) (ms : List Member) :
    Prop :=
  ∃ upTo, EndsInZeros upTo ∧ upTo <+: f.bytes ∧
    ∀ g : Feed, g.position = f.position → upTo <+: g.bytes →
      membersFrom found a skip g = (ms, true)

/-- Bytes in front of a feed whose members end at a mark. -/
lemma EndsAtMark.of_takes {found found' ms : List Member} {a a' : Attached} {skip skip' n : Nat}
    {f k : Feed} {t : Bytes} (h : EndsAtMark found' a' skip' k ms) (ht : Feed.Takes t f k)
    (hd : blockSize ∣ t.length) (hn : n ≤ skip')
    (heq : ∀ g g', Feed.Takes t g g' → g.position = f.position →
      g'.bytes.take n = k.bytes.take n →
        membersFrom found a skip g = membersFrom found' a' skip' g') :
    EndsAtMark found a skip f ms := by
  obtain ⟨upTo, hz, hp, hany⟩ := h
  have hlen : n ≤ upTo.length :=
    hn.trans (le_length_of_membersFrom (hany ⟨upTo, false, k.position⟩ rfl List.prefix_rfl))
  refine ⟨t ++ upTo, hz.append hd, ?_, fun g hpos hpre => ?_⟩
  · rw [ht.bytes]
    exact (List.prefix_append_right_inj t).mpr hp
  · obtain ⟨y, hy⟩ := hpre
    have hg := Feed.takes_of_bytes (f := g) (t := t) (u := upTo ++ y)
      (by rw [← hy, List.append_assoc])
    rw [heq g _ hg hpos]
    · refine hany _ ?_ (List.prefix_append _ _)
      show g.position + t.length = k.position
      rw [ht.position, hpos]
    · obtain ⟨y', hy'⟩ := hp
      rw [← hy', List.take_append_of_le_length hlen, List.take_append_of_le_length hlen]

/-- Where there is no proper end, members can only end at a block of zeros. -/
theorem membersFrom_mark {found ms : List Member} {a : Attached} {skip : Nat} {f : Feed}
    (hs : blockSize ∣ skip) (hc : f.complete = false)
    (h : membersFrom found a skip f = (ms, true)) : EndsAtMark found a skip f ms := by
  induction hm : f.bytes.length using Nat.strong_induction_on generalizing found a skip f with
  | _ n ih =>
    rw [membersFrom_eq] at h
    rcases hd : f.drop? skip with _ | f' <;> rw [hd] at h
    · simp at h
    obtain ⟨t, ht, htakes⟩ := Feed.drop?_iff.mp hd
    rcases hn : Raw.next? a.records f' with e | _ | r <;> simp only [hn] at h
    · simp at h
    · -- The block of zeros itself.
      rcases Raw.next?_none hn with ⟨-, hend⟩ | ⟨zeros, k, hlen, hk, hz⟩
      · rw [htakes.complete, hc] at hend
        simp at hend
      · have hboth := htakes.trans hk
        refine ⟨t ++ zeros, ⟨t, zeros, rfl, ht ▸ hs, hlen, hz⟩, ⟨k.bytes, hboth.bytes.symm⟩, ?_⟩
        rintro g - ⟨y, hy⟩
        obtain ⟨k', h₁, h₂⟩ := (Feed.takes_of_bytes hy.symm).split
        rw [membersFrom_eq, Feed.drop?_iff.mpr ⟨t, ht, h₁⟩]
        simp only [Raw.next?_of_isZero hlen hz h₂]
        exact h
    · obtain ⟨t', ht', hafter, hany⟩ := Raw.next?_some hn
      obtain ⟨found', a', k, t'', hdvd, hk, hrest, hgo⟩ := goOn_ok h
      have hall := (htakes.trans hafter).trans hk
      have hlt : k.bytes.length < n := by
        have hb : blockSize = 512 := rfl
        rw [← hm, hall.bytes]
        simp only [List.length_append]
        omega
      have hkc : k.complete = false := by rw [hall.complete, hc]
      refine (ih _ hlt r.dvd_span hkc hrest rfl).of_takes hall ?_ r.size_le_span ?_
      · simp only [List.length_append, ht, ht']
        exact Nat.dvd_add (Nat.dvd_add hs (Nat.dvd_refl _)) hdvd
      · intro g g' hg hpos hsame
        obtain ⟨k₂, hfront, h₃⟩ := hg.split
        obtain ⟨k₁, h₁, h₂⟩ := hfront.split
        rw [membersFrom_eq, Feed.drop?_iff.mpr ⟨t, ht, h₁⟩]
        simp only
        rw [hany _ _ h₂ (by rw [h₁.position, htakes.position, hpos])]
        exact hgo _ _ h₃ hsame

/-- **The end of an archive**: members that are read to their end off a feed without a proper end
stop at a block of zeros, and so they do in every feed that begins the same. -/
theorem members_mark {f : Feed} {ms : List Member} (hc : f.complete = false)
    (h : members f = (ms, true)) :
    ∃ upTo, EndsInZeros upTo ∧ upTo <+: f.bytes ∧
      ∀ g : Feed, g.position = f.position → upTo <+: g.bytes → members g = (ms, true) :=
  membersFrom_mark (Nat.dvd_zero _) hc h

/-- **Members of a feed that breaks off**: if they can be read to their end, they are the same. -/
theorem members_cut {f g : Feed} {ms ms' : List Member} (hcut : f.Cut g)
    (hf : members f = (ms, true)) (hg : members g = (ms', true)) : ms' = ms := by
  rcases hcut with _ | ⟨hp, hc, hb⟩ | ⟨hp, hc, hc', hb⟩
  · exact (Prod.mk.inj (hg.symm.trans hf)).1
  · obtain ⟨upTo, -, hpre, hany⟩ := members_mark hc hg
    have h := hany f hp.symm (hpre.trans hb)
    exact (Prod.mk.inj (h.symm.trans hf)).1
  · obtain ⟨upTo, -, hpre, hany⟩ := members_mark hc' hf
    have h := hany g hp (hpre.trans hb)
    exact (Prod.mk.inj (hg.symm.trans h)).1

end PinnedBuild.Archive
