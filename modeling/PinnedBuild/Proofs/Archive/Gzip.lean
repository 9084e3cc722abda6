import Mathlib
import PinnedBuild.Archive.Gzip
import PinnedBuild.Proofs.Archive.Inflate

/-!
A gzip file against the feed that is read off it: a proper end means that a whole member stands at
the front of the file, and a file that breaks off feeds what it has, without a proper end.
-/

namespace PinnedBuild.Archive

open BitSource Inflate

/-- What a feed becomes when its file breaks off: the same; or one that breaks off earlier; or,
where nothing that was put out late had been handed on, one that breaks off later. -/
inductive Feed.Cut (f : Feed) : Feed → Prop
  | same : Cut f f
  | earlier {g : Feed} (position : g.position = f.position) (broken : g.complete = false)
      (bytes : g.bytes <+: f.bytes) : Cut f g
  | later {g : Feed} (position : g.position = f.position) (broken : g.complete = false)
      (broken' : f.complete = false) (bytes : f.bytes <+: g.bytes) : Cut f g

namespace Gzip

/-- Skipping takes off the front of what it is given, whatever stands after that. -/
def Skips (skip : Bytes → Option Bytes) : Prop :=
  ∀ b r, skip b = some r → ∃ t, b = t ++ r ∧ ∀ y, skip (t ++ y) = some y

lemma skips_when {skip : Bytes → Option Bytes} (h : Skips skip) (asked : Bool) :
    Skips (when? asked skip) := by
  cases asked
  · intro b r hr
    exact ⟨[], Option.some.inj hr, fun _ => rfl⟩
  · exact h

lemma skips_text (room : Nat) : Skips (afterText? room) := by
  intro b r h
  induction b generalizing room with
  | nil => simp [afterText?] at h
  | cons x b ih =>
    unfold afterText? at h
    split_ifs at h with hx
    · obtain rfl := Option.some.inj h
      refine ⟨[x], rfl, fun y => ?_⟩
      unfold afterText?
      exact if_pos hx
    · rcases room with _ | room
      · simp at h
      · obtain ⟨t, rfl, ht⟩ := ih room h
        refine ⟨x :: t, rfl, fun y => ?_⟩
        simp only [List.cons_append, afterText?, if_neg hx]
        exact ht y

lemma skips_extra : Skips afterExtra? := by
  intro b r h
  match b, h with
  | p :: q :: rest, h =>
    simp only [afterExtra?] at h
    split_ifs at h with hn
    obtain rfl := Option.some.inj h
    refine ⟨p :: q :: rest.take (p.toNat + 256 * q.toNat), ?_, fun y => ?_⟩
    · simp [List.take_append_drop]
    · have htake : ((rest.take (p.toNat + 256 * q.toNat)) ++ y).take (p.toNat + 256 * q.toNat) =
          rest.take (p.toNat + 256 * q.toNat) := List.take_left' hn
      simp only [List.cons_append, afterExtra?, htake, hn, if_true]
      rw [List.drop_left' hn]

/-- The checksum of a header is that of what stands before it, so that it holds in every file with
that header. -/
lemma afterCheck?_ok {front b r : Bytes} (h : afterCheck? (front ++ b) b = some r) :
    ∃ t, b = t ++ r ∧ ∀ y, afterCheck? (front ++ (t ++ y)) (t ++ y) = some y := by
  match b, h with
  | p :: q :: rest, h =>
    have hfront : ∀ y : Bytes, (front ++ (p :: q :: y)).take
        ((front ++ (p :: q :: y)).length - (y.length + 2)) = front := by
      intro y
      refine List.take_left' ?_
      simp only [List.length_append, List.length_cons]
      omega
    simp only [afterCheck?, hfront] at h
    split_ifs at h with hc
    obtain rfl := Option.some.inj h
    refine ⟨[p, q], rfl, fun y => ?_⟩
    simp only [List.cons_append, List.nil_append, afterCheck?, hfront, hc, if_true]

lemma afterHeader?_ok {file body : Bytes} (h : afterHeader? file = some body) :
    ∃ t, file = t ++ body ∧ ∀ y, afterHeader? (t ++ y) = some y := by
  unfold afterHeader? at h
  split at h
  · rename_i flags m₁ m₂ m₃ m₄ m₅ m₆ rest
    split_ifs at h with hf
    obtain ⟨r₁, h₁, h⟩ := Option.bind_eq_some_iff.mp h
    obtain ⟨r₂, h₂, h⟩ := Option.bind_eq_some_iff.mp h
    obtain ⟨r₃, h₃, h⟩ := Option.bind_eq_some_iff.mp h
    obtain ⟨t₁, rfl, ht₁⟩ := skips_when skips_extra _ _ _ h₁
    obtain ⟨t₂, rfl, ht₂⟩ := skips_when (skips_text _) _ _ _ h₂
    obtain ⟨t₃, rfl, ht₃⟩ := skips_when (skips_text _) _ _ _ h₃
    -- All of the file up to the checksum of the header.
    let front := 0x1f :: 0x8b :: 8 :: flags :: m₁ :: m₂ :: m₃ :: m₄ :: m₅ :: m₆ ::
      (t₁ ++ (t₂ ++ t₃))
    have hcheck : ∃ t, r₃ = t ++ body ∧
        ∀ y, when? (flag flags 2) (afterCheck? (front ++ (t ++ y))) (t ++ y) = some y := by
      rcases hflag : flag flags 2 <;> rw [hflag] at h
      · exact ⟨[], Option.some.inj h, fun _ => rfl⟩
      · refine afterCheck?_ok ?_
        simpa [front, when?] using h
    obtain ⟨t₄, rfl, ht₄⟩ := hcheck
    refine ⟨front ++ t₄, by simp [front], fun y => ?_⟩
    have hy := ht₄ y
    simp only [front, List.cons_append, List.append_assoc] at hy ⊢
    simp only [afterHeader?, hf, if_false, Bool.false_eq_true]
    rw [ht₁]
    show (when? _ _ _ >>= _) = _
    rw [ht₂]
    show (when? _ _ _ >>= _) = _
    rw [ht₃]
    exact hy
  · simp at h

/-! ### A whole member -/

/-- A gzip member: a header, a deflate stream of the data, and their checksum and length. -/
def IsMember (data member : Bytes) : Prop :=
  ∃ header stream crc length : Bytes, member = header ++ (stream ++ (crc ++ length)) ∧
    afterHeader? header = some [] ∧
    (∃ unused, inflate stream = (data.toArray, .ok ⟨unused, []⟩)) ∧
    (crc.length = 4 ∧ Bytes.toNatLE crc = (Crc32.crc32 data).toNat) ∧
    (length.length = 4 ∧ Bytes.toNatLE length = data.length % UInt32.size)

lemma afterHeader?_append {header : Bytes} (h : afterHeader? header = some []) (y : Bytes) :
    afterHeader? (header ++ y) = some y := by
  obtain ⟨t, ht, hy⟩ := afterHeader?_ok h
  rw [List.append_nil] at ht
  rw [ht, hy]

lemma inflate_append {stream : Bytes} {out : Array UInt8} {unused : List Bool}
    (h : inflate stream = (out, .ok ⟨unused, []⟩)) (y : Bytes) :
    inflate (stream ++ y) = (out, .ok ⟨unused, y⟩) := by
  rcases inflate_cases stream with ⟨t, u, o, c, rfl, he⟩ | ⟨t, u, o, rfl, he⟩ | ⟨o, he, -⟩
  · obtain ⟨rfl, hok⟩ := Prod.mk.inj ((he u).symm.trans h)
    obtain ⟨rfl, rfl⟩ := BitSource.mk.inj (Except.ok.inj hok)
    rw [List.append_nil]
    exact he y
  · simpa using (Prod.mk.inj ((he u).symm.trans h)).2
  · simpa using (Prod.mk.inj (he.symm.trans h)).2

/-- What has been inflated ends in the file where the stream does. -/
lemma inflate_ok {b : Bytes} {out : Array UInt8} {s : BitSource} (h : inflate b = (out, .ok s)) :
    ∃ stream, b = stream ++ s.rest ∧ inflate stream = (out, .ok ⟨s.current, []⟩) := by
  rcases inflate_cases b with ⟨t, u, o, c, rfl, he⟩ | ⟨t, u, o, rfl, he⟩ | ⟨o, he, -⟩
  · obtain ⟨rfl, hok⟩ := Prod.mk.inj ((he u).symm.trans h)
    obtain rfl := Except.ok.inj hok
    refine ⟨t, rfl, ?_⟩
    have h₀ := he []
    rwa [List.append_nil] at h₀
  · simpa using (Prod.mk.inj ((he u).symm.trans h)).2
  · simpa using (Prod.mk.inj (he.symm.trans h)).2

lemma trailerFits_iff {data trailer : Bytes} : trailerFits data trailer = true ↔
    ∃ crc length rest, trailer = crc ++ (length ++ rest) ∧
      (crc.length = 4 ∧ Bytes.toNatLE crc = (Crc32.crc32 data).toNat) ∧
      (length.length = 4 ∧ Bytes.toNatLE length = data.length % UInt32.size) := by
  constructor
  · intro h
    unfold trailerFits at h
    split at h
    · rename_i a b c d e f g k rest
      simp only [Bool.and_eq_true, beq_iff_eq] at h
      exact ⟨[a, b, c, d], [e, f, g, k], rest, rfl, ⟨rfl, h.1.symm⟩, rfl, h.2.symm⟩
    · simp at h
  · rintro ⟨crc, length, rest, rfl, ⟨h4, hc⟩, h4', hl⟩
    match crc, h4, length, h4' with
    | [a, b, c, d], _, [e, f, g, k], _ => simp [trailerFits, hc, hl]

/-- **Proper ends**: the feed of a file ends properly just where a member that holds its bytes
stands at the front of the file. -/
theorem feed_complete_iff {file data : Bytes} :
    ((feed file).complete = true ∧ (feed file).bytes = data) ↔
      ∃ member rest, file = member ++ rest ∧ IsMember data member := by
  constructor
  · rintro ⟨hc, rfl⟩
    unfold feed at hc ⊢
    rcases hh : afterHeader? file with _ | body <;> simp only [hh] at hc ⊢
    · simp [Feed.broken] at hc
    rcases hi : inflate body with ⟨out, (_ | unread) | s⟩ <;> simp only [hi] at hc ⊢
    · simp [Feed.broken] at hc
    · simp [Feed.broken] at hc
    obtain ⟨header, rfl, hheader⟩ := afterHeader?_ok hh
    obtain ⟨stream, hbody, hstream⟩ := inflate_ok hi
    obtain ⟨crc, length, rest, hrest, hcrc, hlength⟩ := trailerFits_iff.mp hc
    refine ⟨header ++ (stream ++ (crc ++ length)), rest, ?_, ⟨header, stream, crc, length, rfl, ?_,
      ⟨s.current, by simpa using hstream⟩, hcrc, hlength⟩⟩
    · rw [hbody, show s.rest = _ from hrest]
      simp
    · simpa using hheader []
  · rintro ⟨member, rest, rfl, header, stream, crc, length, rfl, hheader, ⟨unused, hstream⟩, hcrc,
      hlength⟩
    have hfile : header ++ (stream ++ (crc ++ length)) ++ rest =
        header ++ (stream ++ (crc ++ (length ++ rest))) := by simp
    have htrailer : trailerFits data (crc ++ (length ++ rest)) = true :=
      trailerFits_iff.mpr ⟨crc, length, rest, rfl, hcrc, hlength⟩
    unfold feed
    rw [hfile, afterHeader?_append hheader]
    simp only
    rw [inflate_append hstream]
    exact ⟨htrailer, rfl⟩

/-! ### A file that breaks off -/

lemma trailerFits_append {data trailer : Bytes} (h : trailerFits data trailer = true) (y : Bytes) :
    trailerFits data (trailer ++ y) = true := by
  obtain ⟨crc, length, rest, rfl, hc, hl⟩ := trailerFits_iff.mp h
  exact trailerFits_iff.mpr ⟨crc, length, rest ++ y, by simp, hc, hl⟩

/-- A defect shows at the same place in every file that goes on after it, and so the same is handed
on. -/
lemma handedOn_append {file body unread : Bytes} (hb : body.length ≤ file.length) (put : Nat)
    (y : Bytes) :
    handedOn (file ++ y) (body ++ y) put (unread ++ y).length =
      handedOn file body put unread.length := by
  have htaken : (file ++ y).length - (unread ++ y).length - 1 =
      file.length - unread.length - 1 := by
    simp only [List.length_append]
    omega
  have hheader : (file ++ y).length - (body ++ y).length = file.length - body.length := by
    simp only [List.length_append]
    omega
  have hle : (file.length - unread.length - 1) / window * window - (file.length - body.length) ≤
      body.length := by
    have := Nat.div_mul_le_self (file.length - unread.length - 1) window
    omega
  simp only [handedOn, htaken, hheader]
  rw [List.take_append_of_le_length hle]

lemma position_feed (file : Bytes) : (feed file).position = 0 := by
  unfold feed
  split
  · rfl
  · split <;> rfl

/-- **A file that breaks off**: its feed breaks off too, unless all that matters was there. -/
theorem feed_cut (file more : Bytes) : (feed (file ++ more)).Cut (feed file) := by
  rcases hh : afterHeader? file with _ | body
  · have hnone : feed file = .broken [] := by rw [feed, hh]
    rw [hnone]
    exact .earlier (position_feed _).symm rfl List.nil_prefix
  unfold feed
  obtain ⟨header, rfl, hheader⟩ := afterHeader?_ok hh
  have hmore : afterHeader? (header ++ body ++ more) = some (body ++ more) := by
    rw [List.append_assoc, hheader]
  rw [hmore, hh]
  simp only
  rcases inflate_cases body with ⟨t, u, o, c, rfl, he⟩ | ⟨t, u, o, rfl, he⟩ | ⟨o, he, hg⟩
  · rw [List.append_assoc t, he, he]
    simp only [aligned]
    by_cases hfit : trailerFits o.toList u = true
    · rw [hfit, trailerFits_append hfit]
      exact .same
    · exact .earlier rfl (by simpa using hfit) List.prefix_rfl
  · rw [List.append_assoc t, he, he]
    simp only
    rw [← List.append_assoc t, handedOn_append (by simp)]
    exact .same
  · have hp := hg more
    rw [he]
    rcases hi : inflate (body ++ more) with ⟨out, (_ | unread) | s⟩ <;> rw [hi] at hp
    · exact .earlier rfl rfl hp
    · rcases List.prefix_or_prefix_of_prefix hp (List.take_prefix
        (handedOn (header ++ body ++ more) (body ++ more) out.size unread) out.toList) with h | h
      · exact .earlier rfl rfl h
      · exact .later rfl rfl rfl h
    · exact .earlier rfl rfl hp

end Gzip

end PinnedBuild.Archive
