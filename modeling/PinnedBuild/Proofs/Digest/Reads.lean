import Mathlib
import PinnedBuild.Proofs.Digest.Streaming

/-!
The reads that hashing makes. They end with the first that fails or delivers nothing: what was
delivered before it is what the digest is of, and whatever a reader has in store behind it is not
looked at. Contents are read a chunk at a time, so that their length says how many reads they take.
-/

namespace PinnedBuild.Digest.Reader

open Files Standard

variable {r s : Reader} {piece b : Bytes} {pieces : List Bytes} {last : Except String Bytes}
  {rest : Reader} {n i j k : ℕ}

lemma chunkSize_pos : 0 < chunkSize := by decide

/-- What is left of a reader after some reads. -/
def after (r : Reader) : ℕ → Reader
  | 0 => r
  | n + 1 => ((r.after n).read chunkSize).2

/-- What the read that comes after `n` others delivers. -/
def outcome (r : Reader) (n : ℕ) : Except String Bytes := ((r.after n).read chunkSize).1

@[simp] lemma after_zero (r : Reader) : r.after 0 = r := rfl

lemma after_succ (r : Reader) (n : ℕ) : r.after (n + 1) = ((r.after n).read chunkSize).2 := rfl

lemma after_add (r : Reader) (k n : ℕ) : r.after (k + n) = (r.after k).after n := by
  induction n with
  | zero => rfl
  | succ n ih => rw [← Nat.add_assoc, after_succ, ih, after_succ]

lemma outcome_add (r : Reader) (k n : ℕ) : r.outcome (k + n) = (r.after k).outcome n := by
  unfold outcome
  rw [after_add]

lemma outcome_succ (r : Reader) (n : ℕ) :
    r.outcome (n + 1) = ((r.read chunkSize).2).outcome n := by
  rw [Nat.add_comm, outcome_add]
  rfl

/-! ### Where reading stops -/

/-- Every reader comes to a read at which reading stops. -/
lemma exists_course (r : Reader) : ∃ pieces last, r.Course pieces last := by
  induction hw : r.weight using Nat.strong_induction_on generalizing r with
  | _ w ih =>
    subst hw
    rcases h : (r.read chunkSize).1 with cause | piece
    · exact ⟨[], _, .stop h (.failed cause)⟩
    rcases piece with _ | ⟨x, piece⟩
    · exact ⟨[], _, .stop h .ended⟩
    · obtain ⟨pieces, last, hc⟩ := ih _ (weight_read_lt _ _ _ _ h) _ rfl
      exact ⟨(x :: piece) :: pieces, last, .more (List.cons_ne_nil x piece) h hc⟩

lemma Course.delivered (h : r.Course pieces last) (hi : i < pieces.length) :
    r.outcome i = .ok pieces[i] ∧ pieces[i] ≠ [] := by
  induction h generalizing i with
  | stop => simp at hi
  | more hne h _ ih =>
    rcases i with _ | i
    · exact ⟨h, hne⟩
    · rw [outcome_succ]
      exact ih (by simpa using hi)

lemma Course.final (h : r.Course pieces last) : r.outcome pieces.length = last ∧ Final last := by
  induction h with
  | stop h final => exact ⟨h, final⟩
  | more _ _ _ ih =>
    rw [List.length_cons, outcome_succ]
    exact ih

/-- The reads up to the last one are all that a course is made of. -/
lemma course_of_outcomes (hb : ∀ i (hi : i < pieces.length),
      r.outcome i = .ok pieces[i] ∧ pieces[i] ≠ [])
    (hl : r.outcome pieces.length = last) (hf : Final last) : r.Course pieces last := by
  induction pieces generalizing r with
  | nil => exact .stop hl hf
  | cons piece pieces ih =>
    obtain ⟨h0, hne⟩ := hb 0 (by simp)
    refine .more hne h0 (ih (fun i hi => ?_) ?_)
    · have hi' : i + 1 < (piece :: pieces).length := by simpa using hi
      rw [← outcome_succ]
      exact hb (i + 1) hi'
    · rwa [← outcome_succ]

lemma Course.congr (h : r.Course pieces last)
    (hs : ∀ i ≤ pieces.length, s.outcome i = r.outcome i) : s.Course pieces last := by
  refine course_of_outcomes (fun i hi => ?_) ?_ h.final.2
  · rw [hs i hi.le]
    exact h.delivered hi
  · rw [hs _ le_rfl]
    exact h.final.1

/-- A read that delivers something is not the last. -/
lemma Course.ne_length (h : r.Course pieces last) (hk : r.outcome k = .ok piece)
    (hne : piece ≠ []) : k ≠ pieces.length := by
  rintro rfl
  obtain ⟨hl, hf⟩ := h.final
  rw [← hl, hk] at hf
  cases hf
  exact hne rfl

/-- Reading fails just if a read fails before there is one of nothing. -/
lemma Course.failed_iff (h : r.Course pieces last) : (∃ cause, last = .error cause) ↔
    ∃ i, (∃ cause, r.outcome i = .error cause) ∧ ∀ j < i, r.outcome j ≠ .ok [] := by
  constructor
  · rintro ⟨cause, rfl⟩
    refine ⟨pieces.length, ⟨cause, h.final.1⟩, fun j hj he => ?_⟩
    obtain ⟨hd, hne⟩ := h.delivered hj
    exact hne (Except.ok.inj (hd.symm.trans he))
  · rintro ⟨i, ⟨cause, hi⟩, hbefore⟩
    obtain ⟨hl, hf⟩ := h.final
    -- The read that fails is not one of those that deliver, and none of nothing comes before it.
    have hle : pieces.length ≤ i := by
      by_contra hlt
      have hd := (h.delivered (not_le.mp hlt)).1
      cases hi.symm.trans hd
    rcases hf with cause' | _
    · exact ⟨cause', rfl⟩
    · rcases hle.lt_or_eq with hlt | rfl
      · exact absurd hl (hbefore _ hlt)
      · cases hi.symm.trans hl

/-! ### Contents in store -/

lemma lt_ceilDiv_iff : j < n ⌈/⌉ chunkSize ↔ j * chunkSize < n := by
  rw [← not_le, ceilDiv_le_iff_le_mul chunkSize_pos, not_le, Nat.mul_comm]

lemma ceilDiv_pos (hb : b ≠ []) : 0 < b.length ⌈/⌉ chunkSize := by
  rw [lt_ceilDiv_iff, Nat.zero_mul]
  exact List.length_pos_iff.mpr hb

lemma drop_ne_nil (hj : j < b.length ⌈/⌉ chunkSize) : b.drop (j * chunkSize) ≠ [] := by
  rw [ne_eq, List.drop_eq_nil_iff, not_le]
  exact lt_ceilDiv_iff.mp hj

lemma take_ne_nil (hj : j < b.length ⌈/⌉ chunkSize) :
    (b.drop (j * chunkSize)).take chunkSize ≠ [] := by
  have hdrop := drop_ne_nil hj
  have hpos := chunkSize_pos.ne'
  simp [hpos, hdrop]

/-- Contents that are read are taken a chunk at a time. -/
lemma after_content (b : Bytes) (rest : Reader) (hj : j < b.length ⌈/⌉ chunkSize) :
    after (.content b :: rest) j = .content (b.drop (j * chunkSize)) :: rest := by
  induction j with
  | zero => simp
  | succ j ih =>
    have hmore : (b.drop (j * chunkSize)).drop chunkSize = b.drop ((j + 1) * chunkSize) := by
      rw [List.drop_drop, Nat.succ_mul]
    have hne := drop_ne_nil hj
    rw [after_succ, ih (by omega)]
    simp [read, hmore, hne]

lemma outcome_content (b : Bytes) (rest : Reader) (hj : j < b.length ⌈/⌉ chunkSize) :
    outcome (.content b :: rest) j = .ok ((b.drop (j * chunkSize)).take chunkSize) := by
  unfold outcome
  rw [after_content b rest hj]
  rfl

/-- After as many reads as there are chunks in them contents are done with. -/
lemma after_content_all (hb : b ≠ []) (rest : Reader) :
    after (.content b :: rest) (b.length ⌈/⌉ chunkSize) = rest := by
  obtain ⟨j, hj⟩ := Nat.exists_eq_succ_of_ne_zero (ceilDiv_pos hb).ne'
  have hlast : b.length ≤ (j + 1) * chunkSize := by
    rw [Nat.mul_comm, ← ceilDiv_le_iff_le_mul chunkSize_pos, hj]
  have hdone : (b.drop (j * chunkSize)).drop chunkSize = [] := by
    rw [List.drop_drop, ← Nat.succ_mul]
    exact List.drop_of_length_le hlast
  rw [hj, after_succ, after_content b rest (by omega)]
  simp [read, hdone]

/-- Contents that reading comes to are read to their end before it stops. -/
lemma Course.within (h : r.Course pieces last) (hk : k ≤ pieces.length)
    (hr : r.after k = .content b :: rest) : k + b.length ⌈/⌉ chunkSize ≤ pieces.length := by
  by_contra hlong
  obtain ⟨j, hj⟩ := Nat.exists_eq_add_of_le hk
  have hlt : j < b.length ⌈/⌉ chunkSize := by omega
  have hout : r.outcome pieces.length = .ok ((b.drop (j * chunkSize)).take chunkSize) := by
    rw [hj, outcome_add, hr, outcome_content b rest hlt]
  exact h.ne_length hout (take_ne_nil hlt) rfl

/-- How many reads all of some contents take. -/
def readsFor (contents : List Bytes) : ℕ := (contents.map fun b => b.length ⌈/⌉ chunkSize).sum

/-- Contents with nothing empty among them are read one after the other. -/
lemma after_contents (contents : List Bytes) (hc : ∀ b ∈ contents, b ≠ []) (rest : Reader) :
    after (contents.map .content ++ rest) (readsFor contents) = rest := by
  induction contents with
  | nil => rfl
  | cons b contents ih =>
    have hb : b ≠ [] := hc b List.mem_cons_self
    have hrest : ∀ c ∈ contents, c ≠ [] := fun c hm => hc c (List.mem_cons_of_mem b hm)
    have hsum : readsFor (b :: contents) = b.length ⌈/⌉ chunkSize + readsFor contents := rfl
    rw [hsum, after_add, List.map_cons, List.cons_append, after_content_all hb, ih hrest]

lemma Course.past (h : r.Course pieces last) {contents : List Bytes}
    (hc : ∀ b ∈ contents, b ≠ []) (hk : k ≤ pieces.length)
    (hr : r.after k = contents.map .content ++ rest) : k + readsFor contents ≤ pieces.length := by
  induction contents generalizing k with
  | nil => exact hk
  | cons b contents ih =>
    have hb : b ≠ [] := hc b List.mem_cons_self
    have hrest : ∀ c ∈ contents, c ≠ [] := fun c hm => hc c (List.mem_cons_of_mem b hm)
    have hsum : readsFor (b :: contents) = b.length ⌈/⌉ chunkSize + readsFor contents := rfl
    have hnext : r.after (k + b.length ⌈/⌉ chunkSize) = contents.map .content ++ rest := by
      rw [after_add, hr]
      exact after_content_all hb _
    rw [hsum, ← Nat.add_assoc]
    exact ih hrest (h.within hk hr) hnext

/-! ### How much is read -/

lemma Course.counted (h : r.Course pieces last) :
    r.hash.2 = pieces.map List.length ++ lastCount last := by
  rw [hash_course h]

lemma length_read_le (h : (r.read chunkSize).1 = .ok piece) : piece.length ≤ chunkSize := by
  rcases r with _ | ⟨b | cause, rest⟩
  · obtain rfl : [] = piece := Except.ok.inj h
    exact Nat.zero_le _
  · obtain rfl : b.take chunkSize = piece := Except.ok.inj h
    exact List.length_take_le _ _
  · cases h

lemma Course.count_le (h : r.Course pieces last) (hc : n ∈ r.hash.2) : n ≤ chunkSize := by
  rw [h.counted, List.mem_append, List.mem_map] at hc
  rcases hc with ⟨piece, hp, rfl⟩ | hc
  · obtain ⟨i, hi, rfl⟩ := List.mem_iff_getElem.mp hp
    exact length_read_le (h.delivered hi).1
  · rcases h.final.2 with cause | _
    · cases hc
    · obtain rfl : n = 0 := by simpa [lastCount] using hc
      exact Nat.zero_le _

lemma Course.sum_counts (h : r.Course pieces last) : r.hash.2.sum = pieces.flatten.length := by
  rw [h.counted, List.sum_append, List.length_flatten]
  rcases h.final.2 with cause | _ <;> simp [lastCount]

/-- Only the last read can be one of nothing. -/
lemma Course.count_eq_zero_iff (h : r.Course pieces last) :
    r.hash.2[i]? = some 0 ↔ last = .ok [] ∧ i = pieces.length := by
  have hf := h.final.2
  rw [h.counted]
  rcases lt_trichotomy i pieces.length with hi | rfl | hi
  · have hne := (h.delivered hi).2
    simp [List.getElem?_append, hi, hi.ne, hne]
  · rcases hf with cause | _ <;> simp [lastCount]
  · have hpast : (lastCount last).length ≤ i - pieces.length := by
      rcases hf with cause | _ <;> simp only [lastCount, List.length_nil, List.length_cons] <;>
        omega
    simp [List.getElem?_append, hi.ne', not_lt.mpr hi.le, hpast]

/-! ### The digest -/

lemma digest_course (h : r.Course pieces last) :
    r.digest = (last.map fun _ => hexDigest pieces.flatten).mapError ("read: " ++ ·) := by
  unfold digest shown
  rw [hash_course h]
  rcases h.final.2 with cause | _
  · rfl
  · exact congrArg Except.ok (toHex_hash _)

/-- The digest of a file is that of its reader, and the path is told with what fails. -/
lemma message_hashFile {t u : FileTree} {p : Path} {f : Handle}
    (h : (FileOp.openRead p).run t = .ok (f, u)) : (hashFile t p).mapError HashError.message =
      (readerOf t f).digest.mapError ("hash " ++ p.display ++ ": " ++ ·) := by
  unfold hashFile digest shown
  rw [h]
  rcases hr : (readerOf t f).hash.1 with cause | d
  · have hmessage : (HashError.cannotRead p cause).message =
        "hash " ++ p.display ++ ": " ++ ("read: " ++ cause) := by
      have hcolon : ": read: " = ": " ++ "read: " := rfl
      simp only [HashError.message, hcolon, String.append_assoc]
    simp only [hr, Except.map, Except.mapError, hmessage]
  · simp only [hr, Except.map, Except.mapError]

/-- The reads of a reader, where `pieces` come before the last. -/
structure Reads (r : Reader) (pieces : List Bytes) (last : Except String Bytes) : Prop where
  /-- Each read before the last delivers something. -/
  delivered i (hi : i < pieces.length) : r.outcome i = .ok pieces[i] ∧ pieces[i] ≠ []
  /-- The last one fails or delivers nothing. -/
  stopped : r.outcome pieces.length = last ∧ (last = .ok [] ∨ ∃ cause, last = .error cause)
  /-- Those that succeed are counted, and there are no others. -/
  counted : r.hash.2 = pieces.map List.length ++ lastCount last
  /-- Nothing depends on what is in store behind them. -/
  alone (s : Reader) : (∀ i ≤ pieces.length, s.outcome i = r.outcome i) → s.hash = r.hash
  /-- There is no digest just if a read fails before there is one of nothing. -/
  fails : (∃ m, r.digest = .error m) ↔
    ∃ i, (∃ cause, r.outcome i = .error cause) ∧ ∀ j < i, r.outcome j ≠ .ok []
  /-- What is told then is that the last read failed, and why. -/
  told m : r.digest = .error m ↔ ∃ cause, last = .error cause ∧ m = "read: " ++ cause
  /-- The digest is that of the bytes delivered. -/
  digest d : r.digest = .ok d ↔ last = .ok [] ∧ d = hexDigest pieces.flatten
  bounded : ∀ c ∈ r.hash.2, c ≤ chunkSize
  /-- As many bytes are counted as are delivered. -/
  total : r.hash.2.sum = pieces.flatten.length
  /-- A read of nothing can only be the last. -/
  zero i : r.hash.2[i]? = some 0 ↔ last = .ok [] ∧ i = pieces.length
  /-- Contents that are come to are read to their end, a chunk at a time. -/
  content k b rest : k ≤ pieces.length → b ≠ [] → r.after k = .content b :: rest →
    k + b.length ⌈/⌉ chunkSize ≤ pieces.length ∧ r.after (k + b.length ⌈/⌉ chunkSize) = rest ∧
      ∀ j < b.length ⌈/⌉ chunkSize,
        r.after (k + j) = .content (b.drop (j * chunkSize)) :: rest ∧
        r.outcome (k + j) = .ok ((b.drop (j * chunkSize)).take chunkSize)
  /-- All contents are come to that have only contents before them, and none that are empty. -/
  contents front rest : r = front.map .content ++ rest → (∀ b ∈ front, b ≠ []) →
    readsFor front ≤ pieces.length ∧ r.after (readsFor front) = rest
  /-- A file that is open is hashed so. -/
  file t u p f : (FileOp.openRead p).run t = .ok (f, u) → readerOf t f = r →
    (hashFile t p).mapError HashError.message =
      r.digest.mapError ("hash " ++ p.display ++ ": " ++ ·)

/-- **The reads that hashing makes**: they end with the first that fails or delivers nothing, and
the digest is that of what the others delivered. -/
theorem digest_stops (r : Reader) : ∃ pieces last, r.Reads pieces last := by
  obtain ⟨pieces, last, h⟩ := exists_course r
  obtain ⟨hl, hf⟩ := h.final
  refine ⟨pieces, last, ?_⟩
  constructor
  case delivered => exact fun i hi => h.delivered hi
  case stopped =>
    refine ⟨hl, ?_⟩
    rcases hf with cause | _
    · exact .inr ⟨cause, rfl⟩
    · exact .inl rfl
  case counted => exact h.counted
  case alone =>
    intro s hs
    rw [hash_course h, hash_course (h.congr hs)]
  case fails =>
    rw [← h.failed_iff, digest_course h]
    rcases hf with cause | _ <;> simp [Except.map, Except.mapError]
  case told =>
    intro m
    rw [digest_course h]
    rcases hf with cause | _ <;> simp [Except.map, Except.mapError, eq_comm]
  case digest =>
    intro d
    rw [digest_course h]
    rcases hf with cause | _ <;> simp [Except.map, Except.mapError, eq_comm]
  case bounded => exact fun c hc => h.count_le hc
  case total => exact h.sum_counts
  case zero => exact fun i => h.count_eq_zero_iff
  case content =>
    intro k b rest hk hb hr
    refine ⟨h.within hk hr, ?_, fun j hj => ⟨?_, ?_⟩⟩
    · rw [after_add, hr, after_content_all hb]
    · rw [after_add, hr, after_content b rest hj]
    · rw [outcome_add, hr, outcome_content b rest hj]
  case contents =>
    rintro front rest hr hfront
    refine ⟨?_, ?_⟩
    · have hpast := h.past hfront (Nat.zero_le _) hr
      rwa [Nat.zero_add] at hpast
    · rw [hr, after_contents front hfront]
  case file =>
    rintro t u p f ho rfl
    exact message_hashFile ho

end PinnedBuild.Digest.Reader
