import Mathlib
import PinnedBuild.Digest.File
import PinnedBuild.Proofs.Digest.Blocks
import PinnedBuild.Proofs.Files.Operations

/-!
Hashing in pieces. What has been absorbed depends on the bytes so far alone and not on where one
piece ended and the next began.
-/

namespace PinnedBuild.Digest

open Files Standard

namespace Sha256

lemma absorb_append (s : State) (m m' : Bytes) :
    absorb s (m ++ m') = absorb (absorb s m).1 ((absorb s m).2 ++ m') := by
  fun_induction absorb s m with
  | case1 s m h => rfl
  | case2 s m x rest h ih =>
    have hlen : 64 ≤ m.length := by
      have := congrArg List.length h
      simp only [List.length_drop, List.length_cons] at this
      omega
    have hrest : m.drop 64 = rest := by rw [← List.tail_drop, h, List.tail_cons]
    have hboth : 64 ≤ (m ++ m').length := by
      rw [List.length_append]
      omega
    rw [absorb_of_le s hboth, List.take_append_of_le_length hlen,
      List.drop_append_of_le_length hlen, hrest, ih]

end Sha256

namespace Hasher

/-- What a hasher keeps when it has been given `m`, in any pieces. -/
structure Holds (h : Hasher) (m : Bytes) : Prop where
  absorbed : Sha256.absorb Sha256.initial m = (h.state, h.pending)
  length_eq : h.length = m.length

variable {h : Hasher} {m : Bytes}

lemma holds_empty : empty.Holds [] := ⟨Sha256.absorb_of_lt _ (by decide), rfl⟩

lemma Holds.update (hm : h.Holds m) (piece : Bytes) : (h.update piece).Holds (m ++ piece) := by
  refine ⟨?_, ?_⟩
  · rw [Sha256.absorb_append, hm.absorbed]
    rfl
  · rw [List.length_append, ← hm.length_eq]
    rfl

lemma Holds.finish (hm : h.Holds m) : h.finish = Sha256.hash m := by
  rw [Sha256.hash, Sha256.absorb_append, hm.absorbed, ← hm.length_eq]
  rfl

end Hasher

namespace Reader

/-- The reads of a reader before its first of nothing deliver these pieces. -/
inductive Delivers : Reader → List Bytes → Prop
  | done {r : Reader} (h : (r.read chunkSize).1 = .ok []) : Delivers r []
  | more {r : Reader} {piece : Bytes} {pieces : List Bytes} (hne : piece ≠ [])
      (h : (r.read chunkSize).1 = .ok piece) (rest : Delivers (r.read chunkSize).2 pieces) :
      Delivers r (piece :: pieces)

variable {r : Reader} {pieces : List Bytes}

/-- Any non-empty pieces of at most a chunk are delivered by some reader. -/
lemma delivers_contents (pieces : List Bytes)
    (hp : ∀ b ∈ pieces, b ≠ [] ∧ b.length ≤ chunkSize) (hr : r.Delivers []) :
    Delivers (pieces.map ReadStep.content ++ r) pieces := by
  induction pieces with
  | nil => exact hr
  | cons b pieces ih =>
    obtain ⟨hne, hlen⟩ := hp b List.mem_cons_self
    have htake : b.take chunkSize = b := List.take_of_length_le hlen
    have hdrop : b.drop chunkSize = [] := List.drop_of_length_le hlen
    refine .more hne (by simp [read, htake]) ?_
    simpa [read, hdrop] using ih fun c hc => hp c (List.mem_cons_of_mem _ hc)

/-- Bytes in store are delivered a chunk at a time. -/
lemma exists_delivers_content (b : Bytes) :
    ∃ pieces, Delivers [.content b] pieces ∧ pieces.flatten = b := by
  induction hn : b.length using Nat.strong_induction_on generalizing b with
  | _ n ih =>
    subst hn
    by_cases hb : b = []
    · subst hb
      exact ⟨[], .done rfl, rfl⟩
    have hne : b.take chunkSize ≠ [] := by simp [hb, chunkSize]
    by_cases hd : b.drop chunkSize = []
    · refine ⟨[b.take chunkSize], .more hne rfl ?_, ?_⟩
      · simpa [read, hd] using .done rfl
      · simpa [hd] using List.take_append_drop chunkSize b
    · have hlt : (b.drop chunkSize).length < b.length := by
        have := List.length_pos_iff.mpr hb
        simp only [List.length_drop, chunkSize]
        omega
      obtain ⟨pieces, hp, hflat⟩ := ih _ hlt _ rfl
      refine ⟨b.take chunkSize :: pieces, .more hne rfl ?_, ?_⟩
      · simpa [read, hd] using hp
      · rw [List.flatten_cons, hflat, List.take_append_drop]

/-- The read at which reading stops: it fails, or there is nothing more. -/
inductive Final : Except String Bytes → Prop
  | failed (cause : String) : Final (.error cause)
  | ended : Final (.ok [])

/-- What comes of hashing a message when this was the last read. -/
def answer (m : Bytes) : Except String Bytes → Except String Bytes
  | .error cause => .error cause
  | .ok _ => .ok (Sha256.hash m)

/-- The last read is counted if it succeeded. -/
def lastCount : Except String Bytes → List Nat
  | .error _ => []
  | .ok piece => [piece.length]

/-- The reads of a reader deliver these pieces, and then there is one at which reading stops. -/
inductive Course : Reader → List Bytes → Except String Bytes → Prop
  | stop {r : Reader} {last : Except String Bytes} (h : (r.read chunkSize).1 = last)
      (final : Final last) : Course r [] last
  | more {r : Reader} {piece : Bytes} {pieces : List Bytes} {last : Except String Bytes}
      (hne : piece ≠ []) (h : (r.read chunkSize).1 = .ok piece)
      (rest : Course (r.read chunkSize).2 pieces last) : Course r (piece :: pieces) last

lemma Delivers.course (h : r.Delivers pieces) : r.Course pieces (.ok []) := by
  induction h with
  | done h => exact .stop h .ended
  | more hne h _ ih => exact .more hne h ih

/-- Every piece that is read goes into the hasher, up to the read at which reading stops. -/
lemma hashFrom_course {last : Except String Bytes} (h : r.Course pieces last) {g : Hasher}
    {m : Bytes} (hm : g.Holds m) (reads : List Nat) : hashFrom g reads r =
      (answer (m ++ pieces.flatten) last,
        reads.reverse ++ pieces.map List.length ++ lastCount last) := by
  induction h generalizing g m reads with
  | stop h final =>
    subst h
    rw [hashFrom]
    split
    next he => simp [he, answer, lastCount]
    next he => simp [he, answer, lastCount, hm.finish]
    next he =>
      rw [he] at final
      cases final
  | @more r piece pieces last hne h rest ih =>
    obtain ⟨x, xs, rfl⟩ := List.exists_cons_of_ne_nil hne
    rw [hashFrom]
    split
    next he => exact absurd (h.symm.trans he) (by simp)
    next he => exact absurd (h.symm.trans he) (by simp)
    next y ys he =>
      obtain ⟨rfl, rfl⟩ := List.cons.inj (Except.ok.inj (h.symm.trans he))
      rw [ih (hm.update _)]
      simp

lemma hash_course {last : Except String Bytes} (h : r.Course pieces last) :
    hash r = (answer pieces.flatten last, pieces.map List.length ++ lastCount last) :=
  hashFrom_course h Hasher.holds_empty []

lemma hash_delivers (h : r.Delivers pieces) :
    hash r = (.ok (Sha256.hash pieces.flatten), pieces.map List.length ++ [0]) :=
  hash_course h.course

lemma hash_failure (cause : String) (r : Reader) :
    hash (.failure cause :: r) = (.error cause, []) := by
  have hstop : Course (.failure cause :: r) [] (.error cause) := .stop rfl (.failed cause)
  exact hash_course hstop

end Reader

/-! ### Files -/

/-- A file has a digest when it can be read, and then that of its bytes. -/
lemma hashFile_ok {t : FileTree} {p : Path} {d : String} :
    hashFile t p = .ok d ↔ ∃ m u, (FileOp.readAll p).run t = .ok (m, u) ∧ d = hexDigest m := by
  unfold hashFile FileOp.readAll readerOf
  rw [FileOp.run_bind]
  rcases ho : (FileOp.openRead p).run t with e | ⟨h, t'⟩
  · simp
  obtain ⟨rfl, -⟩ := FileOp.openRead_ok ho
  simp only
  rcases hc : (FileOp.contents h).run t' with e | ⟨b, u⟩
  · simp [Reader.hash_failure]
  · obtain ⟨pieces, hp, rfl⟩ := Reader.exists_delivers_content b
    simp [Reader.hash_delivers hp, toHex_hash, eq_comm]

/-- **The digest is that of the bytes**: in whatever pieces a reader delivers them, it is the
standard's for all of them at once, and that of every file they fill. -/
theorem hash_delivered {r : Reader} {pieces : List Bytes} (h : r.Delivers pieces) :
    r.hash.1.map Bytes.toHex = .ok (hexDigest pieces.flatten) ∧
      ((hexDigest pieces.flatten).length = 64 ∧
        ∀ x ∈ (hexDigest pieces.flatten).toList, x ∈ "0123456789abcdef".toList) ∧
      ∀ t p l id f, t.lookup true p = .ok (l, .file id) → t.file? id = some f →
        t.user.mayRead f.mode = true → f.content = pieces.flatten →
          hashFile t p = .ok (hexDigest pieces.flatten) := by
  refine ⟨?_, hexDigest_digits _, fun t p l id f hl hf hr hc => ?_⟩
  · rw [Reader.hash_delivers h]
    exact congrArg Except.ok (toHex_hash _)
  · exact hashFile_ok.mpr ⟨f.content, t, FileOp.readAll_file hl hf hr, hc ▸ rfl⟩

/-- One file that holds "abc". -/
def abcTree : FileTree where
  nodes := [([], .directory 0o755), ([[109]], .file 0)]
  files := [⟨[97, 98, 99], 0o644⟩]
  cwd := []

/-- "abc" in two pieces, with more after a read of nothing. -/
theorem hash_delivered_abc :
    Reader.Delivers [.content [97], .content [98, 99], .content [], .content [100]]
        [[97], [98, 99]] ∧
      (Reader.hash [.content [97], .content [98, 99], .content [], .content [100]]).1.map
        Bytes.toHex = .ok (hexDigest [97, 98, 99]) ∧
      abcTree.lookup true [109] = .ok ([[109]], .file 0) ∧
      hashFile abcTree [109] = .ok (hexDigest [97, 98, 99]) := by
  have hd : Reader.Delivers [.content [97], .content [98, 99], .content [], .content [100]]
      [[97], [98, 99]] :=
    Reader.delivers_contents [[97], [98, 99]] (by decide) (.done rfl)
  have hl : abcTree.lookup true [109] = .ok ([[109]], .file 0) := by decide
  obtain ⟨hr, -, hf⟩ := hash_delivered hd
  exact ⟨hd, hr, hl, hf abcTree [109] [[109]] 0 ⟨[97, 98, 99], 0o644⟩ hl rfl rfl rfl⟩

example : hexDigest [97, 98, 99] =
    "ba7816bf8f01cfea414140de5dae2223b00361a396177a9cb410ff61f20015ad" := by
  rw [← toHex_hash]
  decide +kernel

end PinnedBuild.Digest
