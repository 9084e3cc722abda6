import PinnedBuild.Digest.Hasher

/-!
Hashing what a reader delivers, read by read.

A reader is the list of what it has in store: contents, which a read takes a buffer at a time, and
reads that fail. A read that delivers nothing is the end.
-/

namespace PinnedBuild.Digest

/-- The most that one read delivers. -/
def chunkSize : Nat := 1048576

inductive ReadStep where
  | content (bytes : Bytes)
  | failure (cause : String)
  deriving DecidableEq, Repr

abbrev Reader := List ReadStep

namespace Reader

/-- What is still to come, with one added for each step. -/
def weight : Reader → Nat
  | [] => 0
  | .content b :: rest => b.length + 1 + weight rest
  | .failure _ :: rest => 1 + weight rest

/-- One read into a buffer of `n` bytes. Contents taken to their end are done with. -/
def read (n : Nat) : Reader → Except String Bytes × Reader
  | [] => (.ok [], [])
  | .failure cause :: rest => (.error cause, rest)
  | .content b :: rest =>
    (.ok (b.take n), if (b.drop n).isEmpty then rest else .content (b.drop n) :: rest)

theorem weight_read_lt (n : Nat) (r : Reader) (x : UInt8) (piece : Bytes)
    (h : (r.read n).1 = .ok (x :: piece)) : (r.read n).2.weight < r.weight := by
  match r with
  | [] => simp [read] at h
  | .failure _ :: _ => simp [read] at h
  | .content b :: rest =>
    have ht : b.take n = x :: piece := by simpa [read] using h
    have h1 := congrArg List.length ht
    simp only [List.length_take, List.length_cons] at h1
    simp only [read]
    split <;> simp only [weight, List.length_drop] <;> omega

/-- The digest and the lengths of the reads that succeeded, the last read last. Reading goes on
until a read fails or delivers nothing. -/
def hashFrom (h : Hasher) (reads : List Nat) (r : Reader) : Except String Bytes × List Nat :=
  match hr : (r.read chunkSize).1 with
  | .error cause => (.error cause, reads.reverse)
  | .ok [] => (.ok h.finish, (0 :: reads).reverse)
  | .ok (x :: piece) =>
    hashFrom (h.update (x :: piece)) ((x :: piece).length :: reads) (r.read chunkSize).2
termination_by r.weight
decreasing_by exact weight_read_lt _ _ _ _ hr

def hash (r : Reader) : Except String Bytes × List Nat := hashFrom .empty [] r

/-- What is told of the answer: the digest in lowercase hexadecimal, or that a read failed. -/
def shown (answer : Except String Bytes) : Except String String :=
  (answer.map Bytes.toHex).mapError ("read: " ++ ·)

def digest (r : Reader) : Except String String := shown (hash r).1

end Reader

end PinnedBuild.Digest
