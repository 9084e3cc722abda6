import PinnedBuild.Digest.Sha256

/-!
SHA-256 of a message that arrives in pieces. Between two pieces only the state, the bytes of the
block begun and the length so far are kept.
-/

namespace PinnedBuild.Digest

structure Hasher where
  state : Sha256.State
  /-- The block begun, always less than a full one. -/
  pending : Bytes
  length : Nat
  deriving Repr

namespace Hasher

def empty : Hasher := ⟨Sha256.initial, [], 0⟩

def update (h : Hasher) (piece : Bytes) : Hasher :=
  let r := Sha256.absorb h.state (h.pending ++ piece)
  ⟨r.1, r.2, h.length + piece.length⟩

def finish (h : Hasher) : Bytes :=
  (Sha256.absorb h.state (h.pending ++ Sha256.padding h.length)).1.toBytes

end Hasher

end PinnedBuild.Digest
