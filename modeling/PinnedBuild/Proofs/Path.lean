import Mathlib
import PinnedBuild.Files.Walk

/-!
A name put after a path: its pieces are those of the path and then the name.
-/

namespace PinnedBuild

open Files

/-- A name that can stand in a directory: it has no slash and is not one of those that stand for a
place by themselves. -/
structure Plain (x : Name) : Prop where
  notEmpty : x ≠ []
  noSlash : Path.slash ∉ x
  notHere : x ≠ [Path.dot]
  notUp : x ≠ [Path.dot, Path.dot]

namespace Path

lemma pieces_ne_nil (p : Path) : p.pieces ≠ [] := by
  rcases p with _ | ⟨b, rest⟩
  · simp [pieces]
  · unfold pieces
    split
    · simp
    · split <;> simp

lemma pieces_append_slash (p q : Path) : (p ++ slash :: q).pieces = p.pieces ++ q.pieces := by
  induction p with
  | nil => simp [pieces]
  | cons b p ih =>
    simp only [List.cons_append, pieces, ih]
    split
    · rfl
    · rcases hp : pieces p with _ | ⟨first, more⟩
      · exact absurd hp (pieces_ne_nil p)
      · rfl

lemma pieces_of_noSlash {p : Path} (h : slash ∉ p) : p.pieces = [p] := by
  induction p with
  | nil => rfl
  | cons b p ih =>
    simp only [List.mem_cons, not_or] at h
    simp [pieces, ih h.2, Ne.symm h.1]

lemma noSlash_of_mem_pieces {p : Path} {x : Bytes} (h : x ∈ p.pieces) : slash ∉ x := by
  induction p generalizing x with
  | nil => simp_all [pieces]
  | cons b p ih =>
    unfold pieces at h
    split at h
    · rcases List.mem_cons.mp h with rfl | h
      · simp
      · exact ih h
    · rename_i hb
      rcases hp : pieces p with _ | ⟨first, more⟩
      · exact absurd hp (pieces_ne_nil p)
      · rw [hp] at h ih
        rcases List.mem_cons.mp h with rfl | h
        · have := ih (List.mem_cons_self ..)
          simp [this, Ne.symm hb]
        · exact ih (List.mem_cons_of_mem _ h)

lemma ofPieces_pieces (p : Path) : ofPieces p.pieces = p := by
  induction p with
  | nil => rfl
  | cons b p ih =>
    obtain ⟨first, more, hp⟩ := List.exists_cons_of_ne_nil (pieces_ne_nil p)
    unfold ofPieces at ih ⊢
    unfold pieces
    rw [hp] at ih ⊢
    split
    · rename_i hb
      rw [List.intercalate_cons_cons, ih, hb]
      rfl
    · rcases more with _ | ⟨next, more⟩
      · simpa using ih
      · rw [List.intercalate_cons_cons] at ih ⊢
        simp [← ih]

/-- The pieces that are names or dots. -/
def bare (p : Path) : List Name := p.pieces.filter fun piece => !piece.isEmpty

lemma steps_eq (p : Path) :
    steps p = p.bare ++ if p.getLast? = some slash then [[dot]] else [] := by
  unfold steps bare
  split <;> simp

/-- Slashes at the end add no names. -/
lemma bare_append_slashes (p : Path) (k : Nat) : (p ++ List.replicate k slash).bare = p.bare := by
  have hs : ∀ k, pieces (List.replicate k slash) = List.replicate (k + 1) [] := by
    intro k
    induction k with
    | zero => rfl
    | succ k ih => simp [List.replicate_succ, pieces, ih]
  rcases k with _ | k
  · simp
  · unfold bare
    rw [List.replicate_succ, pieces_append_slash, hs]
    simp

lemma isEmpty_join {p x : Path} (hx : Plain x) : (p.join x).isEmpty = false := by
  have hne := hx.notEmpty
  unfold join
  split
  · simpa using hne
  · split <;> simp [hne]

lemma not_isAbsolute {x : Name} (hx : Plain x) : Path.isAbsolute x = false := by
  have h := hx.noSlash
  rcases x with _ | ⟨b, x⟩
  · rfl
  · have : b ≠ slash := fun hb => h (by simp [hb])
    simpa [isAbsolute] using this

/-- The path is continued by a slash, if it has none at its end, and the name. -/
lemma join_eq {p x : Path} (hp : p ≠ []) (hx : Plain x) :
    p.join x = if p.getLast? = some slash then p ++ x else p ++ slash :: x := by
  unfold join
  rw [not_isAbsolute hx]
  simp [hp]

lemma isAbsolute_join {p x : Path} (hp : p ≠ []) (hx : Plain x) :
    (p.join x).isAbsolute = p.isAbsolute := by
  rw [join_eq hp hx]
  rcases p with _ | ⟨b, p⟩
  · exact absurd rfl hp
  · split <;> simp [isAbsolute]

lemma getLast?_join {p x : Path} (hp : p ≠ []) (hx : Plain x) :
    (p.join x).getLast? ≠ some slash := by
  have hl : (x.getLast? : Option UInt8) ≠ some slash := fun h => hx.noSlash (List.mem_of_getLast? h)
  rw [join_eq hp hx]
  have hne := hx.notEmpty
  split
  · rwa [List.getLast?_append_of_ne_nil _ hne]
  · rwa [List.getLast?_append_of_ne_nil _ (by simp), List.getLast?_cons_of_ne_nil hne]

lemma bare_join {p x : Path} (hp : p ≠ []) (hx : Plain x) : (p.join x).bare = p.bare ++ [x] := by
  have hne := hx.notEmpty
  unfold bare
  rw [join_eq hp hx]
  split
  · rename_i hl
    obtain ⟨q, rfl⟩ : ∃ q, p = q ++ [slash] := List.getLast?_eq_some_iff.mp hl
    rw [List.append_assoc, List.singleton_append, pieces_append_slash, pieces_append_slash,
      pieces_of_noSlash hx.noSlash]
    simp [pieces, hne]
  · rw [pieces_append_slash, pieces_of_noSlash hx.noSlash]
    simp [hne]

lemma steps_join {p x : Path} (hp : p ≠ []) (hx : Plain x) :
    steps (p.join x) = p.bare ++ [x] := by
  rw [steps_eq, if_neg (getLast?_join hp hx), bare_join hp hx, List.append_nil]

/-- What a name is joined to is found again in front of it. -/
lemma pieces_join {p x : Path} (hp : p ≠ []) (hx : Plain x) :
    ∃ first rest, (p.join x).pieces = first :: (rest ++ [x]) := by
  rw [join_eq hp hx]
  split
  · rename_i hl
    obtain ⟨q, rfl⟩ : ∃ q, p = q ++ [slash] := List.getLast?_eq_some_iff.mp hl
    obtain ⟨first, rest, hq⟩ := List.exists_cons_of_ne_nil (pieces_ne_nil q)
    refine ⟨first, rest, ?_⟩
    rw [List.append_assoc, List.singleton_append, pieces_append_slash, hq,
      pieces_of_noSlash hx.noSlash]
    rfl
  · obtain ⟨first, rest, hq⟩ := List.exists_cons_of_ne_nil (pieces_ne_nil p)
    refine ⟨first, rest, ?_⟩
    rw [pieces_append_slash, hq, pieces_of_noSlash hx.noSlash]
    rfl

lemma not_trivial {x : Name} (hx : Plain x) : Component.trivial x = false := by
  simp [Component.trivial, hx.notEmpty, hx.notHere]

/-- Of two names at the end the parent keeps the first. -/
lemma parent?_append {p x : Path} (hp : p ≠ []) (hx : Plain x) {y : Name} (hy : Plain y) :
    (p.join x ++ slash :: y).parent? = some (p.join x) := by
  obtain ⟨first, rest, hf⟩ := pieces_join hp hx
  have hpieces : (p.join x ++ slash :: y).pieces = first :: (rest ++ [x] ++ [y]) := by
    rw [pieces_append_slash, hf, pieces_of_noSlash hy.noSlash]
    rfl
  have hback : ofPieces (first :: (rest ++ [x])) = p.join x := by
    rw [← hf, ofPieces_pieces]
  unfold parent?
  rw [hpieces]
  simp only
  by_cases hfront : (p.join x ++ slash :: y).isAbsolute = true ∨ first = [dot]
  · rw [if_pos hfront]
    simp [not_trivial hx, not_trivial hy, hback]
  · rw [if_neg hfront]
    simp [not_trivial hx, not_trivial hy, hback]

lemma parent?_join {p x : Path} (hp : p ≠ []) (hx : Plain x) {y : Name} (hy : Plain y) :
    ((p.join x).join y).parent? = some (p.join x) := by
  have hne : p.join x ≠ [] := fun h => by simpa [h] using isEmpty_join (p := p) hx
  rw [join_eq hne hy, if_neg (getLast?_join hp hx)]
  exact parent?_append hp hx hy

lemma join_ne_nil {p q : Path} (hq : q ≠ []) : p.join q ≠ [] := by
  unfold join
  split
  · exact hq
  · split <;> simp [hq]

lemma plain_of_mem_components {p : Path} {n : Name} (h : Component.name n ∈ p.components) :
    Plain n := by
  have hm : Component.name n ∈ p.pieces.filterMap Component.ofPiece := by
    unfold components at h
    split at h
    · simpa using h
    · split at h
      · simpa using h
      · exact h
  obtain ⟨piece, hp, hn⟩ := List.mem_filterMap.mp hm
  unfold Component.ofPiece at hn
  split at hn
  · simp at hn
  · rename_i h1
    split at hn
    · simp at hn
    · rename_i h2
      simp only [Option.some.injEq, Component.name.injEq] at hn
      subst hn
      exact ⟨fun h => h1 (.inl h), noSlash_of_mem_pieces hp, fun h => h1 (.inr h), h2⟩

end Path

end PinnedBuild
