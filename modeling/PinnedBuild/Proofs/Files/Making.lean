import Mathlib
import PinnedBuild.Proofs.Files.Operations

/-!
A new directory: it is called by the last name of its path, and nothing stands in it if all that
stands in the tree stands in directories.
-/

namespace PinnedBuild.Path

/-- The last of the names on a path is its last part. -/
lemma getLast?_components {p : Path} {x : Bytes} (h : p.bare.getLast? = some x)
    (hx : Files.IsEntry x) : p.components.getLast? = some (.name x) := by
  obtain ⟨front, hfront⟩ := List.getLast?_eq_some_iff.mp h
  have hne : x ≠ [] := by
    have hmem : x ∈ p.bare := by simp [hfront]
    simpa using (List.mem_filter.mp hmem).2
  have hpiece : Component.ofPiece x = some (.name x) := by
    unfold Component.ofPiece
    rw [if_neg (by simp [hne, hx.1]), if_neg hx.2]
  have hbare : p.pieces.filterMap Component.ofPiece = p.bare.filterMap Component.ofPiece := by
    unfold bare
    rw [List.filterMap_filter]
    refine List.filterMap_congr fun piece _ => ?_
    rcases piece with _ | ⟨b, piece⟩ <;> rfl
  have hrest : (p.pieces.filterMap Component.ofPiece).getLast? = some (.name x) := by
    rw [hbare, hfront, List.filterMap_append]
    simp [hpiece]
  unfold components
  simp only
  split
  · rw [List.getLast?_cons, hrest]
    rfl
  · split
    · rw [List.getLast?_cons, hrest]
      rfl
    · exact hrest

end PinnedBuild.Path

namespace PinnedBuild.Files

namespace FileTree

variable {t u : FileTree} {p : Path} {above dir at_ : Location} {x : Name} {n : Node} {m : Mode}

/-! ### The name that is missing -/

/-- A link is only followed while names are left after it, so that the last of them stays last. -/
lemma walkNames_missing {f : List Name → Location → Except FileError Found}
    (hf : ∀ ss here, f ss here = .ok (.missing dir x) → ss.getLast? = some x ∧ IsEntry x)
    {ss : List Name} {here : Location} (h : t.walkNames f false ss here = .ok (.missing dir x)) :
    ss.getLast? = some x ∧ IsEntry x := by
  induction ss generalizing here with
  | nil =>
    obtain ⟨_, -, he⟩ := walkNames_nil_ok h
    cases he
  | cons name rest ih =>
    have hlast : ∀ {more : List Name}, more.getLast? = some x →
        (name :: more).getLast? = some x := fun hm => by rw [List.getLast?_cons, hm]; rfl
    rw [walkNames_cons] at h
    rcases ht : t.turn name here with e | (on | _ | ⟨place, target⟩ | ⟨place, k⟩) <;> rw [ht] at h
    · cases h
    · obtain ⟨hrest, hx⟩ := ih h
      exact ⟨hlast hrest, hx⟩
    · obtain ⟨-, ⟨-, hr⟩ | ⟨-, hr⟩ | ⟨hentry, -, -⟩⟩ := turn_ok ht
      · cases hr
      · cases hr
      · rcases rest with _ | ⟨y, rest⟩
        · obtain ⟨-, rfl⟩ := Found.missing.inj (Except.ok.inj h)
          exact ⟨rfl, hentry⟩
        · cases h
    · rcases rest with _ | ⟨y, rest⟩
      · cases h
      · obtain ⟨hfollowed, hx⟩ := hf _ _ h
        have hrest : (y :: rest).getLast? = some x := by
          rwa [List.getLast?_append_of_ne_nil _ (List.cons_ne_nil y rest)] at hfollowed
        exact ⟨hlast hrest, hx⟩
    · rcases rest with _ | ⟨y, rest⟩ <;> cases h

lemma walkLinks_missing (k : Nat) {ss : List Name} {here : Location}
    (h : t.walkLinks false k ss here = .ok (.missing dir x)) :
    ss.getLast? = some x ∧ IsEntry x := by
  induction k generalizing ss here with
  | zero => exact walkNames_missing (fun _ _ h => by cases h) h
  | succ k ih => exact walkNames_missing (fun _ _ h => ih h) h

/-- What is missing where a path leads is the last name on it. -/
lemma bare_of_missing (h : t.walk false p = .ok (.missing dir x)) :
    p.bare.getLast? = some x ∧ IsEntry x := by
  obtain ⟨hlast, hx⟩ := walkLinks_missing _ (walk_ok h).2
  rw [Path.steps_eq] at hlast
  split at hlast
  · -- a slash at the end would ask for a dot, which is never missing
    have hdot : [Path.dot] = x := by simpa using hlast
    exact absurd hdot.symm hx.1
  · exact ⟨by simpa using hlast, hx⟩

/-! ### What stands in a directory -/

/-- What stands somewhere stands in a directory. -/
def Grounded (t : FileTree) : Prop :=
  ∀ above x n, t.node? (above ++ [x]) = some n → ∃ m, t.node? above = some (.directory m)

lemma grounded_empty : FileTree.empty.Grounded := by
  intro above x n h
  simp [FileTree.empty, node?, List.lookup_cons, beq_false_of_ne] at h

/-- Something new is put in a directory. -/
lemma Grounded.put (h : t.Grounded) (hd : t.node? above = some (.directory m))
    (hnone : t.node? (above ++ [x]) = none) : (t.put (above ++ [x]) n).Grounded := by
  have hkeep : ∀ {dir m}, t.node? dir = some (.directory m) →
      (t.put (above ++ [x]) n).node? dir = some (.directory m) :=
    fun hm => (extends_put hnone).node _ _ hm
  intro dir y k hy
  rw [node?_put] at hy
  split at hy
  · rename_i heq
    obtain ⟨rfl, -⟩ := List.append_inj' heq rfl
    exact ⟨m, hkeep hd⟩
  · obtain ⟨m', hm'⟩ := h dir y k hy
    exact ⟨m', hkeep hm'⟩

lemma Grounded.congr (h : t.Grounded) (hn : u.nodes = t.nodes) : u.Grounded := by
  have hsame : ∀ loc, u.node? loc = t.node? loc := fun loc => by unfold node?; rw [hn]
  intro dir y k hy
  rw [hsame] at hy ⊢
  exact h dir y k hy

/-- Nothing stands below a place at which nothing stands. -/
lemma Grounded.below_missing (h : t.Grounded) (hnone : t.node? at_ = none) (more : List Name) :
    t.node? (at_ ++ more) = none := by
  induction more using List.reverseRecOn with
  | nil => rwa [List.append_nil]
  | append_singleton more y ih =>
    rcases hn : t.node? (at_ ++ (more ++ [y])) with _ | n
    · rfl
    · rw [← List.append_assoc] at hn
      obtain ⟨m, hm⟩ := h _ y n hn
      rw [ih] at hm
      cases hm

/-- Nothing stands below what is put where nothing stood. -/
lemma Grounded.below_put (h : t.Grounded) (hnone : t.node? at_ = none) {more : List Name}
    (hmore : more ≠ []) : (t.put at_ n).node? (at_ ++ more) = none := by
  rw [node?_put, if_neg (by simpa using hmore)]
  exact h.below_missing hnone more

lemma names_eq_nil (h : ∀ y, t.node? (dir ++ [y]) = none) : t.names dir = [] := by
  refine List.eq_nil_iff_forall_not_mem.mpr fun y hy => ?_
  obtain ⟨⟨loc, n⟩, hmem, hname⟩ := List.mem_filterMap.mp hy
  split at hname
  · rename_i hdrop
    obtain ⟨front, hloc⟩ := List.getLast?_eq_some_iff.mp hname
    simp only at hdrop hloc
    subst hloc
    rw [List.dropLast_concat] at hdrop
    subst hdrop
    have hmissing := List.lookup_eq_none_iff.mp (h y) _ hmem
    simp at hmissing
  · cases hname

end FileTree

namespace FileOp

open FileTree

variable {t : FileTree} {p : Path} {l : Location} {m : Mode}

lemma last_of_missing {dir : Location} {x : Name}
    (h : t.walk false (withoutSlashes p) = .ok (.missing dir x)) :
    p.components.getLast? = some (.name x) := by
  obtain ⟨hlast, hx⟩ := bare_of_missing h
  rw [bare_withoutSlashes] at hlast
  exact Path.getLast?_components hlast hx

/-- Where a directory can be made, nothing is there. -/
lemma isThere_of_makeDirectory {y : Unit} {t' : FileTree}
    (h : (makeDirectory p).run t = .ok (y, t')) : t.isThere p = false := by
  obtain ⟨dir, x, m, hw, -, rfl, hmade⟩ := makeDirectory_makes h
  have hmissing : t.node? (dir ++ [x]) = none := walk_fits hw
  rcases hthere : t.isThere p with _ | _
  · rfl
  · -- the path would lead to the same place in the tree that has the new directory
    obtain ⟨l, n, hl⟩ := lookup_of_isThere hthere
    obtain ⟨rfl, -⟩ := lookup_unique hmade (lookup_extends (extends_put hmissing) rfl hl)
    have hn := lookup_node hl
    rw [hmissing] at hn
    cases hn

lemma run_list (h : t.lookup true p = .ok (l, .directory m)) (hm : t.user.mayRead m = true) :
    (list p).run t = .ok ((t.names l).mergeSort (fun a b => a ≤ b), t) := by
  unfold list openRead
  simp only [run_bind, run_lookup, h, Except.map, run_get, hm, if_true, run_pure]

lemma mayRead_inheritedMode (u : User) (m : Mode) : u.mayRead (inheritedMode m) = true := by
  cases u <;> simp [User.mayRead, Mode.ownerReads, inheritedMode, newDirectoryMode]

end FileOp

end PinnedBuild.Files
