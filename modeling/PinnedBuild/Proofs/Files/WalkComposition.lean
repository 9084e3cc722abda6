import Mathlib
import PinnedBuild.Proofs.Files.Operations

/-!
Walks that go on from where others have come to. A walk depends on where it begins and not on the
directory that relative paths begin in, and a part of it never follows more links than the whole.
-/

namespace PinnedBuild.Files

lemma Usable.of_join_right {p x : Path} (hp : p ≠ []) (hx : Plain x) (h : Usable (p.join x)) :
    Usable x := by
  obtain ⟨front, hfront⟩ : ∃ front, p.join x = front ++ x := by
    rw [Path.join_eq hp hx]
    split
    · exact ⟨p, rfl⟩
    · exact ⟨p ++ [Path.slash], by simp⟩
  rw [hfront] at h
  exact ⟨hx.notEmpty, fun hz => h.noZero (by simp [hz]), lt_of_le_of_lt (by simp) h.short⟩

namespace FileTree

variable {t : FileTree} {follow : Bool} {p q x : Path} {l at_ here : Location} {m n : Node}
  {ss rest : List Name}

/-- A walk does not depend on where relative paths begin. -/
lemma walkLinks_cd (t : FileTree) (cwd : Location) (follow : Bool) (links : Nat) :
    ({ t with cwd := cwd } : FileTree).walkLinks follow links = t.walkLinks follow links := by
  have hnode : ∀ loc, ({ t with cwd := cwd } : FileTree).node? loc = t.node? loc := fun _ => rfl
  have hsearch : ∀ loc, ({ t with cwd := cwd } : FileTree).searchable loc = t.searchable loc :=
    fun _ => rfl
  have hnames : ∀ f ss here, ({ t with cwd := cwd } : FileTree).walkNames f follow ss here =
      t.walkNames f follow ss here := by
    intro f ss here
    induction ss generalizing here with
    | nil => simp only [walkNames, hnode]
    | cons name rest ih => simp only [walkNames, hnode, hsearch, ih]
  induction links with
  | zero => exact funext fun ss => funext fun here => hnames _ ss here
  | succ links ih =>
    unfold walkLinks
    rw [ih]
    exact funext fun ss => funext fun here => hnames _ ss here

/-- An absolute path leads to the same from every directory. -/
lemma lookup_cd (hp : p.isAbsolute = true) (cwd : Location) :
    ({ t with cwd := cwd } : FileTree).lookup follow p = t.lookup follow p := by
  have horigin : ∀ c, origin c p = [] := fun c => if_pos hp
  unfold lookup walk
  simp only [walkLinks_cd, horigin]

/-- A walk that comes to its end also does where more links may be followed. -/
lemma walkLinks_more {j k : Nat} (hjk : j ≤ k)
    (h : t.walkLinks follow j ss here = .ok (.node l n)) :
    t.walkLinks follow k ss here = .ok (.node l n) := by
  induction j generalizing k ss here l n with
  | zero =>
    rcases k with _ | k
    · exact h
    · exact walkNames_extends (.refl t) (fun _ _ _ _ h => by simp at h) h
  | succ j ih =>
    obtain ⟨k, rfl⟩ : ∃ i, k = i + 1 := ⟨k - 1, by omega⟩
    exact walkNames_extends (.refl t) (fun _ _ _ _ h => ih (by omega) h) h

section

variable {f g : List Name → Location → Except FileError Found} {P : Location → Prop}

/-- What comes of the last names on a walk comes of them where the names before them lead. -/
lemma walkNames_onward (hrest : rest ≠ [])
    (hstop : ∀ here, t.walkNames f follow rest here = .ok (.node l n) → P here)
    (hfg : ∀ ss here, g ss here = .ok (.node at_ m) → f (ss ++ rest) here = .ok (.node l n) → P at_)
    (hg : t.walkNames g true ss here = .ok (.node at_ m))
    (h : t.walkNames f follow (ss ++ rest) here = .ok (.node l n)) : P at_ := by
  induction ss generalizing here with
  | nil =>
    obtain ⟨_, -, he⟩ := walkNames_nil_ok hg
    rw [(Found.node.inj he).1]
    exact hstop here h
  | cons name ss ih =>
    rw [List.cons_append, walkNames_cons] at h
    rw [walkNames_cons] at hg
    rcases ht : t.turn name here with e | (next | _ | ⟨next, target⟩ | ⟨next, k⟩) <;>
      rw [ht] at h hg
    · simp at h
    · exact ih hg h
    · simp [onTurn, hrest] at h
    · -- a link on the way stands for its target in front of the names that are left, in both walks
      simp only [Except.bind_ok, onTurn] at h hg
      rw [if_neg (by simp)] at hg
      rw [if_neg (by simp [hrest]), ← List.append_assoc] at h
      exact hfg _ _ hg h
    · simp [onTurn, hrest] at h

end

lemma walkLinks_onward (hrest : rest ≠ []) (k : Nat)
    (hg : t.walkLinks true k ss here = .ok (.node at_ m))
    (h : t.walkLinks follow k (ss ++ rest) here = .ok (.node l n)) :
    t.walkLinks follow k rest at_ = .ok (.node l n) := by
  induction k generalizing ss here with
  | zero =>
    exact walkNames_onward (P := fun at_ => t.walkLinks follow 0 rest at_ = .ok (.node l n)) hrest
      (fun _ h => h) (fun _ _ h => by simp at h) hg h
  | succ k ih =>
    exact walkNames_onward (P := fun at_ => t.walkLinks follow (k + 1) rest at_ = .ok (.node l n))
      hrest (fun _ h => h) (fun _ _ hg h => walkLinks_more (Nat.le_succ k) (ih hg h)) hg h

/-- A name is a path of one step. -/
lemma steps_of_plain (hx : Plain x) : steps x = [x] := by
  have hlast : x.getLast? ≠ some Path.slash := fun hl => hx.noSlash (List.mem_of_getLast? hl)
  rw [Path.steps_eq, if_neg hlast, Path.bare, Path.pieces_of_noSlash hx.noSlash]
  simp [hx.notEmpty]

/-- Two dots and a name lead where the name leads from the directory above. -/
lemma walk_up (hx : Plain x) (hu : Usable (Path.join [Path.dot, Path.dot] x))
    (hs : t.searchable t.cwd = .ok ()) :
    t.walk follow (Path.join [Path.dot, Path.dot] x) =
      ({ t with cwd := t.cwd.dropLast } : FileTree).walk follow x := by
  have hne : [Path.dot, Path.dot] ≠ [] := by simp
  have horigin : origin t.cwd.dropLast x = t.cwd.dropLast := by
    simp [origin, Path.not_isAbsolute hx]
  rw [walk_eq hu, Path.steps_join hne hx, origin_join hne hx, walk_eq (hu.of_join_right hne hx),
    steps_of_plain hx, horigin, walkLinks_cd t t.cwd.dropLast]
  show t.walkNames (t.walkLinks follow 39) follow ([Path.dot, Path.dot] :: [x]) t.cwd =
    t.walkNames (t.walkLinks follow 39) follow [x] t.cwd.dropLast
  rw [walkNames_cons, turn, hs]
  rfl

/-- What stands under a name is found in the directory that relative paths begin in. -/
lemma lookup_name (hx : Plain x) (h : t.lookup false x = .ok (l, n)) : l = t.cwd ++ [x] := by
  obtain ⟨-, hw⟩ := walk_ok (lookup_ok.mp h)
  have horigin : origin t.cwd x = t.cwd := by simp [origin, Path.not_isAbsolute hx]
  rw [steps_of_plain hx, horigin] at hw
  have hlast : t.last t.cwd x = .ok (.node l n) :=
    (walkNames_entry (isEntry_of_plain hx) t.cwd).symm.trans hw
  obtain ⟨-, -, ⟨he, -⟩ | ⟨_, he, -⟩⟩ := last_ok hlast
  · cases he
  · exact (Found.node.inj he).1

/-- A name that leads somewhere after a path leads to the same by itself, from where the path
leads. -/
lemma lookup_onward (hx : Plain x) (hq : t.lookup true q = .ok (at_, m))
    (h : t.lookup follow (q.join x) = .ok (l, n)) :
    ({ t with cwd := at_ } : FileTree).lookup follow x = .ok (l, n) := by
  have hne := (walk_ok (lookup_ok.mp hq)).1.notEmpty
  obtain ⟨hu, hw⟩ := walk_ok (lookup_ok.mp h)
  rw [Path.steps_join hne hx, origin_join hne hx] at hw
  have horigin : origin at_ x = at_ := by simp [origin, Path.not_isAbsolute hx]
  rw [lookup_ok, walk_eq (hu.of_join_right hne hx), steps_of_plain hx, horigin, walkLinks_cd]
  exact walkLinks_onward (by simp) _ (walkLinks_bare hq) hw

end FileTree

end PinnedBuild.Files
