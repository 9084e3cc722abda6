import Mathlib
import PinnedBuild.Proofs.Files.Tree
import PinnedBuild.Proofs.Files.Walk

/-!
What a path leads to. A name put after a path is looked up where the path leads, and that place
stays the same as long as nothing on the way is replaced by something else.
-/

namespace PinnedBuild.Files

lemma isEntry_of_plain {x : Name} (hx : Plain x) : IsEntry x := ⟨hx.notHere, hx.notUp⟩

/-- What every path has to satisfy before it is followed at all. -/
structure Usable (p : Path) : Prop where
  notEmpty : p ≠ []
  noZero : (0 : UInt8) ∉ p
  short : p.length < maxPath

lemma length_le_join (p x : Path) (h : p ≠ []) (hx : Plain x) : p.length ≤ (p.join x).length := by
  rw [Path.join_eq h hx]
  split <;> simp

lemma mem_join {p x : Path} (h : p ≠ []) (hx : Plain x) {b : UInt8} (hb : b ∈ p) :
    b ∈ p.join x := by
  rw [Path.join_eq h hx]
  split <;> simp [hb]

/-- A path is usable if it is after a name is put after it. -/
lemma Usable.of_join {p x : Path} (hp : p ≠ []) (hx : Plain x) (h : Usable (p.join x)) :
    Usable p where
  notEmpty := hp
  noZero hz := h.noZero (mem_join hp hx hz)
  short := lt_of_le_of_lt (length_le_join p x hp hx) h.short

lemma origin_join {cwd : Location} {p x : Path} (hp : p ≠ []) (hx : Plain x) :
    origin cwd (p.join x) = origin cwd p := by
  unfold origin
  rw [Path.isAbsolute_join hp hx]

namespace FileTree

variable {t u : FileTree} {follow : Bool} {p q x : Path} {l l' : Location} {n n' : Node} {r : Found}

lemma walk_eq (hp : Usable p) :
    t.walk follow p = t.walkLinks follow maxLinks (steps p) (origin t.cwd p) := by
  unfold walk
  rw [if_neg (by simpa using hp.noZero), if_neg (by simpa using hp.notEmpty),
    if_neg (by have := hp.short; omega)]

lemma walk_ok (h : t.walk follow p = .ok r) :
    Usable p ∧ t.walkLinks follow maxLinks (steps p) (origin t.cwd p) = .ok r := by
  unfold walk at h
  split at h
  · simp at h
  · split at h
    · simp at h
    · split at h
      · simp at h
      · rename_i h0 he hl
        exact ⟨⟨by simpa using he, by simpa using h0, by omega⟩, h⟩

lemma lookup_ok : t.lookup follow p = .ok (l, n) ↔ t.walk follow p = .ok (.node l n) := by
  unfold lookup
  rcases t.walk follow p with e | (⟨l', n'⟩ | ⟨d, x⟩) <;> simp

/-- A path leads to one place. -/
lemma lookup_unique {l' : Location} {n' : Node} (h : t.lookup follow p = .ok (l, n))
    (h' : t.lookup follow p = .ok (l', n')) : l = l' ∧ n = n' :=
  Prod.mk.inj (Except.ok.inj (h.symm.trans h'))

/-- What a walk finds is there, and what it finds missing is not. -/
def Fits (t : FileTree) : Found → Prop
  | .node l n => t.node? l = some n
  | .missing dir x => t.node? (dir ++ [x]) = none

lemma walkNames_fits {f : List Name → Location → Except FileError Found}
    (hf : ∀ ss here r, f ss here = .ok r → t.Fits r) {ss : List Name} {here : Location}
    (h : t.walkNames f follow ss here = .ok r) : t.Fits r := by
  induction ss generalizing here with
  | nil =>
    obtain ⟨n, hn, rfl⟩ := walkNames_nil_ok h
    exact hn
  | cons name rest ih =>
    rw [walkNames_cons] at h
    rcases ht : t.turn name here with e | (at_ | _ | ⟨at_, target⟩ | ⟨at_, m⟩) <;> rw [ht] at h
    · simp at h
    · exact ih h
    all_goals
      obtain ⟨-, ⟨-, hr⟩ | ⟨-, hr⟩ | ⟨-, -, hr⟩⟩ := turn_ok ht
      · simp at hr
      · simp at hr
      simp only [Except.bind_ok, onTurn] at h
      rcases hm : t.node? (here ++ [name]) with _ | (m' | p' | i | d) <;> rw [hm] at hr <;>
        simp only [Turn.of, reduceCtorEq, Turn.link.injEq, Turn.leaf.injEq] at hr
    · split at h
      · obtain rfl := Except.ok.inj h
        exact hm
      · simp at h
    · obtain ⟨rfl, rfl⟩ := hr
      split at h
      · obtain rfl := Except.ok.inj h
        exact hm
      · exact hf _ _ _ h
    all_goals
      obtain ⟨rfl, rfl⟩ := hr
      split at h
      · obtain rfl := Except.ok.inj h
        exact hm
      · simp at h

lemma walkLinks_fits (k : Nat) {ss : List Name} {here : Location}
    (h : t.walkLinks follow k ss here = .ok r) : t.Fits r := by
  induction k generalizing ss here r with
  | zero => exact walkNames_fits (fun _ _ _ h => by simp at h) h
  | succ k ih => exact walkNames_fits (fun _ _ _ h => ih h) h

lemma walk_fits (h : t.walk follow p = .ok r) : t.Fits r := walkLinks_fits _ (walk_ok h).2

lemma lookup_node (h : t.lookup follow p = .ok (l, n)) : t.node? l = some n :=
  walk_fits (lookup_ok.mp h)

/-! ### A name after a path -/

/-- The names on a path lead where the path leads, whether or not a slash ends it. -/
lemma walkLinks_bare (h : t.lookup true p = .ok (l, n)) :
    t.walkLinks true maxLinks p.bare (origin t.cwd p) = .ok (.node l n) := by
  have hw := (walk_ok (lookup_ok.mp h)).2
  rw [Path.steps_eq] at hw
  split at hw
  · rw [walkLinks_snoc_dot] at hw
    rcases hb : t.walkLinks true maxLinks p.bare (origin t.cwd p) with e | (⟨l', n'⟩ | ⟨d, x⟩) <;>
      rw [hb] at hw
    · simp at hw
    · have hn : t.node? l' = some n' := walkLinks_fits _ hb
      simp only [Except.bind_ok, goOn, stay, hn] at hw
      rcases hs : t.searchable l' with e | _ <;> simp_all
    · simp [goOn] at hw
  · simpa using hw

lemma lookup_of_bare (hp : Usable p) (hs : t.searchable l = .ok ())
    (h : t.walkLinks true maxLinks p.bare (origin t.cwd p) = .ok (.node l n)) :
    t.lookup true p = .ok (l, n) := by
  rw [lookup_ok, walk_eq hp, Path.steps_eq]
  split
  · rw [walkLinks_snoc_dot, h]
    simp [goOn, stay, hs, show t.node? l = some n from walkLinks_fits _ h]
  · simpa using h

/-- A path that a slash ends leads to a directory that can be searched, and so does the path
without it. -/
lemma lookup_of_slash (hp : p ≠ []) (h : t.lookup true (p ++ [Path.slash]) = .ok (l, n)) :
    t.lookup true p = .ok (l, n) ∧ t.searchable l = .ok () := by
  obtain ⟨hu, hw⟩ := walk_ok (lookup_ok.mp h)
  have hbare := walkLinks_bare h
  have hs : t.searchable l = .ok () := by
    rw [Path.steps_eq, if_pos (by simp), walkLinks_snoc_dot, hbare] at hw
    simp only [Except.bind_ok, goOn] at hw
    rcases hs : t.searchable l with e | _
    · simp [stay_error hs] at hw
    · rfl
  have hpath : Usable p := ⟨hp, fun hz => hu.noZero (by simp [hz]),
    lt_of_le_of_lt (by simp) hu.short⟩
  refine ⟨lookup_of_bare hpath hs ?_, hs⟩
  have horigin : origin t.cwd (p ++ [Path.slash]) = origin t.cwd p := by
    obtain ⟨b, q, rfl⟩ := List.exists_cons_of_ne_nil hp
    rfl
  rwa [horigin, show (p ++ [Path.slash]).bare = p.bare from Path.bare_append_slashes p 1] at hbare

lemma walk_join (hx : Plain x) (h : t.lookup true q = .ok (l, n)) (hu : Usable (q.join x)) :
    t.walk false (q.join x) = t.last l x := by
  have hq := (walk_ok (lookup_ok.mp h)).1.notEmpty
  rw [walk_eq hu, Path.steps_join hq hx, origin_join hq hx, walkLinks_snoc (isEntry_of_plain hx),
    walkLinks_bare h]
  rfl

/-- A name can only be looked up after a path that leads to a directory. -/
lemma lookup_of_walk_join (hq : q ≠ []) (hx : Plain x) (h : t.walk follow (q.join x) = .ok r) :
    ∃ l n, t.lookup true q = .ok (l, n) ∧ t.searchable l = .ok () := by
  obtain ⟨hu, hw⟩ := walk_ok h
  rw [Path.steps_join hq hx, origin_join hq hx] at hw
  obtain ⟨l, n, hl, hs⟩ := walkLinks_init _ hw
  exact ⟨l, n, lookup_of_bare (hu.of_join hq hx) hs hl, hs⟩

lemma walk_join_ok (hq : q ≠ []) (hx : Plain x) (h : t.walk false (q.join x) = .ok r) :
    ∃ l n, t.lookup true q = .ok (l, n) ∧ t.last l x = .ok r := by
  obtain ⟨l, n, hl, -⟩ := lookup_of_walk_join hq hx h
  exact ⟨l, n, hl, by rw [← walk_join hx hl (walk_ok h).1, h]⟩

lemma short_of_walk_join {r : Found} (hq : q ≠ []) (hx : Plain x)
    (h : t.walk false (q.join x) = .ok r) : x.length ≤ maxName := by
  obtain ⟨dir, n, -, hlast⟩ := walk_join_ok hq hx h
  exact (last_ok hlast).2.1

lemma missing_at (hq : q ≠ []) (hx : Plain x) {dir : Location} {y : Name}
    (h : t.walk false (q.join x) = .ok (.missing dir y)) :
    y = x ∧ t.node? (dir ++ [x]) = none ∧ t.searchable dir = .ok () ∧
      ∃ n, t.lookup true q = .ok (dir, n) := by
  obtain ⟨l, n, hl, hr⟩ := walk_join_ok hq hx h
  obtain ⟨hs, -, ⟨he, hn⟩ | ⟨m, he, -⟩⟩ := last_ok hr
  · obtain ⟨rfl, rfl⟩ := Found.missing.inj he
    exact ⟨rfl, hn, hs, n, hl⟩
  · simp at he

lemma node_at (hq : q ≠ []) (hx : Plain x) (h : t.lookup false (q.join x) = .ok (l, n)) :
    ∃ dir n', l = dir ++ [x] ∧ t.lookup true q = .ok (dir, n') := by
  obtain ⟨dir, n', hl, hr⟩ := walk_join_ok hq hx (lookup_ok.mp h)
  obtain ⟨-, -, ⟨he, -⟩ | ⟨m, he, -⟩⟩ := last_ok hr
  · simp at he
  · obtain ⟨rfl, rfl⟩ := Found.node.inj he
    exact ⟨dir, n', rfl, hl⟩

/-- The reasons for which a name after a path that leads somewhere is not even looked up do not
include that something on the way is missing. -/
lemma walk_join_error (hx : Plain x) (h : t.lookup true q = .ok (l, n))
    {e : FileError} (he : t.walk false (q.join x) = .error e) : e ≠ .notFound := by
  rintro rfl
  have hu : Usable (q.join x) := by
    unfold walk at he
    split at he
    · simp at he
    · split at he
      · have := Path.isEmpty_join (p := q) hx
        simp_all
      · split at he
        · simp at he
        · rename_i h0 h1 h2
          exact ⟨by simpa using h1, by simpa using h0, by omega⟩
  rw [walk_join hx h hu] at he
  have hn := lookup_node h
  unfold last searchable at he
  rw [hn] at he
  rcases n with m | p | i | d <;> simp only at he
  · split at he
    · simp only [Except.ok_bind] at he
      split at he
      · simp at he
      · split at he <;> simp at he
    · simp at he
  all_goals simp at he

/-- A name cannot be looked up after a path that cannot be. -/
lemma walk_join_of_error {e : FileError} (hq : q ≠ []) (hx : Plain x) (hu : Usable (q.join x))
    (h : t.lookup true q = .error e) : t.walk false (q.join x) = .error e := by
  unfold FileTree.lookup at h
  rw [walk_eq (hu.of_join hq hx), Path.steps_eq] at h
  rw [walk_eq hu, Path.steps_join hq hx, origin_join hq hx, walkLinks_snoc (isEntry_of_plain hx)]
  split at h
  · rw [walkLinks_snoc_dot] at h
    rcases hb : t.walkLinks true maxLinks q.bare (origin t.cwd q) with e' | (⟨l, n⟩ | ⟨d, y⟩) <;>
      rw [hb] at h
    · cases h
      rfl
    · have hn : t.node? l = some n := walkLinks_fits _ hb
      rcases hs : t.searchable l with e' | _
      · simp only [Except.bind_ok, goOn, stay_error hs, last_error x hs] at h ⊢
        cases h
        rfl
      · simp [goOn, stay, hs, hn] at h
    · cases h
      rfl
  · rw [List.append_nil] at h
    rcases hb : t.walkLinks true maxLinks q.bare (origin t.cwd q) with e' | (⟨l, n⟩ | ⟨d, y⟩) <;>
      rw [hb] at h
    · cases h
      rfl
    · cases h
    · cases h
      rfl

/-! ### Paths in two trees -/

lemma lookup_extends (hu : t.Extends u) (hc : u.cwd = t.cwd) (h : t.lookup follow p = .ok (l, n)) :
    u.lookup follow p = .ok (l, n) := by
  obtain ⟨hp, hw⟩ := walk_ok (lookup_ok.mp h)
  rw [lookup_ok, walk_eq hp, hc]
  exact walkLinks_extends hu _ hw

lemma lookup_agrees (hu : t.Agrees u) (hc : u.cwd = t.cwd) (h : t.lookup follow p = .ok (l, n))
    (h' : u.lookup follow p = .ok (l', n')) : l = l' := by
  have hw := (walk_ok (lookup_ok.mp h)).2
  have hw' := (walk_ok (lookup_ok.mp h')).2
  rw [hc] at hw'
  exact walkLinks_agrees hu _ hw hw'

/-- What was missing at the end of a path is what the path leads to once it is added. -/
lemma lookup_added (hu : t.Extends u) (hc : u.cwd = t.cwd) {dir : Location} {x : Name}
    (hn : u.node? (dir ++ [x]) = some n) (hl : ∀ p, n ≠ .link p)
    (h : t.walk follow p = .ok (.missing dir x)) : u.lookup follow p = .ok (dir ++ [x], n) := by
  obtain ⟨hp, hw⟩ := walk_ok h
  rw [lookup_ok, walk_eq hp, hc]
  exact walkLinks_added hu hn hl _ hw

lemma extends_put {at_ : Location} (h : t.node? at_ = none) : t.Extends (t.put at_ n) := by
  refine ⟨rfl, fun loc m hm => ?_⟩
  rw [node?_put, if_neg (by rintro rfl; simp [h] at hm)]
  exact hm

lemma extends_putFile {at_ : Location} (h : t.node? at_ = none) (mode : Mode) :
    t.Extends (t.putFile at_ mode).2 := ⟨rfl, (extends_put h).node⟩

lemma erase_extends (t : FileTree) (at_ : Location) : (t.erase at_).Extends t := by
  refine ⟨rfl, fun loc n hn => ?_⟩
  rw [node?_erase] at hn
  split at hn
  · cases hn
  · exact hn

lemma extends_erase (h : t.node? at_ = none) : t.Extends (t.erase at_) := by
  refine ⟨rfl, fun loc n hn => ?_⟩
  rw [node?_erase, if_neg]
  · exact hn
  · rintro rfl
    rw [h] at hn
    cases hn

/-- What is put where something was missing. -/
lemma lookup_put {dir : Location} {x : Name} (hn : t.node? (dir ++ [x]) = none)
    (hl : ∀ p, n ≠ .link p) (h : t.walk follow p = .ok (.missing dir x)) :
    (t.put (dir ++ [x]) n).lookup follow p = .ok (dir ++ [x], n) := by
  have hcwd : (t.put (dir ++ [x]) n).cwd = t.cwd := rfl
  refine lookup_added (extends_put hn) hcwd ?_ hl h
  rw [node?_put, if_pos rfl]

lemma lookup_follow (hl : ∀ p, n ≠ .link p) (h : t.lookup false p = .ok (l, n)) :
    t.lookup true p = .ok (l, n) := by
  obtain ⟨hp, hw⟩ := walk_ok (lookup_ok.mp h)
  rw [lookup_ok, walk_eq hp]
  exact walkLinks_follow _ hl hw

lemma walk_unfollowed (h : t.lookup true p = .ok (l, n)) :
    ∃ l' n', t.walk false p = .ok (.node l' n') := by
  obtain ⟨hp, hw⟩ := walk_ok (lookup_ok.mp h)
  rw [walk_eq hp]
  exact walkLinks_unfollowed _ hw

end FileTree

end PinnedBuild.Files
