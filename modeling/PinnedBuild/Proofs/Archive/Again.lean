import Mathlib
import PinnedBuild.Proofs.Archive.Placing

/-!
Extracting an archive once more into what it was extracted into.

The second time every member meets what the first time has left, of it or of a later one. What is
there the second time is told by what was there the first time after as many members, and by what
was there in the end.
-/

namespace PinnedBuild.Archive

open Files FileTree

variable {dest archive : Path} {root loc at_ dir : Location} {base k : Mode} {names : List Name}
  {x : Name} {t₀ f t u s v : FileTree} {o : Object} {m : Member} {P : Mode → Prop}

/-! ### What lies below -/

/-- The place lies below the other one. -/
def Inside (root loc : Location) : Prop := root <+: loc ∧ loc ≠ root

lemma inside_concat (h : root <+: dir) (x : Name) : Inside root (dir ++ [x]) := by
  refine ⟨h.trans (List.prefix_append _ _), ?_⟩
  rintro rfl
  have := h.length_le
  simp at this

/-- A tree in which nothing differs from another but what is below a place, where only files stand
that are not in the other. -/
structure Beneath (root : Location) (t₀ t : FileTree) : Prop where
  outside loc : ¬ Inside root loc → t.node? loc = t₀.node? loc
  cwd : t.cwd = t₀.cwd
  user : t.user = t₀.user
  sound : t.Sound
  grown : t₀.files.length ≤ t.files.length
  fresh loc id : Inside root loc → t.node? loc = some (.file id) → t₀.files.length ≤ id

namespace Beneath

lemma refl (hv : Vacant dest root base t₀) : Beneath root t₀ t₀ where
  outside _ _ := rfl
  cwd := rfl
  user := rfl
  sound := hv.sound
  grown := Nat.le_refl _
  fresh loc id hl hn := by
    obtain ⟨ns, rfl⟩ := hl.1
    rw [hv.empty ns (by rintro rfl; exact hl.2 (by simp))] at hn
    cases hn

variable (h : Beneath root t₀ t)

include h

lemma extends_ (hv : Vacant dest root base t₀) : t₀.Extends t := by
  refine ⟨h.user, fun loc n hn => ?_⟩
  by_cases hl : Inside root loc
  · obtain ⟨ns, rfl⟩ := hl.1
    rw [hv.empty ns (by rintro rfl; exact hl.2 (by simp))] at hn
    cases hn
  · exact (h.outside loc hl).trans hn

lemma leads (hv : Vacant dest root base t₀) : t.lookup true dest = .ok (root, .directory base) :=
  lookup_extends (h.extends_ hv) h.cwd hv.leads

lemma planted (hp : Planted at_ o t u) (hin : Inside root at_) : Beneath root t₀ u where
  outside loc hl := (hp.node loc fun he => hl (he ▸ hin)).trans (h.outside loc hl)
  cwd := hp.cwd.trans h.cwd
  user := hp.user.trans h.user
  sound := hp.sound h.sound
  grown := le_trans h.grown hp.grown
  fresh loc id hl hn := by
    by_cases he : loc = at_
    · subst he
      exact le_trans h.grown (hp.fresh id hn)
    · exact h.fresh loc id hl ((hp.node loc he).symm.trans hn)

lemma leaves (hl : Leaves at_ m t u) (hin : Inside root at_) : Beneath root t₀ u := by
  rcases hl with ⟨-, hp⟩ | ⟨-, -, -, rfl⟩ | ⟨-, -, -, hp⟩
  · exact h.planted hp hin
  · exact h
  · exact h.planted hp hin

lemma append (id : Nat) (b : Bytes) : Beneath root t₀ (t.append id b) where
  outside := h.outside
  cwd := h.cwd
  user := h.user
  sound := h.sound.modifyFile id _
  grown := by simpa [FileTree.append, FileTree.modifyFile] using h.grown
  fresh := h.fresh

/-- Directories are made on the way to a place below. -/
lemma raised (hv : Vacant dest root base t₀) (hr : Raised dest names t u)
    (hk : ∀ loc, ¬ root <+: loc → u.node? loc = t.node? loc) : Beneath root t₀ u where
  outside loc hl := by
    by_cases hin : root <+: loc
    · obtain rfl : loc = root := by_contra fun hne => hl ⟨hin, hne⟩
      have hroot := lookup_node (h.leads hv)
      rcases hr.made loc with hsame | ⟨hnone, -⟩
      · exact hsame.trans (h.outside loc hl)
      · rw [hroot] at hnone
        cases hnone
    · exact (hk loc hin).trans (h.outside loc hl)
  cwd := hr.cwd.trans h.cwd
  user := hr.user.trans h.user
  sound loc id hn := by
    rw [hr.files]
    rcases hr.made loc with hsame | ⟨-, ⟨k, hk'⟩, -⟩
    · exact h.sound loc id (hsame.symm.trans hn)
    · rw [hk'] at hn
      cases hn
  grown := by
    rw [hr.files]
    exact h.grown
  fresh loc id hl hn := by
    rcases hr.made loc with hsame | ⟨-, ⟨k, hk'⟩, -⟩
    · exact h.fresh loc id hl (hsame.symm.trans hn)
    · rw [hk'] at hn
      cases hn

/-- A file that was there at first stands nowhere below. -/
lemma object?_append {id : Nat} (hid : id < t₀.files.length) (b : Bytes) (hl : Inside root loc) :
    (t.append id b).object? loc = t.object? loc := by
  refine object?_modifyFile_of_ne (fun hn => ?_) _
  have := h.fresh loc id hl hn
  omega

end Beneath

/-! ### From one member to the end -/

/-- Some directory below has got permissions that do not let the user search it and write to it. -/
def Hinders (root : Location) (P : Mode → Prop) (f : FileTree) : Prop :=
  ∃ loc k, Inside root loc ∧ f.node? loc = some (.directory k) ∧ P k ∧
    ¬ (f.user.mayWrite k = true ∧ f.user.maySearch k = true)

/-- What stands somewhere goes on standing there, but that a file or a link may be replaced by
another, and that a directory may get permissions of some kind. -/
structure Evolves (P : Mode → Prop) (t u : FileTree) : Prop where
  directory loc k : t.node? loc = some (.directory k) →
    ∃ k', u.node? loc = some (.directory k') ∧ (k' = k ∨ P k')
  other loc n : t.node? loc = some n → (∀ k, n ≠ .directory k) →
    ∃ n', u.node? loc = some n' ∧ ∀ k, n' ≠ .directory k

lemma Evolves.refl (P : Mode → Prop) (t : FileTree) : Evolves P t t :=
  ⟨fun _ k h => ⟨k, h, .inl rfl⟩, fun _ n h hn => ⟨n, h, hn⟩⟩

lemma Evolves.trans (h : Evolves P s t) (h' : Evolves P t u) : Evolves P s u where
  directory loc k hk := by
    obtain ⟨k₁, hk₁, hor⟩ := h.directory loc k hk
    obtain ⟨k₂, hk₂, hor'⟩ := h'.directory loc k₁ hk₁
    refine ⟨k₂, hk₂, ?_⟩
    rcases hor' with rfl | hP
    · exact hor
    · exact .inr hP
  other loc n hn hd := by
    obtain ⟨n₁, hn₁, hd₁⟩ := h.other loc n hn hd
    exact h'.other loc n₁ hn₁ hd₁

lemma Evolves.of_extends (h : t.Extends u) : Evolves P t u :=
  ⟨fun loc k hk => ⟨k, h.node loc _ hk, .inl rfl⟩, fun loc n hn hd => ⟨n, h.node loc n hn, hd⟩⟩

lemma Member.object?_directory (h : m.object? = some (.directory k)) :
    m.kind = .directory ∧ m.mode = some k := by
  unfold Member.object? at h
  split at h
  · cases h
  · rename_i hk
    exact ⟨hk, by simpa using h⟩
  · simp at h
  · cases h

lemma Member.object?_eq_none (hk : m.kind = .directory) (hm : m.mode = none) :
    m.object? = none := by
  simp [object?, hk, hm]

lemma evolves_leaves (h : Leaves at_ m t u)
    (hP : ∀ k, m.kind = .directory → m.mode = some k → P k) :
    Evolves P t u := by
  rcases h with @⟨o, ho, hp⟩ | ⟨-, -, -, rfl⟩ | ⟨-, -, hnone, hp⟩
  · obtain ⟨n', hn', hseen⟩ := seen_of_object? hp.here
    refine ⟨fun loc k hk => ?_, fun loc n hn hd => ?_⟩
    · by_cases hl : loc = at_
      · subst hl
        obtain ⟨k', rfl⟩ := (hp.turns _ hk).mp ⟨k, rfl⟩
        obtain ⟨hkind, hmode⟩ := m.object?_directory ho
        exact ⟨k', node?_of_object?_directory hp.here, .inr (hP k' hkind hmode)⟩
      · exact ⟨k, (hp.node loc hl).trans hk, .inl rfl⟩
    · by_cases hl : loc = at_
      · subst hl
        refine ⟨n', hn', fun k hk => ?_⟩
        obtain ⟨k', hk'⟩ := (hp.turns n hn).mpr (hseen.directory_iff.mp ⟨k, hk⟩)
        exact hd k' hk'
      · exact ⟨n, (hp.node loc hl).trans hn, hd⟩
  · exact .refl P _
  · refine .of_extends ⟨hp.user, fun loc n hn => ?_⟩
    by_cases hl : loc = at_
    · subst hl
      rw [hnone] at hn
      cases hn
    · exact (hp.node loc hl).trans hn

/-- A member leaves something of its own kind, where nothing of another kind was. -/
lemma Leaves.of_directory (h : Leaves at_ m t u) (hk : m.kind = .directory) :
    (∃ k, u.node? at_ = some (.directory k)) ∧
      ∀ n, t.node? at_ = some n → ∃ k, n = .directory k := by
  rcases h with @⟨o, ho, hp⟩ | ⟨-, -, hdir, rfl⟩ | ⟨-, -, hnone, hp⟩
  · have hmode : ∃ k, o = .directory k := by
      unfold Member.object? at ho
      rw [hk] at ho
      obtain ⟨k, -, rfl⟩ := Option.map_eq_some_iff.mp ho
      exact ⟨k, rfl⟩
    refine ⟨?_, fun n hn => (hp.turns n hn).mpr hmode⟩
    obtain ⟨k, rfl⟩ := hmode
    exact ⟨k, node?_of_object?_directory hp.here⟩
  · obtain ⟨k, hk'⟩ := hdir hk
    exact ⟨⟨k, hk'⟩, fun n hn => ⟨k, Option.some.inj (hn.symm.trans hk')⟩⟩
  · exact ⟨⟨_, node?_of_object?_directory hp.here⟩, by simp [hnone]⟩

lemma Leaves.of_other (h : Leaves at_ m t u) (hk : m.kind = .file ∨ m.kind = .symbolicLink) :
    (∃ n, u.node? at_ = some n ∧ ∀ k, n ≠ .directory k) ∧
      ∀ k, t.node? at_ ≠ some (.directory k) := by
  rcases h with @⟨o, ho, hp⟩ | ⟨ho, hlink, -, -⟩ | ⟨hdir, -, -, -⟩
  · have hother : ¬ ∃ k, o = .directory k := by
      rintro ⟨k, rfl⟩
      have hdir := (m.object?_directory ho).1
      rcases hk with hk | hk <;> cases hk.symm.trans hdir
    obtain ⟨n, hn, hseen⟩ := seen_of_object? hp.here
    refine ⟨⟨n, hn, fun k hk' => hother (hseen.directory_iff.mp ⟨k, hk'⟩)⟩, fun k hk' => ?_⟩
    exact hother ((hp.turns _ hk').mp ⟨k, rfl⟩)
  · have hfile := hk.resolve_right hlink
    simp [Member.object?, hfile] at ho
  · rcases hk with hk | hk <;> cases hk.symm.trans hdir

/-! ### The second time -/

/-- What stands somewhere the second time, by what is there in the end and what has been there after
as many members the first time. -/
inductive Stands (f : Option Object) : Option Object → Option Object → Prop
  /-- What comes later is there already. -/
  | early : Stands f none f
  | same (o : Object) : Stands f (some o) (some o)
  | directory {k k' : Mode} : f = some (.directory k') →
      Stands f (some (.directory k)) (some (.directory k'))

/-- The first time so many members lead to `t`, and all of them to `f`. The second time so many lead
from `f` to `s`. -/
structure Retraces (root : Location) (t₀ f t s : FileTree) : Prop where
  first : Beneath root t₀ t
  second : Beneath root t₀ s
  stands loc : Inside root loc → Stands (f.object? loc) (t.object? loc) (s.object? loc)

lemma Stands.eq {f s : Option Object} (h : Stands f f s) : s = f := by
  cases h with
  | early => rfl
  | same o => rfl
  | directory hk => exact hk.symm

namespace Retraces

variable (h : Retraces root t₀ f t s)

include h

lemma echoed : t.EchoedBy s where
  user := h.second.user.trans h.first.user.symm
  cwd := h.second.cwd.trans h.first.cwd.symm
  nodes loc n hn := by
    by_cases hl : Inside root loc
    · obtain ⟨o, ho, hseen⟩ := seen_of_node? h.first.sound hn
      have hstands := h.stands loc hl
      rw [ho] at hstands
      generalize hs : s.object? loc = o' at hstands
      cases hstands with
      | same o =>
        obtain ⟨n', hn', hseen'⟩ := seen_of_object? hs
        exact ⟨n', hn', hseen.resembles hseen'⟩
      | @directory k k' _ =>
        cases hseen
        exact ⟨_, node?_of_object?_directory hs, .directory k k'⟩
    · exact ⟨n, (h.second.outside loc hl).trans ((h.first.outside loc hl).symm.trans hn), .refl n⟩

/-- Only what comes later lets the user do less in a directory. -/
lemma denied (huser : f.user = t₀.user) (hf : Evolves P t f) (ht : t.Tightened s) :
    Hinders root P f := by
  obtain ⟨loc, k, k', hk, hk', hless⟩ := ht
  rw [h.second.user, h.first.user] at hless
  have hne : k ≠ k' := by
    rintro rfl
    rcases hless with ⟨h1, h2⟩ | ⟨h1, h2⟩ <;> rw [h1] at h2 <;> cases h2
  by_cases hl : Inside root loc
  · have hstands := h.stands loc hl
    rw [object?_of_node?_directory hk, object?_of_node?_directory hk'] at hstands
    generalize hg : f.object? loc = g at hstands
    cases hstands with
    | same o => exact absurd rfl hne
    | directory hg' =>
      obtain ⟨k₁, hk₁, hor⟩ := hf.directory loc k hk
      have heq : k₁ = k' := by
        rw [object?_of_node?_directory hk₁, hg'] at hg
        exact Object.directory.inj (Option.some.inj hg)
      subst heq
      rcases hor with rfl | hP
      · exact absurd rfl hne
      · refine ⟨loc, k₁, hl, hk₁, hP, fun hall => ?_⟩
        rw [huser] at hall
        rcases hless with ⟨-, h2⟩ | ⟨-, h2⟩
        · rw [hall.2] at h2
          cases h2
        · rw [hall.1] at h2
          cases h2
  · rw [h.first.outside loc hl] at hk
    rw [h.second.outside loc hl] at hk'
    exact absurd (Node.directory.inj (Option.some.inj (hk.symm.trans hk'))) hne

/-- What is met the second time is of the kind of what is put there. -/
lemma suits (hat : Inside root at_) (hl : Leaves at_ m t u) (hf : Evolves P u f) :
    Suits m at_ s := by
  have hstands := h.stands at_ hat
  refine ⟨fun hk => ?_, fun hk g hg => ?_⟩
  · obtain ⟨⟨k, hu⟩, ht⟩ := hl.of_directory hk
    obtain ⟨k', hf', -⟩ := hf.directory at_ k hu
    rcases hn : t.node? at_ with _ | n
    · rw [object?_of_node?_none hn, object?_of_node?_directory hf'] at hstands
      generalize hs : s.object? at_ = o at hstands
      cases hstands
      exact ⟨k', node?_of_object?_directory hs⟩
    · obtain ⟨g, rfl⟩ := ht n hn
      exact h.echoed.directory hn
  · obtain ⟨⟨n, hu, hn⟩, ht⟩ := hl.of_other hk
    obtain ⟨n', hf', hn'⟩ := hf.other at_ n hu hn
    rw [object?_of_node?_directory hg] at hstands
    generalize ht' : t.object? at_ = o at hstands
    generalize hf'' : f.object? at_ = o' at hstands
    cases hstands with
    | early => exact hn' g (Option.some.inj (hf'.symm.trans (node?_of_object?_directory hf'')))
    | same => exact ht g (node?_of_object?_directory ht')
    | directory => exact ht _ (node?_of_object?_directory ht')

lemma append_first {id : Nat} (hid : id < t₀.files.length) (b : Bytes) :
    Retraces root t₀ f (t.append id b) s where
  first := h.first.append id b
  second := h.second
  stands loc hl := by
    rw [h.first.object?_append hid b hl]
    exact h.stands loc hl

lemma append_second {id : Nat} (hid : id < t₀.files.length) (b : Bytes) :
    Retraces root t₀ f t (s.append id b) where
  first := h.first
  second := h.second.append id b
  stands loc hl := by
    rw [h.second.object?_append hid b hl]
    exact h.stands loc hl

/-- The directories on the way to a place are there already the second time. -/
lemma raised (hb : Beneath root t₀ u) {names : List Name} (hr : Raised dest names t u)
    (hf : Evolves P u f) : Retraces root t₀ f u s where
  first := hb
  second := h.second
  stands loc hl := by
    have hstands := h.stands loc hl
    rcases hr.made loc with hsame | ⟨hnone, ⟨k, hk⟩, -⟩
    · rwa [object?_congr hsame fun id _ => congrArg (·[id]?) hr.files]
    · obtain ⟨k', hk', -⟩ := hf.directory loc k hk
      rw [object?_of_node?_none hnone, object?_of_node?_directory hk'] at hstands
      rw [object?_of_node?_directory hk, object?_of_node?_directory hk']
      generalize s.object? loc = o at hstands
      cases hstands
      exact .directory rfl

/-- The same is left both times. -/
lemma leaves (hat : Inside root at_) (hl : Leaves at_ m t u) (hl' : Leaves at_ m s v)
    (hf : Evolves P u f) : Retraces root t₀ f u v := by
  have hsuits := h.suits hat hl hf
  have hold : m.kind = .directory → s.node? at_ ≠ none := by
    intro hk hnone
    obtain ⟨k, hk'⟩ := hsuits.1 hk
    rw [hnone] at hk'
    cases hk'
  rcases hl with @⟨o, ho, hp⟩ | ⟨hno, -, -, rfl⟩ | @⟨k, hk, hm, hnone, hp⟩
  · rcases hl' with @⟨o', ho', hp'⟩ | ⟨hno, -, -, -⟩ | ⟨hk, hm, -, -⟩
    · obtain rfl : o = o' := Option.some.inj (ho.symm.trans ho')
      refine ⟨h.first.planted hp hat, h.second.planted hp' hat, fun loc hin => ?_⟩
      by_cases he : loc = at_
      · subst he
        rw [hp.here, hp'.here]
        exact .same o
      · rw [hp.object?_of_ne h.first.sound he, hp'.object?_of_ne h.second.sound he]
        exact h.stands loc hin
    · rw [hno] at ho
      cases ho
    · rw [Member.object?_eq_none hk hm] at ho
      cases ho
  · rcases hl' with ⟨ho', -⟩ | ⟨-, -, -, rfl⟩ | ⟨hk, -, hnone, -⟩
    · rw [hno] at ho'
      cases ho'
    · exact h
    · exact absurd hnone (hold hk)
  · rcases hl' with ⟨ho', -⟩ | ⟨-, -, -, rfl⟩ | ⟨-, -, hnone', -⟩
    · rw [Member.object?_eq_none hk hm] at ho'
      cases ho'
    · refine ⟨h.first.planted hp hat, h.second, fun loc hin => ?_⟩
      have hstands := h.stands loc hin
      by_cases he : loc = at_
      · subst he
        obtain ⟨k', hk', -⟩ := hf.directory loc k (node?_of_object?_directory hp.here)
        rw [object?_of_node?_none hnone, object?_of_node?_directory hk'] at hstands
        rw [hp.here, object?_of_node?_directory hk']
        generalize v.object? loc = o at hstands
        cases hstands
        exact .directory rfl
      · rwa [hp.object?_of_ne h.first.sound he]
    · exact absurd hnone' (hold hk)

end Retraces

namespace Unpacking

variable {front : List Name} {n k : Node}

section

variable (hv : Vacant dest root base t₀) (h : Retraces root t₀ f t s)

include hv h

lemma insideOf_again {q : Path} (hl : t.lookup true q = .ok (dir, n)) (hin : root <+: dir) :
    After (insideOf dest q) s (fun _ v => v = s ∧ ∃ k, s.lookup true q = .ok (dir, k))
      (Refuses t s) := by
  rcases lookup_echo h.echoed hl with ⟨k, hk, -⟩ | ⟨hdenied, htight⟩
  · unfold After
    rw [run_insideOf hk (h.second.leads hv) hin]
    exact ⟨rfl, k, hk⟩
  · unfold After
    rw [run_insideOf_denied dest hdenied]
    exact ⟨rfl, htight⟩

/-- The directories on the way are there already, or it cannot be seen that they are. -/
lemma makeAncestors_again (hd : dest ≠ []) (done rest : List Name)
    (hn : ∀ x ∈ done ++ rest, Plain x)
    (hl : t.lookup true (below dest (done ++ rest)) = .ok (dir, n)) :
    After (makeAncestors dest done rest) s (fun _ v => v = s) (Refuses t s) := by
  induction rest generalizing done with
  | nil => exact after_pure rfl
  | cons name rest ih =>
    have hdone : ∀ x ∈ done, Plain x := fun x hx => hn x (by simp [hx])
    have hname : Plain name := hn name (by simp)
    have hq := below_ne_nil hd hdone
    rw [List.append_cons] at hn hl
    refine after_bind (after_present ?_)
    split
    · exact ih _ hn hl
    · rename_i hp
      rw [below_append] at hp ⊢
      obtain ⟨l, k, hthere⟩ := lookup_of_below_append hd hn hl
      rw [below_append] at hthere
      obtain ⟨l', k', hw⟩ := walk_unfollowed hthere
      obtain ⟨above, k'', habove, hsearch⟩ := lookup_of_walk_join hq hname hw
      have husable := (walk_ok hw).1
      have hshort := short_of_walk_join hq hname hw
      rcases lookup_echo h.echoed (lookup_ok.mpr hw) with ⟨n', hn', -⟩ | ⟨hdenied, htight⟩
      · rw [hn'] at hp
        exact absurd rfl hp
      rcases lookup_echo h.echoed habove with ⟨n', hn', -⟩ | ⟨hdenied', -⟩
      swap
      · refine after_bind ?_
        unfold After
        rw [run_insideOf_denied dest hdenied']
        exact ⟨rfl, htight⟩
      -- The name is there, so that it must be the directory above that cannot be searched.
      have hwalk := walk_join hname hn' husable
      have hno : s.searchable above = .error .accessDenied := by
        rcases searchable_echo h.echoed hsearch with hyes | ⟨hno, -⟩
        · unfold FileTree.lookup at hdenied
          rw [hwalk] at hdenied
          rcases hm : s.node? (above ++ [name]) with _ | m
          · rw [last_missing hyes hshort hm] at hdenied
            cases hdenied
          · rw [last_node hyes hshort hm] at hdenied
            cases hdenied
        · exact hno
      have hin : Inside root above := by
        by_contra hout
        unfold searchable at hno hsearch
        rw [h.second.outside above hout, ← h.first.outside above hout, h.second.user,
          ← h.first.user, hsearch] at hno
        cases hno
      rw [last_error name hno] at hwalk
      have hne : (below dest done).join name ≠ [] :=
        List.isEmpty_eq_false_iff.mp (Path.isEmpty_join hname)
      have hmake := FileOp.run_makeDirectory_denied hq hname husable hwalk
      refine after_bind ?_
      unfold After
      rw [run_insideOf hn' (h.second.leads hv) hin.1]
      refine after_bind (after_act (FileOp.after_ensureDirectory hne (fun u hu => ?_)
        fun e he => ?_))
      · rw [hmake] at hu
        cases hu
      · rw [hmake] at he
        obtain rfl := Except.error.inj he
        refine ⟨by simp, fun hthere => ?_, rfl, htight⟩
        unfold isDirectory at hthere
        split at hthere
        · rename_i hfound
          obtain ⟨l₁, n₁, hfound'⟩ := walk_unfollowed hfound
          rw [hwalk] at hfound'
          cases hfound'
        · cases hthere

lemma ensureParent_again (hn : ∀ x ∈ front, Plain x)
    (hl : t.lookup true (below dest front) = .ok (dir, n)) :
    After (ensureParent dest front) s (fun _ v => v = s) (Refuses t s) := by
  obtain ⟨l, n', hw⟩ := walk_unfollowed (h.second.leads hv)
  have hthere : (s.lookup false dest).isOk = true := by
    rw [lookup_ok.mpr hw]
    rfl
  refine after_bind (after_present ?_)
  rw [if_pos hthere]
  refine after_bind (after_present ?_)
  split
  · exact after_pure rfl
  · exact makeAncestors_again hv h hv.dest_ne_nil [] front hn hl

end

/-! ### One member -/

/-- A member that is unpacked is unpacked once more, to the same end, or that is refused since some
directory has got permissions that let the user do less. -/
lemma after_member_again (hv : Vacant dest root base t₀) (h : Beneath root t₀ t)
    (hk : m.kind ≠ .hardLink) (hP : ∀ k, m.kind = .directory → m.mode = some k → P k) :
    After (member dest m) t
      (fun b u => Beneath root t₀ u ∧ Evolves P t u ∧
        ∀ f s, f.user = t₀.user → Evolves P u f → Retraces root t₀ f t s →
          After (member dest m) s (fun b' v => b' = b ∧ Retraces root t₀ f u v)
            (fun e _ => e = .file .accessDenied ∧ Hinders root P f))
      fun _ _ => True := by
  have hsame : ∀ b, (Beneath root t₀ t ∧ Evolves P t t ∧ ∀ f s, f.user = t₀.user →
      Evolves P t f → Retraces root t₀ f t s → After (pure b : Unpacking Bool) s
        (fun b' v => b' = b ∧ Retraces root t₀ f t v)
        (fun e _ => e = .file .accessDenied ∧ Hinders root P f)) := fun b =>
    ⟨h, .refl P t, fun f s _ _ hs => after_pure ⟨rfl, hs⟩⟩
  rcases member_cases dest m with ⟨-, heq⟩ | ⟨-, -, heq⟩ | ⟨front, x, -, -, hfront, hx, heq⟩ <;>
    rw [heq]
  · exact after_pure (hsame false)
  · exact after_pure (hsame true)
  have hd := hv.dest_ne_nil
  have hq := below_ne_nil hd hfront
  have hsettled : ∀ loc n, t.lookup true dest = .ok (loc, n) → loc = root := fun loc n hl =>
    (lookup_unique hl (h.leads hv)).1
  refine after_bind (((after_ensureParent hd hfront (Kept.refl h.sound hsettled)).and
    (raised_ensureParent hfront (.refl dest front t))).mono ?_ fun _ _ _ => trivial)
  rintro _ t₁ ⟨hkept, hraised⟩
  have h₁ := h.raised hv hraised hkept.outside
  refine after_bind ((after_insideOf dest (below dest front) t₁).mono ?_ fun _ _ _ => trivial)
  rintro _ _ ⟨rfl, dir, n, r, g, hdir, hr, hin⟩
  rw [(lookup_unique hr (h₁.leads hv)).1] at hin
  have hat := inside_concat hin x
  refine after_bind ((after_become_again hq hx hk dest hdir).mono ?_ fun _ _ _ => trivial)
  rintro _ u ⟨hleaves, hagain⟩
  have hevolves := evolves_leaves hleaves hP
  refine after_pure ⟨h₁.leaves hleaves hat, (Evolves.of_extends hraised.extends_).trans hevolves,
    fun f s huser hf hs => ?_⟩
  -- The second time nothing has to be made on the way.
  have hs₁ := hs.raised h₁ hraised (hevolves.trans hf)
  have hrefused : ∀ e (v : FileTree), Refuses _ s e v →
      e = .file .accessDenied ∧ Hinders root P f :=
    fun e v he => ⟨he.1, hs₁.denied huser (hevolves.trans hf) he.2⟩
  refine after_bind ((ensureParent_again hv hs₁ hfront hdir).mono ?_ hrefused)
  rintro _ _ rfl
  refine after_bind ((insideOf_again hv hs₁ hdir hin).mono ?_ hrefused)
  rintro _ _ ⟨rfl, k, hdir'⟩
  refine after_bind ((hagain _ k hs₁.echoed hdir' (hs₁.suits hat hleaves hf)).mono ?_ hrefused)
  exact fun _ v hv => after_pure ⟨rfl, hs₁.leaves hat hleaves hv hf⟩

end Unpacking

/-! ### Worlds -/

variable {w w' : World} {all ms : List Member} {feed : Feed}

/-- So far nothing is changed but what is below the place, and the log if that is an old file. -/
structure Begun (root : Location) (t₀ : FileTree) (w : World) : Prop where
  files : Beneath root t₀ w.files
  log id : w.sink = .file id → id < t₀.files.length

/-- Two worlds, the first time and the second. -/
structure Followed (root : Location) (t₀ f : FileTree) (w v : World) : Prop where
  files : Retraces root t₀ f w.files v.files
  log id : w.sink = .file id → id < t₀.files.length
  log' id : v.sink = .file id → id < t₀.files.length

/-- The members ask for these permissions of directories. -/
def Asked (all : List Member) (k : Mode) : Prop := ∃ d ∈ all, d.kind = .directory ∧ d.mode = some k

/-- Extraction is refused at some member. -/
def Stops (root : Location) (all : List Member) (f : FileTree) (e : ExtractError) (_ : World) :
    Prop :=
  (∃ m ∈ all, e = .cannotUnpack m (.file .accessDenied)) ∧ Hinders root (Asked all) f

lemma Begun.say (h : Begun root t₀ w) (line : LogLine) : Begun root t₀ (w.say line) where
  files := by
    rw [World.say_eq]
    exact World.files_logged _ h.files fun id b _ _ ht => ht.append id b
  log id hs := h.log id ((World.sink_say w line).symm.trans hs)

lemma evolves_say (P : Mode → Prop) (w : World) (line : LogLine) :
    Evolves P w.files (w.say line).files := by
  rw [World.say_eq]
  exact World.files_logged (P := fun t => Evolves P w.files t) _ (.refl P _)
    fun id b t _ ht => ht.trans (.of_extends ⟨rfl, fun _ _ hn => hn⟩)

lemma Followed.say {w v : World} (h : Followed root t₀ f w v) (line : LogLine) :
    Followed root t₀ f (w.say line) (v.say line) where
  files := by
    rw [World.say_eq, World.say_eq]
    refine World.files_logged (P := fun s => Retraces root t₀ f _ s) _ ?_
      fun id b _ hs ht => ht.append_second (h.log' id hs) b
    exact World.files_logged (P := fun t => Retraces root t₀ f t v.files) _ h.files
      fun id b _ hs ht => ht.append_first (h.log id hs) b
  log id hs := h.log id ((World.sink_say w line).symm.trans hs)
  log' id hs := h.log' id ((World.sink_say v line).symm.trans hs)

lemma after_extractMember_again (hv : Vacant dest root base t₀) (h : Begun root t₀ w)
    (hm : m ∈ all) (hk : m.kind ≠ .hardLink) (names : List Name) :
    After (extractMember dest names m) w
      (fun names' w' => Begun root t₀ w' ∧ Evolves (Asked all) w.files w'.files ∧
        ∀ f v, f.user = t₀.user → Evolves (Asked all) w'.files f → Followed root t₀ f w v →
          After (extractMember dest names m) v
            (fun names'' v' => names'' = names' ∧ Followed root t₀ f w' v') (Stops root all f))
      fun _ _ => True := by
  have hP : ∀ k, m.kind = .directory → m.mode = some k → Asked all k := fun k hd hmode =>
    ⟨m, hm, hd, hmode⟩
  unfold extractMember
  split
  · exact after_pure ⟨h, .refl _ _, fun f v _ _ hf => after_pure ⟨rfl, hf⟩⟩
  refine after_bind (Act.after_onFiles ((Unpacking.after_member_again hv h.files hk hP).mono ?_
    fun _ _ _ => trivial))
  rintro unpacked t ⟨ht, hevolves, hagain⟩
  have hbegun : Begun root t₀ { w with files := t } := ⟨ht, h.log⟩
  have hagain' : ∀ f v, f.user = t₀.user → Evolves (Asked all) t f → Followed root t₀ f w v →
      After (Act.onFiles (ExtractError.cannotUnpack m) (Unpacking.member dest m)) v
        (fun unpacked' v' => unpacked' = unpacked ∧ Followed root t₀ f { w with files := t } v')
        (Stops root all f) := by
    intro f v huser hf hfollowed
    refine Act.after_onFiles ((hagain f v.files huser hf hfollowed.files).mono ?_ ?_)
    · exact fun _ s hs => ⟨hs.1, hs.2, hfollowed.log, hfollowed.log'⟩
    · rintro _ s ⟨rfl, hhinders⟩
      exact ⟨⟨m, hm, rfl⟩, hhinders⟩
  split
  · refine after_pure ⟨hbegun, hevolves, fun f v huser hf hfollowed => ?_⟩
    refine after_bind ((hagain' f v huser hf hfollowed).mono ?_ fun _ _ he => he)
    rintro _ v' ⟨rfl, hv'⟩
    rw [if_pos (by assumption)]
    exact after_pure ⟨rfl, hv'⟩
  · have htold := evolves_say (Asked all) { w with files := t }
      ⟨.warn, .extract, "skipped archive entry outside destination: " ++ m.path.display⟩
    refine after_bind (after_modify (after_pure ⟨hbegun.say _, hevolves.trans htold,
      fun f v huser hf hfollowed => ?_⟩))
    refine after_bind ((hagain' f v huser (htold.trans hf) hfollowed).mono ?_ fun _ _ he => he)
    rintro _ v' ⟨rfl, hv'⟩
    rw [if_neg (by assumption)]
    exact after_bind (after_modify (after_pure ⟨rfl, hv'.say _⟩))

/-- The members are unpacked one after the other, and then once more. -/
lemma after_extractMembers_again (hv : Vacant dest root base t₀) (h : Begun root t₀ w)
    (hm : ∀ m ∈ ms, m ∈ all ∧ m.kind ≠ .hardLink) (names : List Name) :
    After (ms.foldlM (extractMember dest) names) w
      (fun names' w' => Begun root t₀ w' ∧ Evolves (Asked all) w.files w'.files ∧
        ∀ f v, f.user = t₀.user → Evolves (Asked all) w'.files f → Followed root t₀ f w v →
          After (ms.foldlM (extractMember dest) names) v
            (fun names'' v' => names'' = names' ∧ Followed root t₀ f w' v') (Stops root all f))
      fun _ _ => True := by
  induction ms generalizing names w with
  | nil => exact after_pure ⟨h, .refl _ _, fun f v _ _ hf => after_pure ⟨rfl, hf⟩⟩
  | cons m ms ih =>
    rw [List.foldlM_cons]
    obtain ⟨hmem, hk⟩ := hm m (by simp)
    refine after_bind ((after_extractMember_again hv h hmem hk names).mono ?_ fun _ _ _ => trivial)
    rintro names₁ w₁ ⟨h₁, hevolves, hfirst⟩
    refine (ih h₁ (fun m' hm' => hm m' (by simp [hm'])) names₁).mono ?_ fun _ _ _ => trivial
    rintro names₂ w₂ ⟨h₂, hevolves', hrest⟩
    refine ⟨h₂, hevolves.trans hevolves', fun f v huser hf hfollowed => ?_⟩
    refine after_bind ((hfirst f v huser (hevolves'.trans hf) hfollowed).mono ?_ fun _ _ he => he)
    rintro _ v₁ ⟨rfl, hv₁⟩
    exact hrest f v₁ huser hf hv₁

/-! ### Extraction -/

/-- When an archive has been extracted it can be read as before, and its members can be unpacked
once more. -/
lemma extract_followed {v : World} (hv : Vacant dest root base w.files)
    (hlog : ∀ id, w.sink = .file id → id < w.files.files.length ∧
      ∀ place, w.files.lookup true archive ≠ .ok (place, .file id))
    (hfeed : (feedOf archive).run w.files = .ok (feed, w.files))
    (hlinks : ∀ m ∈ (members feed).1, m.kind ≠ .hardLink)
    (hrun : (extract archive dest).run w = (.ok names, v)) :
    (extract archive dest).run v =
        ((members feed).1.foldlM (extractMember dest) []).run v ∧
      After ((members feed).1.foldlM (extractMember dest) []) v
        (fun names' v' => names' = names ∧ Followed root w.files v.files v v')
        (Stops root (members feed).1 v.files) := by
  obtain ⟨feed', ms, hfeed', hms, hfold⟩ := extract_ok hrun
  obtain ⟨rfl, -⟩ := Prod.mk.inj (Except.ok.inj (hfeed.symm.trans hfeed'))
  rw [hms] at hlinks ⊢
  have hbegun : Begun root w.files w := ⟨.refl hv, fun id hs => (hlog id hs).1⟩
  have hall : ∀ m ∈ ms, m ∈ ms ∧ m.kind ≠ .hardLink := fun m hm => ⟨hm, hlinks m hm⟩
  have hafter := after_extractMembers_again hv hbegun hall []
  unfold After at hafter
  rw [hfold] at hafter
  obtain ⟨hv', -, hagain⟩ := hafter
  have hunpacked : Unpacked dest root w v := by
    have h := unpacked_extract archive hv.sound hv.leads
    rwa [hrun] at h
  have hfeedv : (feedOf archive).run v.files = .ok (feed, v.files) := by
    rcases feedOf_cases hfeed with rfl | ⟨place, id, file, hl, hfile, hreads, rfl⟩
    · rw [members_broken] at hms
      cases hms
    · have hid : id < w.files.files.length := (List.getElem?_eq_some_iff.mp hfile).1
      have hkept := hunpacked.file?_eq hid fun hs => (hlog id hs).2 place hl
      exact feedOf_file (lookup_extends (hv'.files.extends_ hv) hv'.files.cwd hl)
        (hkept.trans hfile) (hv'.files.user ▸ hreads)
  refine ⟨run_extract_whole hfeedv hms, hagain v.files v hv'.files.user (.refl _ _) ?_⟩
  refine ⟨⟨.refl hv, hv'.files, fun loc hin => ?_⟩, hbegun.log, hv'.log⟩
  obtain ⟨ns, rfl⟩ := hin.1
  rw [object?_of_node?_none (hv.empty ns (by rintro rfl; exact hin.2 (by simp)))]
  exact .early

/-- Extraction ends as an earlier one did, with all as that has left it but what is in the log. -/
def Repeats (archive dest : Path) (names : List Name) (v : World) : Prop :=
  ∃ v', (extract archive dest).run v = (.ok names, v') ∧
    ∀ loc, (∀ id, v.sink = .file id → v.files.node? loc ≠ some (.file id)) →
      v'.files.object? loc = v.files.object? loc

/-- Extraction is refused. Some directory that has been unpacked has permissions in the archive that
do not let the user search it and write to it. -/
def Refused (archive dest : Path) (root : Location) (ms : List Member) (v : World) : Prop :=
  (∃ m ∈ ms, ∃ v', (extract archive dest).run v =
      (.error (.cannotUnpack m (.file .accessDenied)), v')) ∧
    ∃ loc mode, root <+: loc ∧ v.files.object? loc = some (.directory mode) ∧
      (∃ d ∈ ms, d.kind = .directory ∧ d.mode = some mode) ∧
      ¬ (v.files.user.mayWrite mode = true ∧ v.files.user.maySearch mode = true)

/-- **Once more**: an archive without hard links that has been extracted into an empty directory is
extracted into it again to the same end, unless one of its directories does not let the user
search it and write to it. Then extraction may be refused instead, and nothing else. -/
theorem extract_again {v : World} (hv : Vacant dest root base w.files)
    (hlog : ∀ id, w.sink = .file id → id < w.files.files.length ∧
      ∀ place, w.files.lookup true archive ≠ .ok (place, .file id))
    (hfeed : (feedOf archive).run w.files = .ok (feed, w.files))
    (hlinks : ∀ m ∈ (members feed).1, m.kind ≠ .hardLink)
    (hrun : (extract archive dest).run w = (.ok names, v)) :
    Repeats archive dest names v ∨ Refused archive dest root (members feed).1 v := by
  obtain ⟨heq, hsecond⟩ := extract_followed hv hlog hfeed hlinks hrun
  unfold After at hsecond
  rw [← heq] at hsecond
  rcases hout : (extract archive dest).run v with ⟨e | names', v'⟩ <;> rw [hout] at hsecond
  · obtain ⟨⟨m, hm, rfl⟩, loc, mode, hin, hat, hasked, hhinders⟩ := hsecond
    refine .inr ⟨⟨m, hm, v', hout⟩, loc, mode, hin.1, ?_, hasked, hhinders⟩
    exact object?_of_node?_directory hat
  · obtain ⟨rfl, hfiles, -, -⟩ := hsecond
    refine .inl ⟨v', hout, fun loc hloc => ?_⟩
    by_cases hin : Inside root loc
    · exact (hfiles.stands loc hin).eq
    · have hnode : v'.files.node? loc = v.files.node? loc :=
        (hfiles.second.outside loc hin).trans (hfiles.first.outside loc hin).symm
      have hunpacked := unpacked_extract archive hfiles.first.sound (hfiles.first.leads hv)
      rw [hout] at hunpacked
      refine object?_congr hnode fun id hid => ?_
      exact hunpacked.file?_eq (hfiles.first.sound loc id hid) fun hs => hloc id hs hid

/-- A second extraction changes nothing, although the archive holds a file twice. -/
theorem extract_again_twiceWritten :
    ∃ v, (extract [97] [100]).run { files := besideArchive (gzipped (written twiceWritten)) } =
        (.ok [[97], [99]], v) ∧
      Repeats [97] [100] [[97], [99]] v := by
  have hmembers := members_besideArchive fits_twiceWritten length_twiceWritten
  have hlinks : ∀ m ∈ (members ⟨written twiceWritten, true, 0⟩).1, m.kind ≠ .hardLink := by
    rw [hmembers]
    decide
  obtain ⟨v, hrun⟩ := extract_twiceWritten
  have hagain := extract_again (w := { files := besideArchive (gzipped (written twiceWritten)) })
    (vacant_besideArchive _) (by simp) (feedOf_besideArchive length_twiceWritten) hlinks hrun
  refine ⟨v, hrun, hagain.resolve_right ?_⟩
  rintro ⟨-, loc, mode, -, -, ⟨d, hd, hkind, hmode⟩, hno⟩
  have hall : ∀ d ∈ twiceWritten.map Entry.member, d.kind = .directory →
      d.mode.all fun k => k.ownerWrites && k.ownerRuns := by decide
  rw [hmembers] at hd
  have hlets := hall d hd hkind
  rw [hmode] at hlets
  have howner : mode.ownerWrites = true ∧ mode.ownerRuns = true := by simpa using hlets
  refine hno ?_
  cases v.files.user with
  | owner => exact howner
  | superuser => exact ⟨rfl, rfl⟩

/-- A directory "a/b", and then the directory "a", which its owner may not go through. -/
def closed : List Entry := [⟨[97, 47, 98, 47], true, 0o755, []⟩, ⟨[97, 47], true, 0o444, []⟩]

/-- What is in a directory that has been closed behind it cannot be unpacked once more. -/
theorem extract_closed :
    ¬ ∀ (archive dest : Path) (root : Location) (base : Mode) (w v : World) (feed : Feed)
        (names : List Name), Vacant dest root base w.files →
      (∀ id, w.sink = .file id → id < w.files.files.length ∧
        ∀ place, w.files.lookup true archive ≠ .ok (place, .file id)) →
      (feedOf archive).run w.files = .ok (feed, w.files) →
      (∀ m ∈ (members feed).1, m.kind ≠ .hardLink) →
      (extract archive dest).run w = (.ok names, v) → Repeats archive dest names v := by
  intro h
  have hfits : ∀ e ∈ closed, e.Fits := by decide
  have hsize : (written closed).length < 65536 := by decide +kernel
  have hmembers := members_besideArchive hfits hsize
  have hlinks : ∀ m ∈ (members ⟨written closed, true, 0⟩).1, m.kind ≠ .hardLink := by
    rw [hmembers]
    decide
  have hfirst : (extract [97] [100]).run { files := besideArchive (gzipped (written closed)) } =
      (.ok [[97]], (((closed.map Entry.member).foldlM (extractMember [100]) []).run
        { files := besideArchive (gzipped (written closed)) }).2) := by
    rw [extract_besideArchive hfits hsize]
    exact Prod.ext (ok_of_toOption (by decide +kernel)) rfl
  have hvacant := @vacant_besideArchive .owner (gzipped (written closed))
  have hfeed := @feedOf_besideArchive .owner _ hsize
  obtain ⟨v', hsecond, -⟩ := h _ _ _ _ _ _ _ _ hvacant (by simp) hfeed hlinks hfirst
  have heq := (extract_followed hvacant (by simp) hfeed hlinks hfirst).1
  rw [hmembers] at heq
  have hfails : (((closed.map Entry.member).foldlM (extractMember [100]) []).run
      (((closed.map Entry.member).foldlM (extractMember [100]) []).run
        { files := besideArchive (gzipped (written closed)) }).2).1.toOption = none := by
    decide +kernel
  rw [← heq, hsecond] at hfails
  cases hfails

end PinnedBuild.Archive
