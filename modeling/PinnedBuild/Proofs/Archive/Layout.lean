import Mathlib
import PinnedBuild.Proofs.Archive.Names
import PinnedBuild.Proofs.Archive.Unpack

/-!
What files and directories come to when they are unpacked one after the other into a directory, told
without paths, links or places of files. Each member makes the directories that lead to it, and what
it puts there takes the place of what an earlier one put, unless a file and a directory meet.
-/

namespace PinnedBuild.Archive

open Files FileTree

def Segment.bytes : Segment → Bytes
  | .hole n => List.replicate n 0
  | .data _ b => b

/-- What a file holds when all of its parts have been written. -/
def Member.content (m : Member) : Bytes := m.body.flatMap Segment.bytes

/-- A directory is needed at a place by what is put below it and by itself. -/
def Member.NeedsDirectory (m : Member) (ns : List Name) : Prop :=
  ns <+: m.names ∧ (ns ≠ m.names ∨ m.kind = .directory)

instance (m : Member) (ns : List Name) : Decidable (m.NeedsDirectory ns) :=
  inferInstanceAs (Decidable (_ ∧ _))

/-- What stands below a directory, by the names that lead there. No names lead to itself. -/
abbrev Layout := List Name → Option Object

namespace Layout

open Unpacking (foldlM_some)

variable {base g k : Mode} {l l' : Layout} {ns front full : List Name} {x : Name} {o o' : Object}
  {m : Member} {ms before after : List Member}

/-- An empty directory. -/
def bare (base : Mode) : Layout := fun ns => if ns = [] then some (.directory base) else none

def set (l : Layout) (at_ : List Name) (o : Object) : Layout :=
  fun ns => if ns = at_ then some o else l ns

/-- Makes a directory where nothing is, in one that is there. -/
def ensure (l : Layout) (ns : List Name) : Layout :=
  match l ns, l ns.dropLast with
  | none, some (.directory m) => l.set ns (.directory (FileOp.inheritedMode m))
  | _, _ => l

/-- Makes the directories that lead to a place, and one at the place itself. -/
def ensureAll (l : Layout) (ns : List Name) : Layout := ns.inits.foldl ensure l

/-- A file replaces a file, and a directory keeps what is in it. -/
def place (l : Layout) (ns : List Name) (m : Member) : Option Layout :=
  match m.kind, l ns with
  | .file, none | .file, some (.file _) =>
    some (l.set ns (.file ⟨m.content, m.mode.getD newFileMode⟩))
  | .directory, none | .directory, some (.directory _) =>
    some (match m.mode with
      | some mode => l.set ns (.directory mode)
      | none => l.ensure ns)
  | _, _ => none

/-- What a member makes of a layout, if it is a file or a directory that fits in. A member without
names stands for the directory itself, which is left alone. -/
def add? (l : Layout) (m : Member) : Option Layout :=
  if m.names = [] then some l
  else
    let made := l.ensureAll m.names.dropLast
    match made m.names.dropLast with
    | some (.directory _) => made.place m.names m
    | _ => none

/-- All of the members, one after the other. -/
def ofMembers? (base : Mode) (ms : List Member) : Option Layout := ms.foldlM add? (bare base)

/-! ### One place -/

lemma set_self (l : Layout) (ns : List Name) (o : Object) : l.set ns o ns = some o := if_pos rfl

lemma set_of_ne (h : full ≠ ns) : l.set ns o full = l full := if_neg h

lemma set_set (l : Layout) (ns : List Name) (o o' : Object) :
    (l.set ns o).set ns o' = l.set ns o' := by
  funext full
  unfold set
  split <;> rfl

/-- Where a directory is made and where nothing happens. -/
lemma ensure_cases (l : Layout) (ns : List Name) :
    (∃ g, l ns = none ∧ l ns.dropLast = some (.directory g) ∧
        l.ensure ns = l.set ns (.directory (FileOp.inheritedMode g))) ∨
      l.ensure ns = l ∧ (l ns = none → ∀ g, l ns.dropLast ≠ some (.directory g)) := by
  unfold ensure
  rcases hn : l ns with _ | o
  · rcases hd : l ns.dropLast with _ | (g | target | f | d)
    · exact .inr ⟨rfl, by simp⟩
    · exact .inl ⟨g, rfl, rfl, rfl⟩
    all_goals exact .inr ⟨rfl, by simp⟩
  · exact .inr ⟨rfl, by simp⟩

lemma ensure_of_some (h : l ns = some o) : l.ensure ns = l := by
  unfold ensure
  rw [h]

lemma ensure_of_none (h : l ns = none) (hd : l ns.dropLast = some (.directory g)) :
    l.ensure ns = l.set ns (.directory (FileOp.inheritedMode g)) := by
  unfold ensure
  rw [h, hd]

lemma ensure_of_ne (h : full ≠ ns) : l.ensure ns full = l full := by
  rcases ensure_cases l ns with ⟨g, -, -, he⟩ | ⟨he, -⟩ <;> rw [he]
  exact set_of_ne h

lemma set_ensure (l : Layout) (ns : List Name) (o : Object) :
    (l.ensure ns).set ns o = l.set ns o := by
  rcases ensure_cases l ns with ⟨g, -, -, he⟩ | ⟨he, -⟩ <;> rw [he]
  exact set_set ..

/-- What is there is not touched. -/
lemma ensure_keeps (h : l full = some o) : l.ensure ns full = some o := by
  by_cases hf : full = ns
  · subst hf
    rwa [ensure_of_some h]
  · rwa [ensure_of_ne hf]

/-! ### The directories that lead to a place -/

lemma ensureAll_snoc (l : Layout) (ns : List Name) (x : Name) :
    l.ensureAll (ns ++ [x]) = (l.ensureAll ns).ensure (ns ++ [x]) := by
  unfold ensureAll
  rw [List.inits_append, List.foldl_append]
  rfl

lemma ensureAll_keeps (h : l full = some o) : l.ensureAll ns full = some o := by
  induction ns using List.reverseRecOn with
  | nil => exact ensure_keeps h
  | append_singleton ns x ih =>
    rw [ensureAll_snoc]
    exact ensure_keeps ih

lemma ensureAll_of_not_isPrefix (h : ¬ full <+: ns) : l.ensureAll ns full = l full := by
  induction ns using List.reverseRecOn with
  | nil => exact ensure_of_ne fun he => h (he ▸ List.prefix_rfl)
  | append_singleton ns x ih =>
    have hne : full ≠ ns ++ [x] := by
      rintro rfl
      exact h List.prefix_rfl
    rw [ensureAll_snoc, ensure_of_ne hne]
    exact ih fun hp => h (hp.trans (List.prefix_append _ _))

/-- What stands somewhere stands in a directory. -/
def Grounded (l : Layout) : Prop :=
  (∃ g, l [] = some (.directory g)) ∧
    ∀ ns x o, l (ns ++ [x]) = some o → ∃ g, l ns = some (.directory g)

lemma grounded_bare (base : Mode) : (bare base).Grounded :=
  ⟨⟨base, rfl⟩, fun ns x o h => by simp [bare] at h⟩

/-- A directory may only be replaced by a directory. -/
lemma Grounded.set (h : l.Grounded) (hd : ∃ g, l ns.dropLast = some (.directory g))
    (hkeep : ∀ g, l ns = some (.directory g) → ∃ k, o = .directory k) : (l.set ns o).Grounded := by
  have hdir : ∀ {full}, (∃ g, l full = some (.directory g)) →
      ∃ g, l.set ns o full = some (.directory g) := by
    rintro full ⟨g, hg⟩
    by_cases hf : full = ns
    · subst hf
      obtain ⟨k, rfl⟩ := hkeep g hg
      exact ⟨k, set_self ..⟩
    · exact ⟨g, (set_of_ne hf).trans hg⟩
  refine ⟨hdir h.1, fun full x o' ho => ?_⟩
  by_cases hf : full ++ [x] = ns
  · subst hf
    rw [List.dropLast_concat] at hd
    exact hdir hd
  · rw [set_of_ne hf] at ho
    exact hdir (h.2 full x o' ho)

lemma Grounded.ensure (h : l.Grounded) (ns : List Name) : (l.ensure ns).Grounded := by
  rcases ensure_cases l ns with ⟨g, hn, hd, he⟩ | ⟨he, -⟩ <;> rw [he]
  · exact h.set ⟨g, hd⟩ fun _ _ => ⟨_, rfl⟩
  · exact h

lemma Grounded.ensureAll (h : l.Grounded) (ns : List Name) : (l.ensureAll ns).Grounded := by
  induction ns using List.reverseRecOn with
  | nil => exact h.ensure []
  | append_singleton ns x ih =>
    rw [ensureAll_snoc]
    exact ih.ensure _

/-- Where the place itself is there, so is all that leads to it. -/
lemma Grounded.ensureAll_of_some (hl : l.Grounded) (h : l ns = some o) : l.ensureAll ns = l := by
  induction ns using List.reverseRecOn generalizing o with
  | nil => exact ensure_of_some h
  | append_singleton ns x ih =>
    obtain ⟨g, hg⟩ := hl.2 ns x o h
    rw [ensureAll_snoc, ih hg, ensure_of_some h]

/-- The directories that lead to a place and those that go on from it. -/
lemma Grounded.ensureAll_append (hl : l.Grounded) (h : l.ensureAll ns ns = some o)
    (rest : List Name) : (l.ensureAll ns).ensureAll (ns ++ rest) = l.ensureAll (ns ++ rest) := by
  induction rest using List.reverseRecOn with
  | nil =>
    rw [List.append_nil]
    exact (hl.ensureAll ns).ensureAll_of_some h
  | append_singleton rest x ih => rw [← List.append_assoc, ensureAll_snoc, ensureAll_snoc, ih]

/-- What leads to a directory are directories. -/
lemma Grounded.directory_of_isPrefix (h : l.Grounded) (hp : full <+: ns)
    (hd : ∃ g, l ns = some (.directory g)) : ∃ g, l full = some (.directory g) := by
  induction ns using List.reverseRecOn with
  | nil =>
    obtain rfl := List.prefix_nil.mp hp
    exact hd
  | append_singleton ns x ih =>
    rcases List.prefix_concat_iff.mp hp with rfl | hp
    · exact hd
    · obtain ⟨g, hg⟩ := hd
      exact ih hp (h.2 ns x _ hg)

lemma Grounded.there_of_isPrefix (h : l.Grounded) (hp : full <+: ns) (ho : l ns = some o) :
    ∃ o', l full = some o' := by
  rcases List.eq_nil_or_concat ns with rfl | ⟨front, x, rfl⟩
  · obtain rfl := List.prefix_nil.mp hp
    exact ⟨o, ho⟩
  · rw [List.concat_eq_append] at hp ho
    rcases List.prefix_concat_iff.mp hp with rfl | hp
    · exact ⟨o, ho⟩
    · obtain ⟨g, hg⟩ := h.directory_of_isPrefix hp (h.2 front x o ho)
      exact ⟨_, hg⟩

/-- A directory that is made on the way takes after the one it is made in. -/
lemma ensureAll_made (h : l.Grounded) (hp : full <+: ns) (hn : l full = none)
    (hd : ∃ g, l.ensureAll ns ns = some (.directory g)) :
    ∃ g, l.ensureAll ns full.dropLast = some (.directory g) ∧
      l.ensureAll ns full = some (.directory (FileOp.inheritedMode g)) := by
  induction ns using List.reverseRecOn with
  | nil =>
    obtain rfl := List.prefix_nil.mp hp
    obtain ⟨g, hg⟩ := h.1
    simp [hg] at hn
  | append_singleton ns x ih =>
    have hup : ∃ g, l.ensureAll ns ns = some (.directory g) := by
      obtain ⟨g, hg⟩ :=
        (h.ensureAll (ns ++ [x])).directory_of_isPrefix (List.prefix_append ns [x]) hd
      refine ⟨g, ?_⟩
      rwa [ensureAll_snoc, ensure_of_ne (by simp)] at hg
    rw [ensureAll_snoc] at hd ⊢
    rcases List.prefix_concat_iff.mp hp with rfl | hp
    · have hnone : l.ensureAll ns (ns ++ [x]) = none := by
        rw [ensureAll_of_not_isPrefix, hn]
        exact fun hp => by simpa using hp.length_le
      obtain ⟨g, hg⟩ := hup
      refine ⟨g, ?_, ?_⟩
      · rw [List.dropLast_concat, ensure_of_ne (by simp), hg]
      · rw [ensure_of_none hnone (by rwa [List.dropLast_concat]), set_self]
    · obtain ⟨g, hg, hmade⟩ := ih hp hup
      exact ⟨g, ensure_keeps hg, ensure_keeps hmade⟩

/-! ### One member -/

lemma names_not_isPrefix (h : m.names ≠ []) : ¬ m.names <+: m.names.dropLast := by
  intro hp
  have hlen := hp.length_le
  have hpos := List.length_pos_iff.mpr h
  rw [List.length_dropLast] at hlen
  omega

/-- A member that fits in goes into a directory, once those that lead to it are made. -/
lemma add?_some (h : l.add? m = some l') (hne : m.names ≠ []) :
    (∃ g, l.ensureAll m.names.dropLast m.names.dropLast = some (.directory g)) ∧
      (l.ensureAll m.names.dropLast).place m.names m = some l' := by
  unfold add? at h
  rw [if_neg hne] at h
  simp only at h
  split at h
  · exact ⟨⟨_, by assumption⟩, h⟩
  · cases h

lemma add?_nameless (h : l.add? m = some l') (he : m.names = []) : l' = l := by
  unfold add? at h
  rw [if_pos he] at h
  exact (Option.some.inj h).symm

/-- What a member that is placed comes to. -/
lemma place_some (h : l.place ns m = some l') :
    m.kind = .file ∧ (∀ o, l ns = some o → ∃ f, o = .file f) ∧
        l' = l.set ns (.file ⟨m.content, m.mode.getD newFileMode⟩) ∨
      m.kind = .directory ∧ (∀ o, l ns = some o → ∃ g, o = .directory g) ∧
        (∀ mode, m.mode = some mode → l' = l.set ns (.directory mode)) ∧
        (m.mode = none → l' = l.ensure ns) := by
  unfold place at h
  split at h
  · rename_i hk hn
    exact .inl ⟨hk, by simp [hn], (Option.some.inj h).symm⟩
  · rename_i f hk hn
    exact .inl ⟨hk, by simp [hn], (Option.some.inj h).symm⟩
  · rename_i hk hn
    obtain rfl := Option.some.inj h
    exact .inr ⟨hk, by simp [hn], fun mode hm => by rw [hm], fun hm => by rw [hm]⟩
  · rename_i g hk hn
    obtain rfl := Option.some.inj h
    exact .inr ⟨hk, by simp [hn], fun mode hm => by rw [hm], fun hm => by rw [hm]⟩
  · cases h

lemma place_file (hk : m.kind = .file) (hn : ∀ o, l ns = some o → ∃ f, o = .file f) :
    l.place ns m = some (l.set ns (.file ⟨m.content, m.mode.getD newFileMode⟩)) := by
  unfold place
  rw [hk]
  rcases ho : l ns with _ | o
  · rfl
  · obtain ⟨f, rfl⟩ := hn o ho
    rfl

lemma place_directory (hk : m.kind = .directory)
    (hn : ∀ o, l ns = some o → ∃ g, o = .directory g) :
    (∀ mode, m.mode = some mode → l.place ns m = some (l.set ns (.directory mode))) ∧
      (m.mode = none → l.place ns m = some (l.ensure ns)) := by
  unfold place
  rw [hk]
  rcases ho : l ns with _ | o
  · exact ⟨fun mode hm => by rw [hm], fun hm => by rw [hm]⟩
  · obtain ⟨g, rfl⟩ := hn o ho
    exact ⟨fun mode hm => by rw [hm], fun hm => by rw [hm]⟩

lemma place_of_ne (h : l.place ns m = some l') (hf : full ≠ ns) : l' full = l full := by
  rcases place_some h with ⟨-, -, rfl⟩ | ⟨-, -, hset, hkeep⟩
  · exact set_of_ne hf
  · rcases hm : m.mode with _ | mode
    · rw [hkeep hm, ensure_of_ne hf]
    · rw [hset mode hm, set_of_ne hf]

/-- What the directories that lead to a member leave at its place. -/
lemma ensureAll_names (l : Layout) (h : m.names ≠ []) :
    l.ensureAll m.names.dropLast m.names = l m.names :=
  ensureAll_of_not_isPrefix (names_not_isPrefix h)

lemma add?_of_ne (h : l.add? m = some l') (hf : full ≠ m.names) (ho : l full = some o) :
    l' full = some o := by
  by_cases hne : m.names = []
  · rw [add?_nameless h hne, ho]
  · rw [place_of_ne (add?_some h hne).2 hf, ensureAll_keeps ho]

lemma add?_of_not_isPrefix (h : l.add? m = some l') (hp : ¬ full <+: m.names) :
    l' full = l full := by
  by_cases hne : m.names = []
  · rw [add?_nameless h hne]
  · have hf : full ≠ m.names := by
      rintro rfl
      exact hp List.prefix_rfl
    rw [place_of_ne (add?_some h hne).2 hf, ensureAll_of_not_isPrefix]
    exact fun hq => hp (hq.trans (List.dropLast_prefix _))

lemma add?_file (h : l.add? m = some l') (hne : m.names ≠ []) (hk : m.kind = .file) :
    (∀ o, l m.names = some o → ∃ f, o = .file f) ∧
      l' m.names = some (.file ⟨m.content, m.mode.getD newFileMode⟩) := by
  rcases place_some (add?_some h hne).2 with ⟨-, hn, rfl⟩ | ⟨hk', -⟩
  · rw [ensureAll_names l hne] at hn
    exact ⟨hn, set_self ..⟩
  · rw [hk] at hk'
    cases hk'

lemma add?_directory (h : l.add? m = some l') (hne : m.names ≠ []) (hk : m.kind = .directory) :
    (∀ o, l m.names = some o → ∃ g, o = .directory g) ∧
      (∀ mode, m.mode = some mode → l' m.names = some (.directory mode)) ∧
      (m.mode = none → ∃ g, l' m.names.dropLast = some (.directory g) ∧
        l' m.names = some ((l m.names).getD (.directory (FileOp.inheritedMode g)))) := by
  obtain ⟨⟨g, hg⟩, hplace⟩ := add?_some h hne
  rcases place_some hplace with ⟨hk', -⟩ | ⟨-, hn, hset, hkeep⟩
  · rw [hk] at hk'
    cases hk'
  rw [ensureAll_names l hne] at hn
  refine ⟨hn, fun mode hm => by rw [hset mode hm, set_self], fun hm => ⟨g, ?_, ?_⟩⟩
  · rw [hkeep hm, ensure_of_ne, hg]
    intro he
    exact names_not_isPrefix hne (by rw [he])
  · rcases ho : l m.names with _ | o
    · rw [hkeep hm, ensure_of_none ((ensureAll_names l hne).trans ho) hg, set_self]
      rfl
    · rw [hkeep hm, ensure_keeps ((ensureAll_names l hne).trans ho)]
      rfl

/-- What stands at the place of a member is of its kind, and so was what stood there. -/
lemma add?_kind (h : l.add? m = some l') (hne : m.names ≠ []) :
    (m.kind = .file ∧ (∀ o, l m.names = some o → ∃ f, o = .file f) ∧
        ∃ f, l' m.names = some (.file f)) ∨
      m.kind = .directory ∧ (∀ o, l m.names = some o → ∃ g, o = .directory g) ∧
        ∃ g, l' m.names = some (.directory g) := by
  rcases place_some (add?_some h hne).2 with ⟨hk, -⟩ | ⟨hk, -⟩
  · obtain ⟨hn, hf⟩ := add?_file h hne hk
    exact .inl ⟨hk, hn, _, hf⟩
  · obtain ⟨hn, hset, hkeep⟩ := add?_directory h hne hk
    refine .inr ⟨hk, hn, ?_⟩
    rcases hm : m.mode with _ | mode
    · obtain ⟨g, -, hg⟩ := hkeep hm
      rcases ho : l m.names with _ | o
      · exact ⟨_, hg.trans (by rw [ho]; rfl)⟩
      · obtain ⟨g', rfl⟩ := hn o ho
        exact ⟨g', hg.trans (by rw [ho]; rfl)⟩
    · exact ⟨mode, hset mode hm⟩

lemma Grounded.add? (hl : l.Grounded) (h : l.add? m = some l') : l'.Grounded := by
  by_cases hne : m.names = []
  · rwa [add?_nameless h hne]
  obtain ⟨hd, hplace⟩ := add?_some h hne
  have hmade := hl.ensureAll m.names.dropLast
  rcases place_some hplace with ⟨-, hn, rfl⟩ | ⟨-, hn, hset, hkeep⟩
  · exact hmade.set hd fun g hg => by simpa using hn _ hg
  · rcases hm : m.mode with _ | mode
    · rw [hkeep hm]
      exact hmade.ensure _
    · rw [hset mode hm]
      exact hmade.set hd fun _ _ => ⟨_, rfl⟩

lemma add?_directory_stays (h : l.add? m = some l') (hd : ∃ g, l full = some (.directory g)) :
    ∃ g, l' full = some (.directory g) := by
  obtain ⟨g, hg⟩ := hd
  by_cases hf : full = m.names
  · subst hf
    by_cases hne : m.names = []
    · exact ⟨g, by rw [add?_nameless h hne, hg]⟩
    · rcases add?_kind h hne with ⟨-, hn, -⟩ | ⟨-, -, hd⟩
      · simpa using hn _ hg
      · exact hd
  · exact ⟨g, add?_of_ne h hf hg⟩

lemma add?_file_stays (h : l.add? m = some l') (hd : ∃ f, l full = some (.file f)) :
    ∃ f, l' full = some (.file f) := by
  obtain ⟨f, hf'⟩ := hd
  by_cases hf : full = m.names
  · subst hf
    by_cases hne : m.names = []
    · exact ⟨f, by rw [add?_nameless h hne, hf']⟩
    · rcases add?_kind h hne with ⟨-, -, hd⟩ | ⟨-, hn, -⟩
      · exact hd
      · simpa using hn _ hf'
  · exact ⟨f, add?_of_ne h hf hf'⟩

/-- All that a member needs as a directory is one. -/
lemma add?_needed (hl : l.Grounded) (h : l.add? m = some l') (hd : m.NeedsDirectory ns) :
    ∃ g, l' ns = some (.directory g) := by
  obtain ⟨hp, hor⟩ := hd
  by_cases hne : m.names = []
  · rw [hne] at hp
    obtain rfl := List.prefix_nil.mp hp
    rw [add?_nameless h hne]
    exact hl.1
  rcases add?_kind h hne with ⟨hk, -, f, hf⟩ | ⟨hk, -, hdir⟩
  · have hns : ns ≠ m.names := hor.resolve_right (by simp [hk])
    obtain ⟨front, x, hfront⟩ := List.eq_nil_or_concat m.names |>.resolve_left hne
    rw [List.concat_eq_append] at hfront
    rw [hfront] at hf hp
    have hfrontdir := (hl.add? h).2 front x _ hf
    refine (hl.add? h).directory_of_isPrefix ?_ hfrontdir
    exact (List.prefix_concat_iff.mp hp).resolve_left (by rwa [← hfront])
  · exact (hl.add? h).directory_of_isPrefix hp hdir

/-- A directory that a member is the first to need takes after the one it is made in. -/
lemma add?_made (hl : l.Grounded) (h : l.add? m = some l') (hn : l ns = none)
    (hd : m.NeedsDirectory ns) (hm : ns = m.names → m.mode = none) :
    ∃ g, l' ns.dropLast = some (.directory g) ∧
      l' ns = some (.directory (FileOp.inheritedMode g)) := by
  obtain ⟨hp, hor⟩ := hd
  by_cases hne : m.names = []
  · rw [hne] at hp
    obtain rfl := List.prefix_nil.mp hp
    obtain ⟨g, hg⟩ := hl.1
    simp [hg] at hn
  by_cases hns : ns = m.names
  · subst hns
    obtain ⟨-, -, hkeep⟩ := add?_directory h hne (hor.resolve_left (by simp))
    obtain ⟨g, hg, hmade⟩ := hkeep (hm rfl)
    exact ⟨g, hg, hmade.trans (by rw [hn]; rfl)⟩
  · obtain ⟨hfront, hplace⟩ := add?_some h hne
    obtain ⟨front, x, hnames⟩ := List.eq_nil_or_concat m.names |>.resolve_left hne
    rw [List.concat_eq_append] at hnames
    have hp' : ns <+: m.names.dropLast := by
      rw [hnames] at hp hns ⊢
      rw [List.dropLast_concat]
      exact (List.prefix_concat_iff.mp hp).resolve_left hns
    obtain ⟨g, hg, hmade⟩ := ensureAll_made hl hp' hn hfront
    have hup : ns.dropLast ≠ m.names := by
      intro he
      have hlen := ((List.dropLast_prefix ns).trans hp').length_le
      rw [he, List.length_dropLast] at hlen
      have := List.length_pos_iff.mpr hne
      omega
    exact ⟨g, (place_of_ne hplace hup).trans hg, (place_of_ne hplace hns).trans hmade⟩

/-- Somewhere is something after a member if there was before or the member leads through it. -/
lemma add?_there (hl : l.Grounded) (h : l.add? m = some l') :
    (∃ o, l' ns = some o) ↔ (∃ o, l ns = some o) ∨ ns <+: m.names := by
  constructor
  · rintro ⟨o, ho⟩
    by_cases hp : ns <+: m.names
    · exact .inr hp
    · exact .inl ⟨o, (add?_of_not_isPrefix h hp).symm.trans ho⟩
  · have hnames : ∃ o, l' m.names = some o := by
      by_cases hne : m.names = []
      · obtain ⟨g, hg⟩ := hl.1
        exact ⟨_, by rw [add?_nameless h hne, hne, hg]⟩
      · rcases add?_kind h hne with ⟨-, -, f, hf⟩ | ⟨-, -, g, hg⟩
        · exact ⟨_, hf⟩
        · exact ⟨_, hg⟩
    rintro (⟨o, ho⟩ | hp)
    · by_cases hf : ns = m.names
      · exact hf ▸ hnames
      · exact ⟨o, add?_of_ne h hf ho⟩
    · obtain ⟨o, ho⟩ := hnames
      exact (hl.add? h).there_of_isPrefix hp ho

/-- A directory keeps its permissions where no member sets them. -/
lemma add?_directory_kept (h : l.add? m = some l') (hne : ns ≠ [])
    (ho : l ns = some (.directory k)) (hm : m.names = ns → m.mode = none) :
    l' ns = some (.directory k) := by
  by_cases hf : ns = m.names
  · subst hf
    rcases add?_kind h hne with ⟨-, hn, -⟩ | ⟨hk, -, -⟩
    · simpa using hn _ ho
    · obtain ⟨-, -, hkeep⟩ := add?_directory h hne hk
      obtain ⟨g, -, hg⟩ := hkeep (hm rfl)
      rw [hg, ho]
      rfl
  · exact add?_of_ne h hf ho

/-! ### Directories that hand their group on -/

/-- No directory asks for its group to be handed on. -/
def Groupless (l : Layout) : Prop := ∀ ns g, l ns = some (.directory g) → g &&& 0o2000 = 0

lemma inheritedMode_of_groupless (h : g &&& 0o2000 = 0) :
    FileOp.inheritedMode g = newDirectoryMode := by
  unfold FileOp.inheritedMode
  rw [h]
  rfl

lemma Groupless.set (h : l.Groupless) (ho : ∀ g, o = .directory g → g &&& 0o2000 = 0) :
    (l.set ns o).Groupless := by
  intro full g hg
  by_cases hf : full = ns
  · subst hf
    exact ho g (Option.some.inj ((set_self ..).symm.trans hg))
  · exact h full g ((set_of_ne hf).symm.trans hg)

lemma Groupless.ensure (h : l.Groupless) (ns : List Name) : (l.ensure ns).Groupless := by
  rcases ensure_cases l ns with ⟨g, -, hd, he⟩ | ⟨he, -⟩ <;> rw [he]
  · refine h.set fun g' hg => ?_
    obtain rfl := Object.directory.inj hg
    rw [inheritedMode_of_groupless (h _ g hd)]
    decide
  · exact h

lemma Groupless.ensureAll (h : l.Groupless) (ns : List Name) : (l.ensureAll ns).Groupless := by
  induction ns using List.reverseRecOn with
  | nil => exact h.ensure []
  | append_singleton ns x ih =>
    rw [ensureAll_snoc]
    exact ih.ensure _

lemma Groupless.add? (hl : l.Groupless) (h : l.add? m = some l')
    (hm : ∀ mode, m.kind = .directory → m.mode = some mode → mode &&& 0o2000 = 0) :
    l'.Groupless := by
  by_cases hne : m.names = []
  · rwa [add?_nameless h hne]
  have hmade := hl.ensureAll m.names.dropLast
  rcases place_some (add?_some h hne).2 with ⟨-, -, rfl⟩ | ⟨hk, -, hset, hkeep⟩
  · exact hmade.set (by simp)
  · rcases hmode : m.mode with _ | mode
    · rw [hkeep hmode]
      exact hmade.ensure _
    · rw [hset mode hmode]
      refine hmade.set fun g hg => ?_
      obtain rfl := Object.directory.inj hg
      exact hm _ hk hmode

/-! ### All members -/

lemma grounded_ofMembers? (h : ofMembers? base ms = some l) : l.Grounded :=
  foldlM_some (P := Grounded) (fun _ _ _ hl _ ha => hl.add? ha) (grounded_bare base) h

lemma ofMembers?_split (h : ofMembers? base (before ++ m :: after) = some l') :
    ∃ l l₁, ofMembers? base before = some l ∧ l.add? m = some l₁ ∧
      after.foldlM add? l₁ = some l' := by
  unfold ofMembers? at h ⊢
  rw [List.foldlM_append] at h
  obtain ⟨l, hl, h⟩ := Option.bind_eq_some_iff.mp h
  rw [List.foldlM_cons] at h
  obtain ⟨l₁, hl₁, h⟩ := Option.bind_eq_some_iff.mp h
  exact ⟨l, l₁, hl, hl₁, h⟩

lemma ofMembers?_snoc (h : ofMembers? base before = some l) (hm : l.add? m = some l') :
    ofMembers? base (before ++ [m]) = some l' := by
  unfold ofMembers? at h ⊢
  rw [List.foldlM_append, h]
  simpa using hm

lemma there_after (hl : l.Grounded) (h : ms.foldlM add? l = some l') :
    (∃ o, l' ns = some o) ↔ (∃ o, l ns = some o) ∨ ∃ m ∈ ms, ns <+: m.names := by
  induction ms generalizing l with
  | nil =>
    obtain rfl := Option.some.inj h
    simp
  | cons m ms ih =>
    rw [List.foldlM_cons] at h
    obtain ⟨l₁, hl₁, h⟩ := Option.bind_eq_some_iff.mp h
    rw [ih (hl.add? hl₁) h, add?_there hl hl₁, List.exists_mem_cons_iff, or_assoc]

/-- What the last member that has a say puts somewhere stays. -/
lemma file_after (h : after.foldlM add? l = some l') (ho : l ns = some o)
    (hm : ∀ m ∈ after, m.names ≠ ns) : l' ns = some o :=
  foldlM_some (P := fun l : Layout => l ns = some o)
    (fun _ m hmem hl _ ha => add?_of_ne ha (hm m hmem).symm hl) ho h

lemma directory_after (h : after.foldlM add? l = some l') (hne : ns ≠ [])
    (ho : l ns = some (.directory k)) (hm : ∀ m ∈ after, m.names = ns → m.mode = none) :
    l' ns = some (.directory k) :=
  foldlM_some (P := fun l : Layout => l ns = some (.directory k))
    (fun _ m hmem hl _ ha => add?_directory_kept ha hne hl (hm m hmem)) ho h

lemma needed_ofMembers? (h : ofMembers? base ms = some l) (hm : m ∈ ms)
    (hd : m.NeedsDirectory ns) : ∃ g, l ns = some (.directory g) := by
  obtain ⟨before, after, rfl⟩ := List.mem_iff_append.mp hm
  obtain ⟨l₀, l₁, hl₀, hl₁, h⟩ := ofMembers?_split h
  exact foldlM_some (P := fun l : Layout => ∃ g, l ns = some (.directory g))
    (fun _ _ _ hl _ ha => add?_directory_stays ha hl)
    (add?_needed (grounded_ofMembers? hl₀) hl₁ hd) h

lemma filed_ofMembers? (h : ofMembers? base ms = some l) (hm : m ∈ ms) (hne : m.names ≠ [])
    (hk : m.kind = .file) : ∃ f, l m.names = some (.file f) := by
  obtain ⟨before, after, rfl⟩ := List.mem_iff_append.mp hm
  obtain ⟨l₀, l₁, -, hl₁, h⟩ := ofMembers?_split h
  exact foldlM_some (P := fun l : Layout => ∃ f, l m.names = some (.file f))
    (fun _ _ _ hl _ ha => add?_file_stays ha hl) ⟨_, (add?_file hl₁ hne hk).2⟩ h

/-- A file and a directory are never needed at the same place. -/
lemma apart_ofMembers? (h : ofMembers? base ms = some l) {m' : Member} (hm : m ∈ ms)
    (hk : m.kind = .file) (hne : m.names ≠ []) (hm' : m' ∈ ms) : ¬ m'.NeedsDirectory m.names := by
  intro hd
  obtain ⟨f, hf⟩ := filed_ofMembers? h hm hne hk
  obtain ⟨g, hg⟩ := needed_ofMembers? h hm' hd
  cases hf.symm.trans hg

/-- The first member to lead through a directory makes it. -/
lemma implied_ofMembers? (h : ofMembers? base (before ++ m :: after) = some l) (hne : ns ≠ [])
    (hd : m.NeedsDirectory ns) (hfirst : ∀ m' ∈ before, ¬ m'.NeedsDirectory ns)
    (hm : ∀ m' ∈ before ++ m :: after, m'.names = ns → m'.mode = none) :
    ∃ made g, ofMembers? base (before ++ [m]) = some made ∧
      made ns.dropLast = some (.directory g) ∧
      l ns = some (.directory (FileOp.inheritedMode g)) := by
  obtain ⟨l₀, l₁, hl₀, hl₁, hafter⟩ := ofMembers?_split h
  have hground := grounded_ofMembers? hl₀
  have hnone : l₀ ns = none := by
    refine Option.eq_none_iff_forall_ne_some.mpr fun o ho => ?_
    rcases (there_after (grounded_bare base) hl₀).mp ⟨o, ho⟩ with ⟨o', ho'⟩ | ⟨m', hm', hp⟩
    · simp [bare, hne] at ho'
    · -- Only a file can stand there, and then no directory is needed at its place.
      have hnot := hfirst m' hm'
      simp only [Member.NeedsDirectory, hp, true_and, not_or, not_not] at hnot
      obtain ⟨rfl, hk⟩ := hnot
      have hfile : m'.kind = .file := by
        obtain ⟨front, rest, rfl⟩ := List.mem_iff_append.mp hm'
        obtain ⟨_, _, -, hadd, -⟩ := ofMembers?_split hl₀
        exact (add?_kind hadd hne).elim (·.1) fun hdir => absurd hdir.1 hk
      exact apart_ofMembers? h (by simp [hm']) hfile hne (by simp) hd
  obtain ⟨g, hup, hg⟩ := add?_made hground hl₁ hnone hd fun he => hm m (by simp) he.symm
  refine ⟨l₁, g, ofMembers?_snoc hl₀ hl₁, hup, directory_after hafter hne hg fun m' hm' => ?_⟩
  exact hm m' (by simp [hm'])

lemma groupless_ofMembers? (h : ofMembers? base ms = some l) (hb : base &&& 0o2000 = 0)
    (hm : ∀ m ∈ ms, ∀ mode, m.kind = .directory → m.mode = some mode → mode &&& 0o2000 = 0) :
    l.Groupless := by
  refine foldlM_some (P := Groupless) (fun _ m hmem hl _ ha => hl.add? ha (hm m hmem)) ?_ h
  intro ns g hg
  unfold bare at hg
  split at hg
  · obtain rfl := Object.directory.inj (Option.some.inj hg)
    exact hb
  · cases hg

/-- Some place is needed both as a file and as a directory. -/
def Clashing (ms : List Member) : Prop :=
  ∃ m ∈ ms, ∃ m' ∈ ms, m.kind = .file ∧ m.names ≠ [] ∧ m'.NeedsDirectory m.names

/-- What stands in a directory after members were unpacked into it, told by which of them has the
last say. -/
structure Produces (base : Mode) (ms : List Member) (l : Layout) : Prop where
  folded : ofMembers? base ms = some l
  /-- There is what the members name, and what leads there. -/
  there ns : (∃ o, l ns = some o) ↔ ns = [] ∨ ∃ m ∈ ms, ns <+: m.names
  /-- The last member at a place is the file there. -/
  file before m after : ms = before ++ m :: after → m.kind = .file → m.names ≠ [] →
    (∀ m' ∈ after, m'.names ≠ m.names) →
    l m.names = some (.file ⟨m.content, m.mode.getD newFileMode⟩)
  /-- The last member at a place that has permissions gives them to the directory there. -/
  directory before m after mode : ms = before ++ m :: after → m.kind = .directory →
    m.names ≠ [] → m.mode = some mode → (∀ m' ∈ after, m'.names = m.names → m'.mode = none) →
    l m.names = some (.directory mode)
  /-- A directory to which no member gives permissions has those that a new one gets where the first
  member to lead through it finds it missing. -/
  implied before m after ns : ms = before ++ m :: after → ns ≠ [] → m.NeedsDirectory ns →
    (∀ m' ∈ before, ¬ m'.NeedsDirectory ns) → (∀ m' ∈ ms, m'.names = ns → m'.mode = none) →
    ∃ made g, ofMembers? base (before ++ [m]) = some made ∧
      made ns.dropLast = some (.directory g) ∧ l ns = some (.directory (FileOp.inheritedMode g))
  /-- They are the usual ones unless some directory hands its group on. -/
  usual m ns : base &&& 0o2000 = 0 →
    (∀ m ∈ ms, ∀ mode, m.kind = .directory → m.mode = some mode → mode &&& 0o2000 = 0) →
    m ∈ ms → ns ≠ [] → m.NeedsDirectory ns → (∀ m' ∈ ms, m'.names = ns → m'.mode = none) →
    l ns = some (.directory newDirectoryMode)
  apart : ¬ Clashing ms

lemma produces (h : ofMembers? base ms = some l) : Produces base ms l where
  folded := h
  there ns := by
    rw [there_after (grounded_bare base) h]
    refine or_congr_left ⟨fun ⟨o, ho⟩ => ?_, ?_⟩
    · by_contra hne
      simp [bare, hne] at ho
    · rintro rfl
      exact ⟨_, rfl⟩
  file before m after := by
    rintro rfl hk hne hm
    obtain ⟨l₀, l₁, -, hl₁, h⟩ := ofMembers?_split h
    exact file_after h (add?_file hl₁ hne hk).2 hm
  directory before m after mode := by
    rintro rfl hk hne hmode hm
    obtain ⟨l₀, l₁, -, hl₁, h⟩ := ofMembers?_split h
    exact directory_after h hne ((add?_directory hl₁ hne hk).2.1 mode hmode) hm
  implied before m after ns := by
    rintro rfl hne hd hfirst hm
    exact implied_ofMembers? h hne hd hfirst hm
  usual m ns hb hmodes hm hne hd hnone := by
    -- The first member to need the directory makes it.
    obtain ⟨first, hfirst⟩ : ∃ first, ms.find? (Member.NeedsDirectory · ns) = some first :=
      Option.isSome_iff_exists.mp (List.find?_isSome.mpr ⟨m, hm, decide_eq_true hd⟩)
    obtain ⟨hneeds, before, after, rfl, hbefore⟩ := List.find?_eq_some_iff_append.mp hfirst
    obtain ⟨made, g, hmade, hup, hg⟩ := implied_ofMembers? h hne (of_decide_eq_true hneeds)
      (fun m' hm' => by simpa using hbefore m' hm') hnone
    rw [hg, inheritedMode_of_groupless]
    refine groupless_ofMembers? hmade hb (fun m' hm' => hmodes m' ?_) _ g hup
    rw [List.append_cons]
    exact List.mem_append_left _ hm'
  apart := fun ⟨_, hm, _, hm', hk, hne, hd⟩ => apart_ofMembers? h hm hk hne hm' hd

end Layout

end PinnedBuild.Archive
