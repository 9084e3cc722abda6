import Mathlib
import PinnedBuild.Build.Stage
import PinnedBuild.Text.Padding

/-!
Text in a column. What stands there is the front of the text between two runs of the fill character;
the alignment says how the room is divided between the two, and nothing else is left open.
-/

namespace PinnedBuild.Text.Padding

variable {p : Padding} {s out : String} {before behind : ℕ}

/-- How much of a text of `n` characters is kept. -/
def kept (p : Padding) (n : ℕ) : ℕ := min (p.precision.getD n) n

/-- A space, unless an alignment brings a character of its own. -/
def fill (p : Padding) : Char := (p.align.map Prod.snd).getD ' '

/-- What the text is set to, with so many fill characters on its left and on its right. -/
structure Sets (p : Padding) (s : String) (before behind : ℕ) (out : String) : Prop where
  text : out.toList = List.replicate before p.fill ++ s.toList.take (p.kept s.length) ++
    List.replicate behind p.fill
  /-- The column is filled up, and only a text that is longer goes beyond it. -/
  width : before + p.kept s.length + behind = max (p.width.getD 0) (p.kept s.length)
  left : p.align = none ∨ (∃ c, p.align = some (.left, c)) → before = 0
  right c : p.align = some (.right, c) → behind = 0
  /-- In the middle the right side takes what cannot be halved. -/
  centre c : p.align = some (.centre, c) → before = (before + behind) / 2

/-! ### What is kept -/

lemma cut_eq (p : Padding) (l : List Char) : p.cut l = l.take (p.kept l.length) := by
  unfold cut kept
  rcases p.precision with _ | n
  · rw [Option.getD_none, min_self, List.take_length]
  · exact List.take_eq_take_min

lemma length_cut (p : Padding) (s : String) : (p.cut s.toList).length = p.kept s.length := by
  rw [cut_eq, List.length_take, String.length_toList]
  exact min_eq_left (min_le_right _ _)

lemma kept_le (p : Padding) (n : ℕ) : p.kept n ≤ n := min_le_right _ _

/-! ### How the room is divided -/

/-- The alignment and the room say how much of it stands on the left. -/
lemma Sets.before_eq (h : p.Sets s before behind out) :
    before = leftShare (p.align.getD (.left, ' ')).1 (before + behind) := by
  rcases ha : p.align with _ | ⟨a, c⟩
  · exact h.left (.inl ha)
  · rcases a with _ | _ | _
    · exact h.left (.inr ⟨c, ha⟩)
    · exact h.centre c ha
    · have hright := h.right c ha
      rw [hright]
      rfl

lemma Sets.room (h : p.Sets s before behind out) :
    before + behind = p.width.getD 0 - p.kept s.length := by
  have hwidth := h.width
  omega

lemma leftShare_le (a : Alignment) (room : ℕ) : leftShare a room ≤ room := by
  cases a with
  | left => exact Nat.zero_le room
  | centre => exact Nat.div_le_self room 2
  | right => exact le_rfl

lemma fill_eq (p : Padding) : (p.align.getD (.left, ' ')).2 = p.fill := by
  unfold fill
  rcases p.align with _ | side <;> rfl

lemma sets_apply (p : Padding) (s : String) :
    ∃ before behind, p.Sets s before behind (p.apply s) := by
  set room := p.width.getD 0 - p.kept s.length with hroom
  set share := leftShare (p.align.getD (.left, ' ')).1 room with hshare
  have hle : share ≤ room := leftShare_le _ room
  have hsum : share + (room - share) = room := Nat.add_sub_cancel' hle
  refine ⟨share, room - share, ?_⟩
  constructor
  case text =>
    rw [apply, String.toList_ofList, length_cut, cut_eq, String.length_toList, spread, fill_eq]
  case width => omega
  case left =>
    rintro (ha | ⟨c, ha⟩) <;> rw [hshare, ha] <;> rfl
  case right =>
    intro c ha
    have hall : share = room := by rw [hshare, ha]; rfl
    omega
  case centre =>
    intro c ha
    rw [hsum, hshare, ha]
    rfl

/-- What a text is set to is settled by the column. -/
lemma Sets.eq (h : p.Sets s before behind out) : out = p.apply s := by
  obtain ⟨before', behind', h'⟩ := sets_apply p s
  have hroom : before + behind = before' + behind' := h.room.trans h'.room.symm
  have hbefore : before = before' := by rw [h.before_eq, h'.before_eq, hroom]
  obtain rfl := hbefore
  obtain rfl := Nat.add_left_cancel hroom
  rw [← String.toList_inj, h.text, h'.text]

lemma Sets.length_eq (h : p.Sets s before behind out) :
    out.length = max (p.width.getD 0) (p.kept s.length) := by
  have hkept := p.kept_le s.length
  rw [← h.width, ← String.length_toList, h.text]
  simp only [List.length_append, List.length_replicate, List.length_take, String.length_toList]
  omega

lemma length_apply (p : Padding) (s : String) :
    (p.apply s).length = max (p.width.getD 0) (p.kept s.length) := by
  obtain ⟨before, behind, h⟩ := sets_apply p s
  exact h.length_eq

/-- Without a width nothing is added to what is kept of a text. -/
lemma toList_apply_unwidened (p : Padding) (s : String) :
    (({ p with width := none } : Padding).apply s).toList = s.toList.take (p.kept s.length) := by
  obtain ⟨before, behind, h⟩ := sets_apply { p with width := none } s
  have hroom : before + behind = 0 := h.room.trans (Nat.zero_sub _)
  obtain ⟨rfl, rfl⟩ := Nat.add_eq_zero_iff.mp hroom
  rw [h.text]
  exact List.append_nil _

/-- What is kept of a text stands within the column whatever its width. -/
lemma unwidened_within (p : Padding) (s : String) (w : Option ℕ) :
    (({ p with width := none } : Padding).apply s).toList <:+:
      (({ p with width := w } : Padding).apply s).toList := by
  obtain ⟨before, behind, h⟩ := sets_apply { p with width := w } s
  rw [toList_apply_unwidened, h.text]
  exact ⟨_, _, rfl⟩

/-- What holds of a text that is set in a column. -/
structure SetIn (p : Padding) (s : String) : Prop where
  /-- It is set so, and it could be set in no other way. -/
  sets out : out = p.apply s ↔ ∃ before behind, p.Sets s before behind out
  length : (p.apply s).length = max (p.width.getD 0) (min (p.precision.getD s.length) s.length)
  /-- A width takes nothing away. -/
  widened w : (({ p with width := none } : Padding).apply s).toList <:+:
      (({ p with width := w } : Padding).apply s).toList ∧
    (({ p with width := none } : Padding).apply s).length ≤
      (({ p with width := w } : Padding).apply s).length
  /-- A precision adds nothing. -/
  shortened n : (({ p with precision := n } : Padding).apply s).length ≤
    (({ p with precision := none } : Padding).apply s).length

/-- **Names in a column**: a stage is shown as the front of its name in a column that it fills. -/
theorem stageName_setIn (stage : Stage) (p : Padding) : p.SetIn stage.name := by
  constructor
  case sets =>
    intro out
    constructor
    · rintro rfl
      exact sets_apply p stage.name
    · rintro ⟨before, behind, h⟩
      exact h.eq
  case length => exact length_apply p stage.name
  case widened =>
    intro w
    have hwithin := p.unwidened_within stage.name w
    refine ⟨hwithin, ?_⟩
    rw [← String.length_toList, ← String.length_toList]
    exact hwithin.length_le
  case shortened =>
    intro n
    have hless : ({ p with precision := n } : Padding).kept stage.name.length ≤
        ({ p with precision := none } : Padding).kept stage.name.length := by
      have hle := ({ p with precision := n } : Padding).kept_le stage.name.length
      rwa [show ({ p with precision := none } : Padding).kept stage.name.length =
        stage.name.length from min_self _]
    rw [length_apply, length_apply]
    exact max_le_max_left _ hless

example : ({ width := some 9, precision := some 4, align := some (.centre, '*') } : Padding).apply
    Stage.install.name = "**inst***" := by decide

end PinnedBuild.Text.Padding
