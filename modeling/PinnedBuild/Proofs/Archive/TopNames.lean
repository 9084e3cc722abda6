import Mathlib
import PinnedBuild.Proofs.Archive.Production

/-!
The top-level names that extraction answers with. They are those with which the paths of unpacked
members begin, in rising order. A path that begins with a slash or a dot adds none, although its
member goes below a name in the directory as well.
-/

namespace PinnedBuild.Archive

open Files

variable {dest archive : Path} {n x : Name} {names : List Name} {m : Member} {ms : List Member}
  {w v : World} {t u : FileTree}

/-! ### Names in rising order -/

lemma mem_insertName : x ∈ insertName n names ↔ x = n ∨ x ∈ names := by
  induction names with
  | nil => simp [insertName]
  | cons y names ih =>
    unfold insertName
    split_ifs with hlt he
    · simp
    · simp [he]
    · rw [List.mem_cons, ih, List.mem_cons]
      tauto

lemma rising_insertName (h : names.Pairwise (· < ·)) : (insertName n names).Pairwise (· < ·) := by
  induction names with
  | nil => exact List.pairwise_singleton ..
  | cons y names ih =>
    obtain ⟨hy, hnames⟩ := List.pairwise_cons.mp h
    unfold insertName
    split_ifs with hlt he
    · refine List.pairwise_cons.mpr ⟨fun z hz => ?_, h⟩
      rcases List.mem_cons.mp hz with rfl | hz
      · exact hlt
      · exact List.lt_trans hlt (hy z hz)
    · exact h
    · refine List.pairwise_cons.mpr ⟨fun z hz => ?_, ih hnames⟩
      rcases mem_insertName.mp hz with rfl | hz
      · exact Std.lt_of_le_of_ne (List.not_lt.mp hlt) (Ne.symm he)
      · exact hy z hz

/-! ### What one member adds -/

/-- A member that is unpacked below the directory. Records for all members are not looked at, and a
path that leads upwards is passed over. -/
def Member.IsUnpacked (m : Member) : Prop := m.kind ≠ .globalRecords ∧ ¬ m.LeadsUp

instance (m : Member) : Decidable m.IsUnpacked := inferInstanceAs (Decidable (_ ∧ _))

/-- The name that a member adds to those found. -/
def Member.listed? (m : Member) : Option Name := if m.IsUnpacked then topName? m.path else none

/-- A name that stands first on a path is the first of the names below the directory. -/
lemma topName?_names (h : topName? m.path = some x) : [x] <+: m.names := by
  unfold topName? at h
  unfold Member.names
  split at h
  · rename_i y rest hp
    obtain rfl := Option.some.inj h
    rw [hp]
    exact ⟨rest.filterMap Path.Component.name?, rfl⟩
  · cases h

/-- Whether a member is unpacked rests on its path alone. -/
lemma Unpacking.after_member_told (dest : Path) (m : Member) (t : FileTree) :
    After (member dest m) t (fun unpacked _ => unpacked = true ↔ ¬ m.LeadsUp) fun _ _ => True := by
  rcases member_cases dest m with ⟨hup, heq⟩ | ⟨hup, -, heq⟩ | ⟨front, x, hup, -, -, -, heq⟩ <;>
    rw [heq]
  · exact after_pure (by simp [hup])
  · exact after_pure (by simp [hup])
  · refine after_bind (after_of_forall (fun _ _ => ?_) fun _ _ => trivial)
    refine after_bind (after_of_forall (fun _ _ => ?_) fun _ _ => trivial)
    exact after_bind (after_of_forall (fun _ _ => after_pure (by simp [hup])) fun _ _ => trivial)

lemma after_extractMember_listed (dest : Path) (names : List Name) (m : Member) (w : World) :
    After (extractMember dest names m) w
      (fun names' _ => names' = (m.listed?.elim names (insertName · names))) fun _ _ => True := by
  unfold extractMember Member.listed?
  split
  · rename_i hk
    refine after_pure ?_
    rw [if_neg fun h => h.1 hk]
    rfl
  · rename_i hk
    refine after_bind (Act.after_onFiles ((Unpacking.after_member_told dest m w.files).mono ?_
      fun _ _ _ => trivial))
    intro unpacked t hu
    split
    · rename_i hun
      refine after_pure ?_
      rw [if_pos ⟨hk, hu.mp hun⟩]
      rcases topName? m.path with _ | x <;> rfl
    · rename_i hun
      refine after_bind (after_of_forall (fun _ _ => after_pure ?_) fun _ _ => trivial)
      rw [if_neg fun h => hun (hu.mpr h.2)]
      rfl

/-! ### All members -/

/-- The names are in rising order, and each is that of a member that is unpacked. -/
structure Lists (ms : List Member) (names : List Name) : Prop where
  rising : names.Pairwise (· < ·)
  listed x : x ∈ names ↔ ∃ m ∈ ms, m.IsUnpacked ∧ topName? m.path = some x

lemma Lists.snoc (h : Lists ms names) (m : Member) :
    Lists (ms ++ [m]) (m.listed?.elim names (insertName · names)) := by
  have hlisted : ∀ x, m.listed? = some x ↔ m.IsUnpacked ∧ topName? m.path = some x := by
    intro x
    unfold Member.listed?
    split <;> simp_all
  rcases hm : m.listed? with _ | y
  · refine ⟨h.rising, fun x => (h.listed x).trans ?_⟩
    have hx : ¬ (m.IsUnpacked ∧ topName? m.path = some x) := by simp [← hlisted, hm]
    simp [or_and_right, exists_or, hx]
  · refine ⟨rising_insertName h.rising, fun x => mem_insertName.trans ?_⟩
    rw [h.listed]
    have hx : m.IsUnpacked ∧ topName? m.path = some x ↔ x = y := by
      rw [← hlisted, hm, Option.some.injEq, eq_comm]
    simp [or_and_right, exists_or, hx, or_comm]

lemma after_extractMembers_lists (h : Lists ms names) (more : List Member) (w : World) :
    After (more.foldlM (extractMember dest) names) w
      (fun names' _ => Lists (ms ++ more) names') fun _ _ => True := by
  induction more generalizing ms names w with
  | nil =>
    refine after_pure ?_
    rwa [List.append_nil]
  | cons m more ih =>
    rw [List.foldlM_cons]
    refine after_bind ((after_extractMember_listed dest names m w).mono ?_ fun _ _ _ => trivial)
    rintro _ v rfl
    rw [List.append_cons]
    exact ih (h.snoc m) v

/-- **Top-level names**: extraction answers with the names that the paths of unpacked members begin
with. Below each of them something was unpacked, and where something was unpacked below another
name, a slash or a dot stands at the front of its path. -/
theorem extract_lists (h : (extract archive dest).run w = (.ok names, v)) :
    ∃ feed ms, (feedOf archive).run w.files = .ok (feed, w.files) ∧ members feed = (ms, true) ∧
      Lists ms names ∧ (∀ x ∈ names, ∃ m ∈ ms, m.IsUnpacked ∧ [x] <+: m.names) ∧
      ∀ m ∈ ms, m.IsUnpacked → ∀ x, [x] <+: m.names → x ∈ names ∨ topName? m.path = none := by
  obtain ⟨feed, ms, hfeed, hms, hfold⟩ := extract_ok h
  have hnone : Lists [] [] := ⟨List.Pairwise.nil, by simp⟩
  have hlists : After (ms.foldlM (extractMember dest) []) w (fun names' _ => Lists ms names')
      fun _ _ => True := after_extractMembers_lists hnone ms w
  unfold After at hlists
  rw [hfold] at hlists
  refine ⟨feed, ms, hfeed, hms, hlists, fun x hx => ?_, fun m hm hunpacked x hx => ?_⟩
  · obtain ⟨m, hm, hunpacked, htop⟩ := (hlists.listed x).mp hx
    exact ⟨m, hm, hunpacked, topName?_names htop⟩
  · rcases htop : topName? m.path with _ | y
    · exact .inr rfl
    · -- Both names stand first on the path.
      have hxy := List.prefix_of_prefix_length_le hx (topName?_names htop) (Nat.le_refl 1)
      obtain rfl := List.singleton_inj.mp (hxy.eq_of_length rfl)
      exact .inl ((hlists.listed x).mpr ⟨m, hm, hunpacked, htop⟩)

/-- A name is listed once, however many members lie below it. -/
theorem extract_lists_twiceWritten :
    ∃ v, (extract [97] [100]).run { files := besideArchive (gzipped (written twiceWritten)) } =
        (.ok [[97], [99]], v) ∧ Lists (twiceWritten.map Entry.member) [[97], [99]] := by
  obtain ⟨v, hrun⟩ := extract_twiceWritten
  obtain ⟨feed, ms, hfeed, hms, hlists, -⟩ := extract_lists hrun
  obtain ⟨rfl, -⟩ := Prod.mk.inj (Except.ok.inj
    ((feedOf_besideArchive length_twiceWritten).symm.trans hfeed))
  obtain ⟨rfl, -⟩ := Prod.mk.inj
    ((members_besideArchive fits_twiceWritten length_twiceWritten).symm.trans hms)
  exact ⟨v, hrun, hlists⟩

/-- A file "./a/f". -/
def dotted : List Entry := [⟨[46, 47, 97, 47, 102], false, 0o644, [1]⟩]

/-- The directory "a" is made and not answered with. -/
theorem extract_unlisted :
    (∀ e ∈ dotted, e.Fits ∧ e.member.IsUnpacked ∧ [[97]] <+: e.member.names) ∧
      ∃ v, (extract [97] [100]).run { files := besideArchive (gzipped (written dotted)) } =
          (.ok [], v) ∧
        v.files.object? [[100], [97]] = some (.directory 0o755) ∧
        v.files.object? [[100], [97], [102]] = some (.file ⟨[1], 0o644⟩) := by
  have hfits : ∀ e ∈ dotted, e.Fits := by decide
  have hunpacked : ∀ e ∈ dotted, e.member.IsUnpacked ∧ [[97]] <+: e.member.names := by decide
  refine ⟨fun e he => ⟨hfits e he, hunpacked e he⟩, ?_⟩
  rw [extract_besideArchive hfits (by decide +kernel)]
  refine ⟨_, Prod.ext (ok_of_toOption (by decide +kernel)) rfl, ?_, ?_⟩
  · decide +kernel
  · decide +kernel

end PinnedBuild.Archive
