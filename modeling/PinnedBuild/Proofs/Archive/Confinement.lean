import Mathlib
import PinnedBuild.Archive.Unpack
import PinnedBuild.Proofs.Files.Operations

/-!
Unpacking changes nothing outside of the place that its directory had at first.

The directory's path may itself lead through what is unpacked. What carries the proof is that it
leads to its first place or nowhere: whatever stands on the way can be removed, but then nothing
can be put there, since nothing is put anywhere while the path leads nowhere.
-/

namespace PinnedBuild.Archive

open Files FileTree

/-- What unpacking below `root` makes of a tree. Files that were there stay as they are, wherever
they stand, and the directory's path leads to `root` or nowhere. -/
structure Kept (dest : Path) (root : Location) (t₀ t : FileTree) : Prop where
  outside : ∀ loc, ¬ root <+: loc → t.node? loc = t₀.node? loc
  files : ∀ id < t₀.files.length, t.file? id = t₀.file? id
  grown : t₀.files.length ≤ t.files.length
  sound : t.Sound
  settled : ∀ loc n, t.lookup true dest = .ok (loc, n) → loc = root

/-- Moreover some names below the directory lead to a place below `root`, or nowhere. -/
structure Held (dest : Path) (root : Location) (names : List Name) (t₀ t : FileTree) : Prop where
  kept : Kept dest root t₀ t
  inside : ∀ l n, t.lookup true (Unpacking.below dest names) = .ok (l, n) → root <+: l

variable {dest : Path} {root : Location} {names : List Name} {t₀ t u : FileTree}

lemma below_append (dest : Path) (names : List Name) (x : Name) :
    Unpacking.below dest (names ++ [x]) = (Unpacking.below dest names).join x := by
  simp [Unpacking.below]

lemma below_ne_nil (hd : dest ≠ []) (hn : ∀ x ∈ names, Plain x) :
    Unpacking.below dest names ≠ [] := by
  induction names using List.reverseRecOn with
  | nil => exact hd
  | append_singleton names x _ =>
    rw [below_append]
    intro h
    have := Path.isEmpty_join (p := Unpacking.below dest names) (hn x (by simp))
    rw [h] at this
    simp at this

/-- Names below a directory lead somewhere only if the directory does. -/
lemma lookup_of_below (hd : dest ≠ []) (hn : ∀ x ∈ names, Plain x) {l : Location} {n : Node}
    (h : t.lookup true (Unpacking.below dest names) = .ok (l, n)) :
    ∃ l n, t.lookup true dest = .ok (l, n) := by
  induction names using List.reverseRecOn generalizing l n with
  | nil => exact ⟨l, n, h⟩
  | append_singleton names x ih =>
    have hn' : ∀ x ∈ names, Plain x := fun y hy => hn y (by simp [hy])
    rw [below_append] at h
    obtain ⟨l', n', h', -⟩ := lookup_of_walk_join (below_ne_nil hd hn') (hn x (by simp))
      (lookup_ok.mp h)
    exact ih hn' h'

/-- Fewer names lead somewhere if more do. -/
lemma lookup_of_below_append {more : List Name} {l : Location} {n : Node} (hd : dest ≠ [])
    (hn : ∀ x ∈ names ++ more, Plain x)
    (hl : t.lookup true (Unpacking.below dest (names ++ more)) = .ok (l, n)) :
    ∃ l k, t.lookup true (Unpacking.below dest names) = .ok (l, k) := by
  have hnames : ∀ x ∈ names, Plain x := fun x hx => hn x (by simp [hx])
  unfold Unpacking.below at hl
  rw [List.foldl_append] at hl
  exact lookup_of_below (below_ne_nil hd hnames) (fun x hx => hn x (by simp [hx])) hl

lemma Kept.refl (ht : t.Sound) (h : ∀ loc n, t.lookup true dest = .ok (loc, n) → loc = root) :
    Kept dest root t t :=
  ⟨fun _ _ => rfl, fun _ _ => rfl, Nat.le_refl _, ht, h⟩

/-! ### A change at one place -/

/-- Something is put at one place or removed from it. A directory stays one, and files that are
there stay as they are. -/
structure Change (at_ : Location) (t u : FileTree) : Prop where
  agrees : t.Agrees u
  elsewhere loc : loc ≠ at_ → u.node? loc = t.node? loc
  files : ∀ id < t.files.length, u.file? id = t.file? id
  grown : t.files.length ≤ u.files.length
  cwd : u.cwd = t.cwd
  user : u.user = t.user
  sound : t.Sound → u.Sound

section

variable {at_ : Location} {n : Node}

lemma change_put (hm : ∀ m, t.node? at_ = some m → m.Alike n)
    (hn : t.Sound → ∀ id, n = .file id → id < t.files.length) : Change at_ t (t.put at_ n) where
  agrees := by
    intro loc m m' h h'
    rw [node?_put] at h'
    split at h'
    · subst loc
      obtain rfl := Option.some.inj h'
      exact hm m h
    · obtain rfl := Option.some.inj (h.symm.trans h')
      exact Node.Alike.refl m
  elsewhere loc hl := by rw [node?_put, if_neg hl]
  files _ _ := rfl
  grown := Nat.le_refl _
  cwd := rfl
  user := rfl
  sound ht := ht.put (hn ht)

lemma change_putFile (mode : Mode) (hm : t.node? at_ = none) :
    Change at_ t (t.putFile at_ mode).2 where
  agrees := by
    intro loc m m' h h'
    rw [node?_putFile] at h'
    split at h'
    · subst loc
      simp [hm] at h
    · obtain rfl := Option.some.inj (h.symm.trans h')
      exact Node.Alike.refl m
  elsewhere loc hl := by rw [node?_putFile, if_neg hl]
  files id hi := file?_putFile_of_lt hi
  grown := by simp [FileTree.putFile]
  cwd := rfl
  user := rfl
  sound ht := ht.putFile mode

lemma change_erase (t : FileTree) (at_ : Location) : Change at_ t (t.erase at_) where
  agrees := by
    intro loc m m' h h'
    rw [node?_erase] at h'
    split at h'
    · simp at h'
    · obtain rfl := Option.some.inj (h.symm.trans h')
      exact Node.Alike.refl m
  elsewhere loc hl := by rw [node?_erase, if_neg hl]
  files _ _ := rfl
  grown := Nat.le_refl _
  cwd := rfl
  user := rfl
  sound ht := ht.erase at_

end

/-- A change at the place of a name in the directory that a path leads to. -/
def ChangedAt (q : Path) (x : Name) (t u : FileTree) : Prop :=
  ∃ dir n, t.lookup true q = .ok (dir, n) ∧ Change (dir ++ [x]) t u

section

variable {q : Path} {x : Name} (hq : q ≠ []) (hx : Plain x)

include hq hx

lemma changedAt_missing {dir : Location} {y : Name} {n : Node}
    (hw : t.walk false (q.join x) = .ok (.missing dir y))
    (hn : t.Sound → ∀ id, n = .file id → id < t.files.length) :
    ChangedAt q x t (t.put (dir ++ [y]) n) := by
  obtain ⟨rfl, hnone, -, k, hl⟩ := missing_at hq hx hw
  exact ⟨dir, k, hl, change_put (by simp [hnone]) hn⟩

lemma changedAt_makeDirectory {y : Unit}
    (ho : (FileOp.makeDirectory (q.join x)).run t = .ok (y, u)) :
    ChangedAt q x t u ∧ ∃ l m, u.lookup false (q.join x) = .ok (l, .directory m) := by
  obtain ⟨dir, y, m, hf, -, rfl⟩ := FileOp.makeDirectory_ok ho
  have hw := (FileOp.foundBare_ok hf).2.1
  rw [FileOp.withoutSlashes_join hq hx] at hw
  exact ⟨changedAt_missing hq hx hw (by simp), dir ++ [y], FileOp.inheritedMode m,
    lookup_put (walk_fits hw) (by simp) hw⟩

lemma changedAt_removeFile {y : Unit} (ho : (FileOp.removeFile (q.join x)).run t = .ok (y, u)) :
    ChangedAt q x t u := by
  obtain ⟨l, n, hl, -, rfl⟩ := FileOp.removeFile_ok ho
  obtain ⟨dir, k, rfl, hdir⟩ := node_at hq hx hl
  exact ⟨dir, k, hdir, change_erase t _⟩

lemma changedAt_makeLink {target : Path} {y : Unit}
    (ho : (FileOp.makeLink target (q.join x)).run t = .ok (y, u)) : ChangedAt q x t u := by
  obtain ⟨dir, y, hw, rfl⟩ := FileOp.makeLink_ok ho
  exact changedAt_missing hq hx hw (by simp)

lemma changedAt_hardLink {source : Path} {y : Unit}
    (ho : (FileOp.hardLink source (q.join x)).run t = .ok (y, u)) : ChangedAt q x t u := by
  obtain ⟨l, n, dir, y, hs, -, hw, rfl⟩ := FileOp.hardLink_ok ho
  refine changedAt_missing hq hx hw fun ht id hid => ?_
  subst hid
  exact ht _ _ (lookup_node hs)

lemma changedAt_createNew {f : Handle}
    (ho : (FileOp.createNew (q.join x)).run t = .ok (f, u)) :
    ChangedAt q x t u ∧ f = .file t.files.length := by
  obtain ⟨dir, y, hw, rfl, rfl⟩ := FileOp.createNew_ok ho
  obtain ⟨rfl, hnone, -, k, hl⟩ := missing_at hq hx hw
  exact ⟨⟨dir, k, hl, change_putFile _ hnone⟩, rfl⟩

/-- Permissions are set of a directory that stands there itself. -/
lemma changedAt_changeMode {mode m : Mode} {y : Unit} {l : Location}
    (hl : t.lookup false (q.join x) = .ok (l, .directory m))
    (ho : (FileOp.changeMode (q.join x) mode).run t = .ok (y, u)) : ChangedAt q x t u := by
  obtain ⟨l', n', hl', hc⟩ := FileOp.changeMode_ok ho
  obtain ⟨rfl, rfl⟩ := lookup_unique hl' (lookup_follow (by simp) hl)
  obtain ⟨dir, k, rfl, hdir⟩ := node_at hq hx hl
  rcases hc with ⟨-, rfl⟩ | hc
  · refine ⟨dir, k, hdir, change_put (fun m' hm' => ?_) (by simp)⟩
    obtain rfl := Option.some.inj ((lookup_node hl).symm.trans hm')
    trivial
  · exact absurd rfl (hc m)

end

/-! ### Changes below the directory -/

/-- What is put in a directory below `root` stands below it. -/
lemma Held.changedAt {x : Name} (hd : dest ≠ []) (hn : ∀ x ∈ names, Plain x)
    (h : Held dest root names t₀ t) (hc : ChangedAt (Unpacking.below dest names) x t u) :
    Held dest root names t₀ u := by
  obtain ⟨dir, n, hq, hc⟩ := hc
  have hin : root <+: dir ++ [x] := (h.inside dir n hq).trans (List.prefix_append _ _)
  constructor
  case kept =>
    constructor
    case outside =>
      intro loc hl
      have hne : loc ≠ dir ++ [x] := fun he => hl (he ▸ hin)
      exact (hc.elsewhere loc hne).trans (h.kept.outside loc hl)
    case files =>
      exact fun id hi =>
        (hc.files id (lt_of_lt_of_le hi h.kept.grown)).trans (h.kept.files id hi)
    case grown => exact le_trans h.kept.grown hc.grown
    case sound => exact hc.sound h.kept.sound
    case settled =>
      intro loc m hu
      obtain ⟨l', n', hl'⟩ := lookup_of_below hd hn hq
      rw [← lookup_agrees hc.agrees hc.cwd hl' hu]
      exact h.kept.settled l' n' hl'
  case inside =>
    intro l' n' hu
    rw [← lookup_agrees hc.agrees hc.cwd hq hu]
    exact h.inside dir n hq

/-- A file that was not there at first may be changed. -/
lemma Held.modifyFile (h : Held dest root names t₀ t) {id : Nat} (hi : t₀.files.length ≤ id)
    (f : File → File) : Held dest root names t₀ (t.modifyFile id f) where
  kept :=
    { outside := h.kept.outside
      files := by
        intro id' hi'
        rw [file?_modifyFile_of_ne (by omega)]
        exact h.kept.files id' hi'
      grown := by simpa [FileTree.modifyFile] using h.kept.grown
      sound := h.kept.sound.modifyFile id f
      settled := fun loc n hl =>
        h.kept.settled loc n
          (lookup_extends (t := t.modifyFile id f) ⟨rfl, fun _ _ hn => hn⟩ rfl hl) }
  inside l n hl :=
    h.inside l n (lookup_extends (t := t.modifyFile id f) ⟨rfl, fun _ _ hn => hn⟩ rfl hl)

end PinnedBuild.Archive
