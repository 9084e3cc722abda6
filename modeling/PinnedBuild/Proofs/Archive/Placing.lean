import Mathlib
import PinnedBuild.Proofs.Archive.Layout
import PinnedBuild.Proofs.Archive.FailedExtraction
import PinnedBuild.Proofs.Files.ChangedPermissions

/-!
What a member comes to at its own place, and what it comes to there in another tree that has all
that the first one has: the same, unless a directory on the way lets the user do less.
-/

namespace PinnedBuild.Archive

open Files FileTree

variable {α : Type} {q p : Path} {x : Name} {at_ dir loc : Location} {o : Object} {n : Node}
  {t u s v : FileTree} {id : Nat} {m : Member}

/-! ### What is put at a place -/

/-- Something is put at one place, and nothing else changes. A directory is only put where nothing
or a directory was, and anything else only where no directory was. -/
structure Planted (at_ : Location) (o : Object) (t u : FileTree) : Prop
    extends SameElsewhere at_ t u where
  here : u.object? at_ = some o
  sound : t.Sound → u.Sound
  fresh id : u.node? at_ = some (.file id) → t.files.length ≤ id
  turns n : t.node? at_ = some n → ((∃ k, n = .directory k) ↔ ∃ k, o = .directory k)

lemma SameElsewhere.object?_of_ne (h : SameElsewhere at_ t u) (hs : t.Sound) (hne : loc ≠ at_) :
    u.object? loc = t.object? loc :=
  object?_congr (h.node loc hne) fun id hn => h.files id (hs loc id hn)

lemma sameElsewhere_put (t : FileTree) (at_ : Location) (n : Node) :
    SameElsewhere at_ t (t.put at_ n) where
  node loc hl := by rw [node?_put, if_neg hl]
  files _ _ := rfl
  grown := Nat.le_refl _
  cwd := rfl
  user := rfl

lemma planted_directory {k : Mode} (h : ∀ n, t.node? at_ = some n → ∃ k, n = .directory k) :
    Planted at_ (.directory k) t (t.put at_ (.directory k)) where
  toSameElsewhere := sameElsewhere_put ..
  here := by rw [object?_put_directory, if_pos rfl]
  sound hs := hs.put (by simp)
  fresh id hn := by
    rw [node?_put, if_pos rfl] at hn
    cases hn
  turns n hn := iff_of_true (h n hn) ⟨k, rfl⟩

lemma planted_link {target : Path} (h : ∀ k, t.node? at_ ≠ some (.directory k)) :
    Planted at_ (.link target) t (t.put at_ (.link target)) where
  toSameElsewhere := sameElsewhere_put ..
  here := by
    unfold object?
    rw [node?_put, if_pos rfl]
  sound hs := hs.put (by simp)
  fresh id hn := by
    rw [node?_put, if_pos rfl] at hn
    cases hn
  turns n hn := iff_of_false (fun ⟨k, hk⟩ => h k (hk ▸ hn)) (by simp)

lemma planted_file {mode : Mode} (h : ∀ k, t.node? at_ ≠ some (.directory k)) :
    Planted at_ (.file ⟨[], mode⟩) t (t.putFile at_ mode).2 where
  node loc hl := by rw [node?_putFile, if_neg hl]
  files id hi := file?_putFile_of_lt hi
  grown := by simp [FileTree.putFile]
  cwd := rfl
  user := rfl
  here := by
    unfold object?
    rw [node?_putFile, if_pos rfl]
    simp [file?, FileTree.putFile]
  sound hs := hs.putFile mode
  fresh id hn := by
    rw [node?_putFile, if_pos rfl] at hn
    exact le_of_eq (Node.file.inj (Option.some.inj hn))
  turns n hn := iff_of_false (fun ⟨k, hk⟩ => h k (hk ▸ hn)) (by simp)

/-- The new file is changed. -/
lemma Planted.modifyFile {f : File} (h : Planted at_ (.file f) t u)
    (hn : u.node? at_ = some (.file id)) (change : File → File) :
    Planted at_ (.file (change f)) t (u.modifyFile id change) where
  node := h.node
  files id' hi := by
    have hid := h.fresh id hn
    rw [file?_modifyFile_of_ne (by omega)]
    exact h.files id' hi
  grown := by simpa [FileTree.modifyFile] using h.grown
  cwd := h.cwd
  user := h.user
  here := by
    obtain ⟨id', hid, hfile⟩ := node?_of_object?_file h.here
    obtain rfl := Node.file.inj (Option.some.inj (hn.symm.trans hid))
    unfold object?
    rw [node?_modifyFile, hn]
    simp only
    rw [FileOp.file?_modifyFile hfile]
    rfl
  sound hs := (h.sound hs).modifyFile id change
  fresh := h.fresh
  turns n hn' := by simpa using h.turns n hn'

/-! ### What stands in the way is replaced -/

/-- An operation that makes something at a path where nothing is. What it makes does not depend on
what was at the place before. -/
structure Makes (o : FileOp α) (p : Path) (made : FileTree → Location → α × FileTree) : Prop where
  run t : o.run t = match t.walk false p with
    | .error e => .error e
    | .ok (.node _ _) => .error .exists
    | .ok (.missing dir y) => ((FileOp.needWritable dir).run t).map fun _ => made t (dir ++ [y])
  erased t at_ : made (t.erase at_) at_ = made t at_

lemma makes_createNew (p : Path) : Makes (FileOp.createNew p) p fun t at_ =>
    (.file t.files.length, (t.putFile at_ newFileMode).2) where
  run t := by
    unfold FileOp.createNew
    rw [FileOp.run_bind, FileOp.run_found]
    rcases t.walk false p with e | (⟨l, n⟩ | ⟨dir, y⟩)
    · rfl
    · rfl
    · simp only [Except.map, FileOp.addFile, FileOp.run_bind]
      rcases hw : (FileOp.needWritable dir).run t with e | ⟨y, u⟩
      · rfl
      · obtain ⟨rfl, -⟩ := FileOp.needWritable_ok hw
        rfl
  erased t at_ := by
    rw [erase_putFile]
    rfl

lemma makes_makeLink {target : Path} (h : Usable target) (p : Path) :
    Makes (FileOp.makeLink target p) p fun t at_ => ((), t.put at_ (.link target)) where
  run t := by
    unfold FileOp.makeLink
    have hshort := h.short
    rw [if_neg (by simpa using h.noZero), if_neg (by simpa using h.notEmpty), if_neg (by omega)]
    rw [FileOp.run_bind, FileOp.run_found]
    rcases t.walk false p with e | (⟨l, n⟩ | ⟨dir, y⟩)
    · rfl
    · rfl
    · simp only [Except.map, FileOp.run_bind]
      rcases hw : (FileOp.needWritable dir).run t with e | ⟨y, u⟩
      · rfl
      · obtain ⟨rfl, -⟩ := FileOp.needWritable_ok hw
        rfl
  erased t at_ := by rw [erase_put]

/-- What a link must be for its making to succeed. -/
lemma usable_of_makeLink {target : Path} {y : Unit}
    (h : (FileOp.makeLink target p).run t = .ok (y, u)) : Usable target := by
  unfold FileOp.makeLink at h
  split at h
  · cases h
  split at h
  · cases h
  split at h
  · cases h
  exact ⟨by simp_all, by simp_all, by omega⟩

/-- A name in a directory that something other than a directory can be put at, even if something is
there that has to be removed first. The path leads to the directory without it, too. -/
structure Open (q : Path) (x : Name) (dir : Location) (t : FileTree) : Prop where
  leads : ∃ n, (t.erase (dir ++ [x])).lookup true q = .ok (dir, n)
  lets : (FileOp.needWritable dir).run t = .ok ((), t)
  clear k : t.node? (dir ++ [x]) ≠ some (.directory k)
  usable : Usable (q.join x)
  short : x.length ≤ maxName

lemma Open.lookup (h : Open q x dir t) : ∃ n, t.lookup true q = .ok (dir, n) := by
  obtain ⟨n, hn⟩ := h.leads
  exact ⟨n, lookup_extends (erase_extends t _) rfl hn⟩

/-- Unpacking is refused, since there is a directory that lets the user do less. -/
def Refuses (t s : FileTree) (e : UnpackError) (_ : FileTree) : Prop :=
  e = .file .accessDenied ∧ t.Tightened s

/-- What a member puts at its place, if it puts anything there whatever is there already. -/
def Member.object? (m : Member) : Option Object :=
  match m.kind with
  | .file => some (.file ⟨m.content, m.mode.getD newFileMode⟩)
  | .directory => m.mode.map .directory
  | .symbolicLink => m.link.map .link
  | _ => none

/-- What a member leaves at its place. -/
inductive Leaves (at_ : Location) (m : Member) (t u : FileTree) : Prop
  | planted {o : Object} : m.object? = some o → Planted at_ o t u → Leaves at_ m t u
  | kept : m.object? = none → m.kind ≠ .symbolicLink →
      (m.kind = .directory → ∃ k, t.node? at_ = some (.directory k)) → u = t → Leaves at_ m t u
  /-- A directory without permissions of its own is made only where nothing is. -/
  | made {k : Mode} : m.kind = .directory → m.mode = none → t.node? at_ = none →
      Planted at_ (.directory k) t u → Leaves at_ m t u

/-- What is there already is of the kind that the member has. -/
def Suits (m : Member) (at_ : Location) (s : FileTree) : Prop :=
  (m.kind = .directory → ∃ k, s.node? at_ = some (.directory k)) ∧
    (m.kind = .file ∨ m.kind = .symbolicLink → ∀ k, s.node? at_ ≠ some (.directory k))

/-- As much is there as there should be. -/
def Segment.IsWhole : Segment → Prop
  | .hole _ => True
  | .data expected bytes => bytes.length = expected

namespace Unpacking

section

variable {o : FileOp α} {made : FileTree → Location → α × FileTree} {y : α}
  (ho : Makes o (q.join x) made) (hq : q ≠ []) (hx : Plain x)

include ho hq hx

lemma open_of_makes (h : o.run t = .ok (y, u)) :
    ∃ dir, t.node? (dir ++ [x]) = none ∧ Open q x dir t ∧ (y, u) = made t (dir ++ [x]) := by
  rw [ho.run] at h
  rcases hw : t.walk false (q.join x) with e | (⟨l, n⟩ | ⟨dir, z⟩) <;> rw [hw] at h
  · cases h
  · cases h
  obtain ⟨rfl, hnone, -, n, hdir⟩ := missing_at hq hx hw
  rcases hlets : (FileOp.needWritable dir).run t with e | ⟨z, u'⟩ <;>
    simp only [hlets, Except.map] at h
  · cases h
  obtain ⟨rfl, -⟩ := FileOp.needWritable_ok hlets
  obtain ⟨l, n', hdir', hlast⟩ := walk_join_ok hq hx hw
  have hshort := (last_ok hlast).2.1
  refine ⟨dir, hnone, ⟨⟨n, ?_⟩, hlets, by simp [hnone], (walk_ok hw).1, hshort⟩,
    (Except.ok.inj h).symm⟩
  exact lookup_extends (extends_erase hnone) rfl hdir

/-- What has succeeded has found the name open. -/
lemma after_replace_open : After (replace o (q.join x)) t
    (fun y u => ∃ dir, Open q x dir t ∧ (y, u) = made t (dir ++ [x])) fun _ _ => True := by
  refine after_replace (fun _ => trivial) (fun _ _ _ _ => trivial) (fun y u hu => ?_) ?_
  · obtain ⟨dir, -, hopen, hmade⟩ := open_of_makes ho hq hx hu
    exact ⟨dir, hopen, hmade⟩
  · rintro _ _ hgone y v hv
    obtain ⟨l, n, hl, hclear, rfl⟩ := FileOp.removeFile_ok hgone
    obtain ⟨dir, n', rfl, hdir⟩ := node_at hq hx hl
    obtain ⟨dir', -, hopen, hmade⟩ := open_of_makes ho hq hx hv
    -- The directory is where it was before something in it was removed.
    obtain ⟨k, hk⟩ := hopen.lookup
    have hsame := lookup_extends (erase_extends t _) rfl hk
    obtain rfl : dir = dir' := (lookup_unique hdir hsame).1
    have hlets := hopen.lets
    rw [FileOp.run_needWritable_erase] at hlets
    refine ⟨dir, ⟨⟨k, hk⟩, ?_, fun g hg => ?_, hopen.usable, hopen.short⟩,
      hmade.trans (ho.erased ..)⟩
    · rcases hw : (FileOp.needWritable dir).run t with e | ⟨z, u'⟩ <;> rw [hw] at hlets
      · cases hlets
      · obtain ⟨rfl, -⟩ := FileOp.needWritable_ok hw
        rfl
    · exact hclear g (Option.some.inj ((lookup_node hl).symm.trans hg))

/-- In a tree that has all that the first one has it succeeds again. -/
lemma replace_again (h : Open q x dir t) (hs : t.EchoedBy s) {k : Node}
    (hdir : s.lookup true q = .ok (dir, k))
    (hclear : ∀ g, s.node? (dir ++ [x]) ≠ some (.directory g)) :
    After (replace o (q.join x)) s (fun y v => (y, v) = made s (dir ++ [x])) (Refuses t s) := by
  have hmade : ∀ {s' y v}, s'.Extends s → s'.cwd = s.cwd → o.run s' = .ok (y, v) →
      (y, v) = made s' (dir ++ [x]) := by
    intro s' y v hext hcwd hv
    obtain ⟨dir', -, hopen, hmade⟩ := open_of_makes ho hq hx hv
    obtain ⟨k', hk'⟩ := hopen.lookup
    have hsame := lookup_extends hext hcwd.symm hk'
    obtain rfl : dir = dir' := (lookup_unique hdir hsame).1
    exact hmade
  have hlets := FileOp.needWritable_echo hs h.lets
  obtain ⟨g, hg, hruns, hwrites⟩ := FileOp.needWritable_lets h.lets
  refine after_tryCatch
    (after_op (fun y v hv => hmade ⟨rfl, fun _ _ hn => hn⟩ rfl hv) fun e he => ?_)
  rw [ho.run, walk_join hx hdir h.usable] at he
  rcases searchable_echo hs (searchable_of_node hg hruns) with hsearch | ⟨hsearch, htight⟩
  swap
  · rw [last_error x hsearch] at he
    obtain rfl := Except.error.inj he
    exact after_throw ⟨rfl, htight⟩
  rcases hn : s.node? (dir ++ [x]) with _ | n
  · rw [last_missing hsearch h.short hn] at he
    rcases hlets with hlets | ⟨hlets, htight⟩ <;> simp only [hlets] at he
    · cases he
    · obtain rfl := Except.error.inj he
      exact after_throw ⟨rfl, htight⟩
  · rw [last_node hsearch h.short hn] at he
    obtain rfl := Except.error.inj he
    have hl : s.lookup false (q.join x) = .ok (dir ++ [x], n) := by
      rw [lookup_ok, walk_join hx hdir h.usable, last_node hsearch h.short hn]
    have hremove := FileOp.run_removeFile hl fun k hk => hclear k (hk ▸ hn)
    rw [List.dropLast_concat] at hremove
    rcases hlets with hlets | ⟨hlets, htight⟩ <;> rw [hlets] at hremove
    swap
    · exact after_bind (after_op_error hremove ⟨rfl, htight⟩)
    refine after_bind (after_op_ok hremove (after_op (fun y v hv => ?_) fun e' he' => ?_))
    · exact (hmade (erase_extends s _) rfl hv).trans (ho.erased ..)
    · -- Nothing is in the way now, so that the path itself must lead nowhere.
      obtain ⟨k', hleads⟩ := h.leads
      rw [ho.run] at he'
      rcases lookup_echo (hs.erase _) hleads with ⟨n', hdir', -⟩ | ⟨hdir', htight⟩
      · have hne : dir ≠ dir ++ [x] := by simp
        have hsearch' : (s.erase (dir ++ [x])).searchable dir = .ok () := by
          unfold searchable at hsearch ⊢
          rwa [node?_erase, if_neg hne]
        have hgone : (s.erase (dir ++ [x])).node? (dir ++ [x]) = none := by
          rw [node?_erase, if_pos rfl]
        rw [walk_join hx hdir' h.usable, last_missing hsearch' h.short hgone] at he'
        simp only [FileOp.run_needWritable_erase, hlets] at he'
        cases he'
      · rw [walk_join_of_error hq hx h.usable hdir'] at he'
        obtain rfl := Except.error.inj he'
        exact ⟨rfl, htight.of_erase⟩

end

/-! ### Files -/

lemma after_writeSegments (id : Nat) (body : List Segment) :
    After (body.forM (writeSegment (.file id))) t
      (fun _ u => u = t.append id (body.flatMap Segment.bytes) ∧ ∀ s ∈ body, s.IsWhole)
      fun _ _ => ¬ ∀ s ∈ body, s.IsWhole := by
  induction body generalizing t with
  | nil => exact after_pure ⟨(append_nil t id).symm, by simp⟩
  | cons s body ih =>
    have hrest : ∀ u, u = t.append id s.bytes → s.IsWhole →
        After (body.forM (writeSegment (.file id))) u
          (fun _ u => u = t.append id ((s :: body).flatMap Segment.bytes) ∧
            ∀ s' ∈ s :: body, s'.IsWhole)
          fun _ _ => ¬ ∀ s' ∈ s :: body, s'.IsWhole := by
      rintro u rfl hs
      refine ih.mono ?_ fun _ _ hno hall => hno fun s' hs' => hall s' (by simp [hs'])
      rintro _ v ⟨rfl, hall⟩
      refine ⟨by rw [append_append, List.flatMap_cons], ?_⟩
      simpa using ⟨hs, hall⟩
    rcases s with n | ⟨expected, bytes⟩
    · refine after_bind (after_op (fun _ u hu => ?_) fun e he => by cases he)
      exact hrest u (FileOp.write_file_ok hu) trivial
    · refine after_bind (after_bind (after_op (fun _ u hu => ?_) fun e he => by cases he))
      split
      · exact after_pure (hrest u (FileOp.write_file_ok hu) (by assumption))
      · exact after_throw fun hall => absurd (hall _ (List.mem_cons_self ..)) (by assumption)

/-- An empty file that has been put somewhere is filled. -/
lemma after_fill (h : Planted at_ (.file ⟨[], newFileMode⟩) t u)
    (hn : u.node? at_ = some (.file id)) (m : Member) :
    After (do m.body.forM (writeSegment (.file id)); setPermissions (.file id) m.mode) u
      (fun _ v => Planted at_ (.file ⟨m.content, m.mode.getD newFileMode⟩) t v ∧
        ∀ s ∈ m.body, s.IsWhole)
      fun _ _ => ¬ ∀ s ∈ m.body, s.IsWhole := by
  refine after_bind ((after_writeSegments id m.body).mono ?_ fun _ _ hno => hno)
  rintro _ v ⟨rfl, hwhole⟩
  have hfilled : Planted at_ (.file ⟨m.content, newFileMode⟩) t (u.append id m.content) :=
    h.modifyFile hn fun f => { f with content := f.content ++ m.content }
  unfold setPermissions
  split
  · rename_i mode hmode
    refine after_op (fun _ v hv => ?_) fun e he => by cases he
    rw [FileOp.setMode_file_ok hv, hmode]
    exact ⟨hfilled.modifyFile hn fun f => { f with mode := mode }, hwhole⟩
  · rename_i hmode
    rw [hmode]
    exact after_pure ⟨hfilled, hwhole⟩

variable (hq : q ≠ []) (hx : Plain x)

include hq hx

lemma after_file_open (m : Member) : After (file m (q.join x)) t
    (fun _ u => (∃ dir, Open q x dir t ∧
      Planted (dir ++ [x]) (.file ⟨m.content, m.mode.getD newFileMode⟩) t u) ∧
      ∀ s ∈ m.body, s.IsWhole) fun _ _ => True := by
  refine after_bind ((after_replace_open (makes_createNew _) hq hx).mono ?_ fun _ _ _ => trivial)
  rintro handle u ⟨dir, hopen, hmade⟩
  obtain ⟨rfl, rfl⟩ := Prod.mk.inj hmade
  have hnode : (t.putFile (dir ++ [x]) newFileMode).2.node? (dir ++ [x]) =
      some (.file t.files.length) := by rw [node?_putFile, if_pos rfl]
  refine (after_fill (planted_file hopen.clear) hnode m).mono ?_ fun _ _ _ => trivial
  exact fun _ v ⟨hv, hwhole⟩ => ⟨⟨dir, hopen, hv⟩, hwhole⟩

lemma file_again (h : Open q x dir t) (hs : t.EchoedBy s) {k : Node}
    (hdir : s.lookup true q = .ok (dir, k))
    (hclear : ∀ g, s.node? (dir ++ [x]) ≠ some (.directory g))
    (hwhole : ∀ s ∈ m.body, s.IsWhole) :
    After (file m (q.join x)) s
      (fun _ v => Planted (dir ++ [x]) (.file ⟨m.content, m.mode.getD newFileMode⟩) s v)
      (Refuses t s) := by
  refine after_bind ((replace_again (makes_createNew _) hq hx h hs hdir hclear).mono ?_
    fun _ _ he => he)
  intro handle u hmade
  obtain ⟨rfl, rfl⟩ := Prod.mk.inj hmade
  have hnode : (s.putFile (dir ++ [x]) newFileMode).2.node? (dir ++ [x]) =
      some (.file s.files.length) := by rw [node?_putFile, if_pos rfl]
  exact (after_fill (planted_file hclear) hnode m).mono (fun _ _ hv => hv.1)
    fun _ _ hno => absurd hwhole hno

/-! ### Links -/

lemma after_symbolicLink_open (m : Member) : After (symbolicLink m (q.join x)) t
    (fun _ u => ∃ target dir, m.link = some target ∧ Usable target ∧ Open q x dir t ∧
      Planted (dir ++ [x]) (.link target) t u) fun _ _ => True := by
  have hmake : ∀ target, m.link = some target →
      After (replace (FileOp.makeLink target (q.join x)) (q.join x)) t
        (fun _ u => ∃ target dir, m.link = some target ∧ Usable target ∧ Open q x dir t ∧
          Planted (dir ++ [x]) (.link target) t u) fun _ _ => True := by
    intro target hlink
    by_cases hu : Usable target
    · refine (after_replace_open (makes_makeLink hu _) hq hx).mono ?_ fun _ _ _ => trivial
      rintro _ u ⟨dir, hopen, hmade⟩
      obtain ⟨-, rfl⟩ := Prod.mk.inj hmade
      exact ⟨target, dir, hlink, hu, hopen, planted_link hopen.clear⟩
    · exact after_replace (fun _ => trivial) (fun _ _ _ _ => trivial)
        (fun _ _ hmade => absurd (usable_of_makeLink hmade) hu)
        fun _ _ _ _ _ hmade => absurd (usable_of_makeLink hmade) hu
  unfold symbolicLink linkName
  split
  · exact after_bind (after_throw trivial)
  · exact after_bind (after_throw trivial)
  · exact after_bind (after_pure (hmake _ (by assumption)))

lemma symbolicLink_again (h : Open q x dir t) (hs : t.EchoedBy s) {k : Node}
    (hdir : s.lookup true q = .ok (dir, k))
    (hclear : ∀ g, s.node? (dir ++ [x]) ≠ some (.directory g))
    {target : Path} (hlink : m.link = some target) (hu : Usable target) :
    After (symbolicLink m (q.join x)) s
      (fun _ v => Planted (dir ++ [x]) (.link target) s v) (Refuses t s) := by
  have hname : linkName m = pure target := by
    unfold linkName
    rw [hlink]
    rcases target with _ | ⟨b, rest⟩
    · exact absurd rfl hu.notEmpty
    · rfl
  unfold symbolicLink
  rw [hname, pure_bind]
  refine (replace_again (makes_makeLink hu _) hq hx h hs hdir hclear).mono ?_ fun _ _ he => he
  intro _ u hmade
  obtain ⟨-, rfl⟩ := Prod.mk.inj hmade
  exact planted_link hclear

/-! ### Directories -/

omit hq hx in
/-- Permissions are set if there are any. -/
lemma after_directoryMode (m : Member) {k : Mode} (hl : t.lookup true p = .ok (at_, .directory k)) :
    After (match m.mode with
      | some mode => op (FileOp.changeMode p mode)
      | none => pure ()) t
      (fun _ u => m.mode = none ∧ u = t ∨
        ∃ mode, m.mode = some mode ∧ u = t.put at_ (.directory mode))
      fun _ _ => False := by
  split
  · rename_i mode hmode
    have hchange : (FileOp.changeMode p mode).run t = .ok ((), t.put at_ (.directory mode)) := by
      unfold FileOp.changeMode
      rw [FileOp.run_bind, FileOp.run_lookup, hl]
      rfl
    exact after_op_ok hchange (.inr ⟨mode, hmode, rfl⟩)
  · exact after_pure (.inl ⟨by assumption, rfl⟩)

/-- A directory is made where nothing is, or is there already. It gets the permissions that the
member has. -/
structure Opened (dir : Location) (x : Name) (q : Path) (m : Member) (t u : FileTree) : Prop where
  leads : ∃ n, t.lookup true q = .ok (dir, n)
  searched : t.searchable dir = .ok ()
  usable : Usable (q.join x)
  short : x.length ≤ maxName
  left : (t.node? (dir ++ [x]) = none ∧ m.mode = none ∧
      ∃ k, Planted (dir ++ [x]) (.directory k) t u) ∨
    ((∃ k, t.node? (dir ++ [x]) = some (.directory k)) ∧ m.mode = none ∧ u = t) ∨
    ∃ mode, m.mode = some mode ∧ Planted (dir ++ [x]) (.directory mode) t u

lemma after_directory_opened (m : Member) : After (directory m (q.join x)) t
    (fun _ u => ∃ dir, Opened dir x q m t u) fun _ _ => True := by
  refine after_bind (after_tryCatch (after_op ?_ fun e _ => after_bind (after_get ?_)))
  · intro _ u hu
    obtain ⟨dir, y, g, hf, -, rfl⟩ := FileOp.makeDirectory_ok hu
    have hw := (FileOp.foundBare_ok hf).2.1
    rw [FileOp.withoutSlashes_join hq hx] at hw
    obtain ⟨rfl, hnone, hsearch, n, hdir⟩ := missing_at hq hx hw
    have hnew : ∀ {k}, Planted (dir ++ [y]) (.directory k) t (t.put (dir ++ [y]) (.directory k)) :=
      planted_directory (by simp [hnone])
    have hl := lookup_follow (by simp)
      (lookup_put (n := .directory (FileOp.inheritedMode g)) hnone (by simp) hw)
    refine (after_directoryMode m hl).mono ?_ fun _ _ hno => hno.elim
    intro _ v hv
    refine ⟨dir, ⟨n, hdir⟩, hsearch, (walk_ok hw).1, short_of_walk_join hq hx hw, ?_⟩
    rcases hv with ⟨hmode, rfl⟩ | ⟨mode, hmode, rfl⟩
    · exact .inl ⟨hnone, hmode, _, hnew⟩
    · rw [put_put]
      exact .inr (.inr ⟨mode, hmode, hnew⟩)
  · split
    · rename_i l k hl
      split
      · obtain ⟨dir, n, hdir, hsearch⟩ := lookup_of_walk_join hq hx (lookup_ok.mp hl)
        have hat := lookup_node hl
        obtain ⟨dir', n', rfl, hdir'⟩ := node_at hq hx hl
        obtain rfl : dir = dir' := (lookup_unique hdir hdir').1
        refine after_pure ((after_directoryMode m (lookup_follow (by simp) hl)).mono ?_
          fun _ _ hno => hno.elim)
        intro _ v hv
        refine ⟨dir, ⟨n, hdir⟩, hsearch, (walk_ok (lookup_ok.mp hl)).1,
          short_of_walk_join hq hx (lookup_ok.mp hl), ?_⟩
        rcases hv with ⟨hmode, rfl⟩ | ⟨mode, hmode, rfl⟩
        · exact .inr (.inl ⟨⟨k, hat⟩, hmode, rfl⟩)
        · refine .inr (.inr ⟨mode, hmode, planted_directory fun n hn => ⟨k, ?_⟩⟩)
          exact Option.some.inj (hn.symm.trans hat)
      · exact after_throw trivial
    · exact after_throw trivial

lemma directory_again (h : Opened dir x q m t u) (hs : t.EchoedBy s) {k : Node} {g : Mode}
    (hdir : s.lookup true q = .ok (dir, k)) (hat : s.node? (dir ++ [x]) = some (.directory g)) :
    After (directory m (q.join x)) s
      (fun _ v => m.mode = none ∧ v = s ∨
        ∃ mode, m.mode = some mode ∧ Planted (dir ++ [x]) (.directory mode) s v)
      (Refuses t s) := by
  rcases searchable_echo hs h.searched with hsearch | ⟨hsearch, htight⟩
  · have hw : s.walk false (q.join x) = .ok (.node (dir ++ [x]) (.directory g)) := by
      rw [walk_join hx hdir h.usable, last_node hsearch h.short hat]
    have hmake := FileOp.run_makeDirectory_exists h.usable
      (by rwa [FileOp.withoutSlashes_join hq hx])
    have hl := lookup_ok.mpr hw
    refine after_bind (after_tryCatch (after_op_error hmake (after_bind (after_get ?_))))
    rw [hl]
    refine after_pure ((after_directoryMode m (lookup_follow (by simp) hl)).mono ?_
      fun _ _ hno => hno.elim)
    rintro _ v (⟨hmode, rfl⟩ | ⟨mode, hmode, rfl⟩)
    · exact .inl ⟨hmode, rfl⟩
    · refine .inr ⟨mode, hmode, planted_directory fun n hn => ⟨g, ?_⟩⟩
      exact Option.some.inj (hn.symm.trans hat)
  · have hw : s.walk false (q.join x) = .error .accessDenied := by
      rw [walk_join hx hdir h.usable, last_error x hsearch]
    have hmake := FileOp.run_makeDirectory_denied hq hx h.usable hw
    have hl : s.lookup false (q.join x) = .error .accessDenied := by
      unfold FileTree.lookup
      rw [hw]
      rfl
    refine after_bind (after_tryCatch (after_op_error hmake (after_bind (after_get ?_))))
    rw [hl]
    exact after_throw ⟨rfl, htight⟩

/-! ### Members of any kind -/

/-- What a member leaves at its place. In a tree that has all that this one has it leaves the same
there once more. -/
lemma after_become_again (hk : m.kind ≠ .hardLink) (dest : Path)
    (hdir : t.lookup true q = .ok (dir, n)) :
    After (become m dest (q.join x)) t
      (fun _ u => Leaves (dir ++ [x]) m t u ∧
        ∀ s k, t.EchoedBy s → s.lookup true q = .ok (dir, k) → Suits m (dir ++ [x]) s →
          After (become m dest (q.join x)) s
            (fun _ v => Leaves (dir ++ [x]) m s v) (Refuses t s))
      fun _ _ => True := by
  have hsame : ∀ {dir'}, (∃ n', t.lookup true q = .ok (dir', n')) → dir' = dir := by
    rintro dir' ⟨n', hdir'⟩
    exact (lookup_unique hdir' hdir).1
  unfold become
  cases hkind : m.kind with
  | file =>
    refine (after_file_open hq hx m).mono ?_ fun _ _ _ => trivial
    rintro _ u ⟨⟨dir', hopen, hu⟩, hwhole⟩
    obtain rfl := hsame hopen.lookup
    refine ⟨.planted (by simp [Member.object?, hkind]) hu, fun s k hs hdir' hsuits => ?_⟩
    exact (file_again hq hx hopen hs hdir' (hsuits.2 (.inl hkind)) hwhole).mono
      (fun _ v hv => .planted (by simp [Member.object?, hkind]) hv) fun _ _ he => he
  | directory =>
    have hobject : m.object? = m.mode.map .directory := by simp [Member.object?, hkind]
    refine (after_directory_opened hq hx m).mono ?_ fun _ _ _ => trivial
    rintro _ u ⟨dir', hu⟩
    obtain rfl := hsame hu.leads
    refine ⟨?_, fun s k hs hdir' hsuits => ?_⟩
    · rcases hu.left with ⟨hnew, hmode, g, hu⟩ | ⟨hold, hmode, rfl⟩ | ⟨mode, hmode, hu⟩
      · exact .made hkind hmode hnew hu
      · exact .kept (by simp [hobject, hmode]) (by simp [hkind]) (fun _ => hold) rfl
      · exact .planted (by simp [hobject, hmode]) hu
    · obtain ⟨g, hg⟩ := hsuits.1 hkind
      refine (directory_again hq hx hu hs hdir' hg).mono ?_ fun _ _ he => he
      rintro _ v (⟨hmode, rfl⟩ | ⟨mode, hmode, hv⟩)
      · exact .kept (by simp [hobject, hmode]) (by simp [hkind]) (fun _ => ⟨g, hg⟩) rfl
      · exact .planted (by simp [hobject, hmode]) hv
  | symbolicLink =>
    refine (after_symbolicLink_open hq hx m).mono ?_ fun _ _ _ => trivial
    rintro _ u ⟨target, dir', hlink, husable, hopen, hu⟩
    obtain rfl := hsame hopen.lookup
    have hobject : m.object? = some (.link target) := by simp [Member.object?, hkind, hlink]
    refine ⟨.planted hobject hu, fun s k hs hdir' hsuits => ?_⟩
    exact (symbolicLink_again hq hx hopen hs hdir' (hsuits.2 (.inr hkind)) hlink husable).mono
      (fun _ v hv => .planted hobject hv) fun _ _ he => he
  | hardLink => exact absurd hkind hk
  | globalRecords | attachment =>
    have hnothing : ∀ v, Leaves (dir ++ [x]) m v v := fun v =>
      .kept (by simp [Member.object?, hkind]) (by simp [hkind]) (by simp [hkind]) rfl
    exact after_pure ⟨hnothing t, fun s _ _ _ _ => after_pure (hnothing s)⟩

end Unpacking

end PinnedBuild.Archive
