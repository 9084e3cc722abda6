import Mathlib
import PinnedBuild.Proofs.Archive.Unpack
import PinnedBuild.Proofs.Files.Lasting

/-!
A file outside of the directory takes no part in unpacking: nothing reads what it holds, and nothing
gives it a place inside. Both come from relations that last through every part of unpacking.
-/

namespace PinnedBuild.Archive

open Files FileTree

namespace Unpacking

/-! ### Side by side -/

section

variable {α : Type} {R : FileTree → FileTree → Prop} {t u : FileTree}

lemma twin_act {a : FileAct α} (h : Twin R a a t u) : Twin R (act a) (act a) t u := by
  unfold Twin act
  rw [ExceptT.run_mk]
  obtain ⟨x, t', u', ha, hb, hs⟩ | ⟨e, t', u', ha, hb, hs⟩ := h.cases <;> rw [ha, hb]
  · exact ⟨rfl, hs⟩
  · exact ⟨rfl, hs⟩

lemma twin_op {o : FileOp α} (hs : R t u) (h : FileOp.Match R (o.run t) (o.run u)) :
    Twin R (op o) (op o) t u := twin_act (h.toAct hs)

variable (hR : Lasting R) (h : R t u)

include hR h

lemma twin_present (p : Path) : Twin R (present p) (present p) t u := by
  refine twin_get_bind ?_
  rw [(hR.shape h).lookup]
  exact twin_pure _ h

lemma twin_insideOf (dest p : Path) :
    Twin R (insideOf dest p) (insideOf dest p) t u := by
  refine (twin_op h (FileOp.match_realLocation hR h p)).bind fun place s v hs => ?_
  refine (twin_op hs (FileOp.match_realLocation hR hs dest)).bind fun root s v hs => ?_
  split
  · exact twin_pure _ hs
  · exact twin_throw _ hs

lemma twin_makeAncestors (dest : Path) (done rest : List Name) :
    Twin R (makeAncestors dest done rest) (makeAncestors dest done rest) t u := by
  induction rest generalizing done t u with
  | nil => exact twin_pure _ h
  | cons name rest ih =>
    refine (twin_present hR h _).bind fun there s v hs => ?_
    split
    · exact ih hs _
    · refine (twin_insideOf hR hs dest _).bind fun _ s v hs => ?_
      exact (twin_act (FileAct.twin_ensureDirectory hR hs _)).bind fun _ s v hs => ih hs _

lemma twin_ensureParent (dest : Path) (names : List Name) :
    Twin R (ensureParent dest names) (ensureParent dest names) t u := by
  have hmake : ∀ {s v}, R s v →
      Twin R (do unless ← present (below dest names) do makeAncestors dest [] names)
        (do unless ← present (below dest names) do makeAncestors dest [] names) s v := by
    intro s v hs
    refine (twin_present hR hs _).bind fun there s v hs => ?_
    split
    · exact twin_pure _ hs
    · exact twin_makeAncestors hR hs dest [] names
  refine (twin_present hR h dest).bind fun there s v hs => ?_
  split
  · exact hmake hs
  · exact (twin_throw _ hs).bind fun _ s v hs => hmake hs

lemma twin_setPermissions (f : Handle) (mode : Option Mode) :
    Twin R (setPermissions f mode) (setPermissions f mode) t u := by
  unfold setPermissions
  split
  · exact twin_op h (FileOp.match_setMode hR h f _)
  · exact twin_pure _ h

omit hR in
lemma twin_linkName (m : Member) : Twin R (linkName m) (linkName m) t u := by
  unfold linkName
  split
  · exact twin_throw _ h
  · exact twin_throw _ h
  · exact twin_pure _ h

lemma twin_directory (m : Member) (p : Path) :
    Twin R (directory m p) (directory m p) t u := by
  refine Twin.bind (Twin.tryCatch (twin_op h (FileOp.match_makeDirectory hR h p)) ?_)
    fun _ s v hs => ?_
  · intro e s v hs
    refine twin_get_bind ?_
    rw [(hR.shape hs).lookup]
    split
    · split
      · exact twin_pure _ hs
      · exact twin_throw _ hs
    · exact twin_throw _ hs
  · split
    · exact twin_op hs (FileOp.match_changeMode hR hs p _)
    · exact twin_pure _ hs

lemma twin_replace {o : FileOp α} (ho : ∀ s v, R s v → FileOp.Match R (o.run s) (o.run v))
    (p : Path) : Twin R (replace o p) (replace o p) t u := by
  refine Twin.tryCatch (twin_op h (ho t u h)) fun e s v hs => ?_
  split
  · refine (twin_op hs (FileOp.match_removeFile hR hs p)).bind fun _ s v hs => ?_
    exact twin_op hs (ho s v hs)
  · exact twin_throw e hs

lemma twin_symbolicLink (m : Member) (p : Path) :
    Twin R (symbolicLink m p) (symbolicLink m p) t u := by
  rw [symbolicLink_eq]
  refine (twin_linkName h m).bind fun name s v hs => ?_
  exact twin_replace hR hs (fun s v hs => FileOp.match_makeLink hR hs name p) p

lemma twin_openNew (p : Path) : Twin R (openNew p) (openNew p) t u := by
  rw [openNew_eq]
  exact twin_replace hR h (fun s v hs => FileOp.match_createNew hR hs p) p

lemma twin_writeSegment (f : Handle) (segment : Segment) :
    Twin R (writeSegment f segment) (writeSegment f segment) t u := by
  rcases segment with n | ⟨expected, bytes⟩
  · exact twin_op h (FileOp.match_write hR h f _)
  · refine (twin_op h (FileOp.match_write hR h f bytes)).bind fun _ s v hs => ?_
    split
    · exact twin_pure _ hs
    · exact twin_throw _ hs

lemma twin_file (m : Member) (p : Path) : Twin R (file m p) (file m p) t u := by
  refine (twin_openNew hR h p).bind fun f s v hs => ?_
  refine (twin_forM (fun segment s v hs => twin_writeSegment hR hs f segment) m.body hs).bind
    fun _ s v hs => twin_setPermissions hR hs f m.mode

omit hR in
lemma twin_hardLink (hR : Enduring R) (m : Member) (dest p : Path) :
    Twin R (hardLink m dest p) (hardLink m dest p) t u := by
  refine (twin_linkName h m).bind fun name s v hs => ?_
  refine (twin_op hs (FileOp.match_realLocation hR.toLasting hs dest)).bind fun root s v hs => ?_
  refine (twin_insideOf hR.toLasting hs dest _).bind fun _ s v hs => ?_
  exact twin_op hs (FileOp.match_hardLink hs hR _ p)

omit hR in
/-- Unpacking a member reads nothing of what any file holds. -/
lemma twin_member (hR : Enduring R) (dest : Path) (m : Member) :
    Twin R (member dest m) (member dest m) t u := by
  unfold member
  split
  · exact twin_pure _ h
  · exact twin_pure _ h
  · refine (twin_ensureParent hR.toLasting h dest _).bind fun _ s v hs => ?_
    refine (twin_insideOf hR.toLasting hs dest _).bind fun _ s v hs => ?_
    rcases m.kind
    · exact (twin_file hR.toLasting hs m _).bind fun _ _ _ hs => twin_pure _ hs
    · exact (twin_directory hR.toLasting hs m _).bind fun _ _ _ hs => twin_pure _ hs
    · exact (twin_symbolicLink hR.toLasting hs m _).bind fun _ _ _ hs => twin_pure _ hs
    · exact (twin_hardLink hs hR m dest _).bind fun _ _ _ hs => twin_pure _ hs
    · exact twin_pure _ hs
    · exact twin_pure _ hs

end

end Unpacking

/-! ### No place is given -/

/-- The file is there, but at no place at or below `root`. -/
structure Apart (root : Location) (id : Nat) (t : FileTree) : Prop where
  there : id < t.files.length
  nowhere : ∀ loc, root <+: loc → t.node? loc ≠ some (.file id)

section

variable {root : Location} {id : Nat} {t : FileTree} {n : Node} {at_ : Location}

lemma Apart.put (h : Apart root id t) (hn : n ≠ .file id) : Apart root id (t.put at_ n) where
  there := h.there
  nowhere loc hl := by
    rw [node?_put]
    split
    · simpa using hn
    · exact h.nowhere loc hl

lemma lasting_apart (root : Location) (id : Nat) :
    Lasting fun t u => u = t ∧ Apart root id t where
  shape := by
    rintro t _ ⟨rfl, -⟩
    exact .refl _
  put := by
    rintro t _ at_ n ⟨rfl, h⟩ hn
    exact ⟨rfl, h.put (hn id)⟩
  putFile := by
    rintro t _ at_ mode ⟨rfl, h⟩
    refine ⟨rfl, by simpa [FileTree.putFile] using Nat.lt_succ_of_lt h.there, fun loc hl => ?_⟩
    rw [node?_putFile]
    split
    · have := h.there
      simp only [ne_eq, Option.some.injEq, Node.file.injEq]
      omega
    · exact h.nowhere loc hl
  erase := by
    rintro t _ at_ ⟨rfl, h⟩
    refine ⟨rfl, h.there, fun loc hl => ?_⟩
    rw [node?_erase]
    split
    · simp
    · exact h.nowhere loc hl
  modifyFile := by
    rintro t _ id' f ⟨rfl, h⟩ -
    exact ⟨rfl, by simpa [FileTree.modifyFile] using h.there, h.nowhere⟩

end

namespace Unpacking

variable {dest p : Path} {root : Location} {id : Nat} {t₀ t : FileTree}

/-- Only what lies inside is given another place. -/
lemma apart_hardLink (hk : Kept dest root t₀ t) (h : Apart root id t) (m : Member) (p : Path) :
    After (hardLink m dest p) t (fun _ => Apart root id) (fun _ => Apart root id) := by
  refine after_bind (after_linkName (fun _ => h) fun target => ?_)
  refine after_bind (after_op ?_ fun _ _ => h)
  rintro r u hr
  obtain ⟨rfl, -⟩ := FileOp.realLocation_ok hr
  refine after_bind ((after_insideOf dest _ u).mono ?_ fun _ u hu => hu ▸ h)
  rintro _ v ⟨rfl, l, n, r, k, hl, hr, hin⟩
  refine after_op (fun _ w hw => ?_) fun _ _ => h
  obtain ⟨l', n', dir, y, hs, -, -, rfl⟩ := FileOp.hardLink_ok hw
  refine h.put ?_
  rintro rfl
  obtain ⟨rfl, rfl⟩ := lookup_unique hl (lookup_follow (by simp) hs)
  obtain rfl := hk.settled r k hr
  exact h.nowhere l hin (lookup_node hl)

/-- Unpacking a member does not bring the file inside. -/
lemma apart_member (hd : dest ≠ []) (hk : Kept dest root t₀ t) (h : Apart root id t) (m : Member) :
    After (member dest m) t (fun _ => Apart root id) (fun _ => Apart root id) := by
  have hR := lasting_apart root id
  unfold member
  split
  · exact after_pure h
  · exact after_pure h
  · rename_i names hne hnames
    have hfront : ∀ x ∈ names.dropLast, Plain x :=
      fun x hx => plain_of_names? hnames x (List.mem_of_mem_dropLast hx)
    refine after_bind (((after_ensureParent hd hfront hk).and
      (twin_ensureParent hR ⟨rfl, h⟩ dest _).after).mono ?_ fun _ _ hu => hu.2)
    rintro _ u ⟨hk, h⟩
    refine after_bind ((after_insideOf dest _ u).mono ?_ fun _ _ hu => hu ▸ h)
    rintro _ v ⟨rfl, -⟩
    have hdone : ∀ {a : Unpacking Unit},
        After a v (fun _ => Apart root id) (fun _ => Apart root id) →
        After (a >>= fun _ => pure true) v (fun _ => Apart root id) (fun _ => Apart root id) :=
      fun ha => after_bind (ha.mono (fun _ _ hw => after_pure hw) fun _ _ hw => hw)
    rcases m.kind
    · exact hdone ((twin_file hR ⟨rfl, h⟩ m _).after)
    · exact hdone ((twin_directory hR ⟨rfl, h⟩ m _).after)
    · exact hdone ((twin_symbolicLink hR ⟨rfl, h⟩ m _).after)
    · exact hdone (apart_hardLink hk h m _)
    · exact after_pure h
    · exact after_pure h

end Unpacking

end PinnedBuild.Archive
