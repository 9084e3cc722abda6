import Mathlib
import PinnedBuild.Proofs.Archive.Layout
import PinnedBuild.Proofs.Archive.Written

/-!
What stands in an empty directory after files and directories have been unpacked into it: the layout
that the members come to.

As long as there are only directories and files below the directory, a path of names leads to the
place with these names, which is what carries the proof from one member to the next.
-/

namespace PinnedBuild.Archive

open Files FileTree

/-- A path leads to an empty directory. -/
structure Vacant (dest : Path) (root : Location) (base : Mode) (t : FileTree) : Prop where
  sound : t.Sound
  leads : t.lookup true dest = .ok (root, .directory base)
  empty : ∀ ns, ns ≠ [] → t.node? (root ++ ns) = none

/-- Below a place stands what a layout says, and all that was there at first is still there. -/
structure Laid (root : Location) (t₀ : FileTree) (l : Layout) (t : FileTree) : Prop where
  sound : t.Sound
  cwd : t.cwd = t₀.cwd
  grown : t₀.Extends t
  seen : ∀ ns, t.object? (root ++ ns) = l ns
  plain : ∀ ns o, l ns = some o → (∃ g, o = .directory g) ∨ ∃ f, o = .file f

/-- Moreover a file that stands nowhere else has been put at one place. -/
structure Filling (root : Location) (t₀ : FileTree) (l : Layout) (ns : List Name) (id : Nat)
    (f : File) (t : FileTree) : Prop where
  laid : Laid root t₀ (l.set ns (.file f)) t
  here : t.node? (root ++ ns) = some (.file id)
  alone : ∀ loc, t.node? loc = some (.file id) → loc = root ++ ns

variable {dest : Path} {root loc : Location} {base g k : Mode} {t₀ t u : FileTree} {l : Layout}
  {ns front rest : List Name} {x : Name} {n : Node} {f : File} {id : Nat} {m : Member}

lemma Vacant.dest_ne_nil (h : Vacant dest root base t) : dest ≠ [] :=
  (walk_ok (lookup_ok.mp h.leads)).1.notEmpty

lemma Vacant.laid (h : Vacant dest root base t) : Laid root t (.bare base) t where
  sound := h.sound
  cwd := rfl
  grown := .refl t
  seen ns := by
    unfold Layout.bare
    split
    · subst ns
      rw [List.append_nil]
      exact object?_of_node?_directory (lookup_node h.leads)
    · exact object?_of_node?_none (h.empty ns (by assumption))
  plain ns o ho := by
    unfold Layout.bare at ho
    split at ho
    · exact .inl ⟨base, (Option.some.inj ho).symm⟩
    · cases ho

/-! ### What stands where -/

namespace Laid

variable (h : Laid root t₀ l t)

include h

lemma node_of_directory (hl : l ns = some (.directory g)) :
    t.node? (root ++ ns) = some (.directory g) :=
  node?_of_object?_directory ((h.seen ns).trans hl)

lemma node_of_none (hl : l ns = none) : t.node? (root ++ ns) = none :=
  node?_of_object?_eq_none h.sound ((h.seen ns).trans hl)

lemma none_of_node (hn : t.node? (root ++ ns) = none) : l ns = none :=
  (h.seen ns).symm.trans (object?_of_node?_none hn)

/-- Nothing but directories and files is met. -/
lemma of_node (hn : t.node? (root ++ ns) = some n) :
    (∃ g, n = .directory g ∧ l ns = some (.directory g)) ∨
      ∃ id f, n = .file id ∧ l ns = some (.file f) := by
  rcases ho : l ns with _ | o
  · rw [h.node_of_none ho] at hn
    cases hn
  · rcases h.plain ns o ho with ⟨g, rfl⟩ | ⟨f, rfl⟩
    · exact .inl ⟨g, Option.some.inj (hn.symm.trans (h.node_of_directory ho)), rfl⟩
    · obtain ⟨id, hid, -⟩ := node?_of_object?_file ((h.seen ns).trans ho)
      exact .inr ⟨id, f, Option.some.inj (hn.symm.trans hid), rfl⟩

lemma node_ne_link (hn : t.node? (root ++ ns) = some n) (target : Path) : n ≠ .link target := by
  rcases h.of_node hn with ⟨g, rfl, -⟩ | ⟨id, f, rfl, -⟩ <;> simp

/-! ### Where paths lead -/

variable (hv : Vacant dest root base t₀)

include hv

/-- Names below the directory lead to the place with these names. -/
lemma lookup_below (hn : ∀ x ∈ ns, Plain x)
    (hl : t.lookup true (Unpacking.below dest ns) = .ok (loc, n)) : loc = root ++ ns := by
  -- The last name is looked up in the place that the names before it lead to.
  induction ns using List.reverseRecOn generalizing loc n with
  | nil =>
    have hroot := lookup_extends h.grown h.cwd hv.leads
    rw [List.append_nil]
    exact (lookup_unique hl hroot).1
  | append_singleton front x ih =>
    have hfront : ∀ y ∈ front, Plain y := fun y hy => hn y (by simp [hy])
    have hx : Plain x := hn x (by simp)
    have hq := below_ne_nil hv.dest_ne_nil hfront
    rw [below_append] at hl
    obtain ⟨loc', n', hw⟩ := walk_unfollowed hl
    obtain ⟨dir, k, rfl, hdir⟩ := node_at hq hx (lookup_ok.mpr hw)
    obtain rfl := ih hfront hdir
    have hnode := lookup_node (lookup_ok.mpr hw)
    rw [List.append_assoc] at hnode
    have hlink := h.node_ne_link hnode
    have hfollow := lookup_follow hlink (lookup_ok.mpr hw)
    rw [← List.append_assoc]
    exact (lookup_unique hl hfollow).1

variable (hn : ∀ x ∈ front, Plain x) (hx : Plain x)

include hn hx

lemma lookup_join (hl : t.lookup false ((Unpacking.below dest front).join x) = .ok (loc, n)) :
    loc = root ++ (front ++ [x]) := by
  obtain ⟨dir, k, rfl, hdir⟩ := node_at (below_ne_nil hv.dest_ne_nil hn) hx hl
  rw [h.lookup_below hv hn hdir, List.append_assoc]

/-- What is looked up is looked up in a directory. -/
lemma holder {follow : Bool} {r : Found}
    (hw : t.walk follow ((Unpacking.below dest front).join x) = .ok r) :
    ∃ g, l front = some (.directory g) := by
  obtain ⟨dir, n, hdir, hs⟩ := lookup_of_walk_join (below_ne_nil hv.dest_ne_nil hn) hx hw
  obtain rfl := h.lookup_below hv hn hdir
  obtain ⟨g, hg, -⟩ := searchable_ok hs
  rcases h.of_node hg with ⟨g', -, hl⟩ | ⟨id, f, he, -⟩
  · exact ⟨g', hl⟩
  · cases he

lemma missing {dir : Location} {y : Name}
    (hw : t.walk false ((Unpacking.below dest front).join x) = .ok (.missing dir y)) :
    y = x ∧ dir = root ++ front ∧ l (front ++ [x]) = none := by
  obtain ⟨rfl, hnone, -, k, hdir⟩ := missing_at (below_ne_nil hv.dest_ne_nil hn) hx hw
  obtain rfl := h.lookup_below hv hn hdir
  rw [List.append_assoc] at hnone
  exact ⟨rfl, rfl, h.none_of_node hnone⟩

end Laid

/-! ### One operation -/

lemma append_right_inj_iff {a b : List Name} : root ++ a = root ++ b ↔ a = b :=
  List.append_right_inj root

lemma extends_of_ne (hv : Vacant dest root base t₀) (h : t₀.Extends t) (hne : ns ≠ [])
    (huser : u.user = t.user) (hu : ∀ loc, loc ≠ root ++ ns → u.node? loc = t.node? loc) :
    t₀.Extends u := by
  refine ⟨huser.trans h.user, fun loc n hn => ?_⟩
  rw [hu, h.node loc n hn]
  rintro rfl
  rw [hv.empty ns hne] at hn
  cases hn

lemma Laid.put_directory (h : Laid root t₀ l t) (hv : Vacant dest root base t₀) (hne : ns ≠ [])
    (g : Mode) : Laid root t₀ (l.set ns (.directory g)) (t.put (root ++ ns) (.directory g)) where
  sound := h.sound.put (by simp)
  cwd := h.cwd
  grown := extends_of_ne hv h.grown hne rfl fun loc hl => by rw [node?_put, if_neg hl]
  seen full := by
    rw [object?_put_directory, h.seen, Layout.set]
    simp only [append_right_inj_iff]
  plain full o ho := by
    by_cases hf : full = ns
    · subst hf
      exact .inl ⟨g, (Option.some.inj ((Layout.set_self ..).symm.trans ho)).symm⟩
    · exact h.plain full o ((Layout.set_of_ne hf).symm.trans ho)

/-- A layout in which nothing stands at one place. -/
def Layout.unset (l : Layout) (ns : List Name) : Layout :=
  fun full => if full = ns then none else l full

lemma Layout.set_unset (l : Layout) (ns : List Name) (o : Object) :
    (l.unset ns).set ns o = l.set ns o := by
  funext full
  unfold set unset
  split <;> rfl

lemma Laid.erase (h : Laid root t₀ l t) (hv : Vacant dest root base t₀) (hne : ns ≠ []) :
    Laid root t₀ (l.unset ns) (t.erase (root ++ ns)) where
  sound := h.sound.erase _
  cwd := h.cwd
  grown := extends_of_ne hv h.grown hne rfl fun loc hl => by rw [node?_erase, if_neg hl]
  seen full := by
    rw [object?_erase, h.seen, Layout.unset]
    simp only [append_right_inj_iff]
  plain full o ho := by
    unfold Layout.unset at ho
    split at ho
    · cases ho
    · exact h.plain full o ho

lemma Laid.putFile (h : Laid root t₀ l t) (hv : Vacant dest root base t₀) (hne : ns ≠ [])
    (mode : Mode) :
    Filling root t₀ l ns t.files.length ⟨[], mode⟩ (t.putFile (root ++ ns) mode).2 where
  laid :=
    { sound := h.sound.putFile mode
      cwd := h.cwd
      grown := extends_of_ne hv h.grown hne rfl fun loc hl => by rw [node?_putFile, if_neg hl]
      seen := by
        intro full
        rw [FileOp.object?_putFile h.sound, h.seen, Layout.set]
        simp only [append_right_inj_iff]
      plain := by
        intro full o ho
        by_cases hf : full = ns
        · subst hf
          exact .inr ⟨_, (Option.some.inj ((Layout.set_self ..).symm.trans ho)).symm⟩
        · exact h.plain full o ((Layout.set_of_ne hf).symm.trans ho) }
  here := by rw [node?_putFile, if_pos rfl]
  alone loc hl := by
    rw [node?_putFile] at hl
    split at hl
    · assumption
    · exact absurd (h.sound loc _ hl) (lt_irrefl _)

lemma Filling.modifyFile (h : Filling root t₀ l ns id f t) (change : File → File) :
    Filling root t₀ l ns id (change f) (t.modifyFile id change) where
  laid :=
    { sound := h.laid.sound.modifyFile id change
      cwd := h.laid.cwd
      grown := ⟨h.laid.grown.user, h.laid.grown.node⟩
      seen := by
        intro full
        by_cases hf : full = ns
        · subst hf
          obtain ⟨id', hid, hfile⟩ := node?_of_object?_file
            ((h.laid.seen full).trans (Layout.set_self ..))
          obtain rfl := Node.file.inj (Option.some.inj (h.here.symm.trans hid))
          rw [Layout.set_self]
          unfold object?
          rw [node?_modifyFile, h.here]
          simp only
          rw [FileOp.file?_modifyFile hfile]
          rfl
        · rw [Layout.set_of_ne hf, object?_modifyFile_of_ne, h.laid.seen, Layout.set_of_ne hf]
          exact fun hn => hf (append_right_inj_iff.mp (h.alone _ hn))
      plain := by
        intro full o ho
        by_cases hf : full = ns
        · subst hf
          exact .inr ⟨_, (Option.some.inj ((Layout.set_self ..).symm.trans ho)).symm⟩
        · rw [Layout.set_of_ne hf] at ho
          exact h.laid.plain full o ((Layout.set_of_ne hf).trans ho) }
  here := h.here
  alone := h.alone

/-! ### The parts of unpacking -/

namespace Unpacking

variable (hv : Vacant dest root base t₀) (hn : ∀ x ∈ front, Plain x) (hx : Plain x)

include hv hn hx

/-- A directory is made where nothing stands in one that is there. -/
lemma laid_makeDirectory (h : Laid root t₀ l t)
    (hu : (FileOp.makeDirectory ((below dest front).join x)).run t = .ok ((), u)) :
    l (front ++ [x]) = none ∧ ∃ g, l front = some (.directory g) ∧
      Laid root t₀ (l.set (front ++ [x]) (.directory (FileOp.inheritedMode g))) u := by
  obtain ⟨dir, y, m, hf, hm, rfl⟩ := FileOp.makeDirectory_ok hu
  have hw := (FileOp.foundBare_ok hf).2.1
  rw [FileOp.withoutSlashes_join (below_ne_nil hv.dest_ne_nil hn) hx] at hw
  obtain ⟨g, hg⟩ := h.holder hv hn hx hw
  obtain ⟨rfl, rfl, hnone⟩ := h.missing hv hn hx hw
  obtain rfl := Node.directory.inj (Option.some.inj (hm.symm.trans (h.node_of_directory hg)))
  refine ⟨hnone, m, hg, ?_⟩
  rw [List.append_assoc]
  exact h.put_directory hv (by simp) _

lemma laid_ensureDirectory (h : Laid root t₀ l t) {n : Node}
    (hl : t.lookup true (below dest front) = .ok (loc, n))
    (hp : (t.lookup false ((below dest front).join x)).isOk = false) :
    After (act (FileAct.ensureDirectory ((below dest front).join x))) t
      (fun _ u => Laid root t₀ (l.ensure (front ++ [x])) u ∧
        ∃ o, l.ensure (front ++ [x]) (front ++ [x]) = some o)
      fun _ _ => True := by
  have hq := below_ne_nil hv.dest_ne_nil hn
  have hne : (below dest front).join x ≠ [] := List.isEmpty_eq_false_iff.mp (Path.isEmpty_join hx)
  refine after_act (FileOp.after_ensureDirectory hne (fun u hu => ?_) fun e he => ⟨?_, ?_, trivial⟩)
  · obtain ⟨hnone, g, hg, hlaid⟩ := laid_makeDirectory hv hn hx h hu
    rw [Layout.ensure_of_none hnone (by rwa [List.dropLast_concat])]
    exact ⟨hlaid, _, Layout.set_self ..⟩
  · exact FileOp.makeDirectory_join_error hq hx hl he
  · -- Whatever the path led to with links followed, something would have been there without.
    intro hdir
    unfold isDirectory at hdir
    split at hdir
    · rename_i hthere
      obtain ⟨l', n', hw⟩ := walk_unfollowed hthere
      rw [lookup_ok.mpr hw] at hp
      cases hp
    · cases hdir

omit hn hx in
lemma there_of_present (h : Laid root t₀ l t) (hl : l.Grounded) (hns : ∀ x ∈ ns, Plain x)
    (hp : (t.lookup false (below dest ns)).isOk = true) : ∃ o, l ns = some o := by
  rcases List.eq_nil_or_concat ns with rfl | ⟨front, x, rfl⟩
  · obtain ⟨g, hg⟩ := hl.1
    exact ⟨_, hg⟩
  rw [List.concat_eq_append] at hns hp ⊢
  rw [below_append] at hp
  rcases hlook : t.lookup false ((below dest front).join x) with e | ⟨loc, n⟩ <;> rw [hlook] at hp
  · cases hp
  have hnode := lookup_node hlook
  rw [h.lookup_join hv (fun y hy => hns y (by simp [hy])) (hns x (by simp)) hlook] at hnode
  rcases h.of_node hnode with ⟨g, -, hg⟩ | ⟨id, f, -, hf⟩
  · exact ⟨_, hg⟩
  · exact ⟨_, hf⟩

omit hn hx in
lemma laid_makeAncestors {done : List Name} {o : Object} (h : Laid root t₀ l t) (hl : l.Grounded)
    (hdone : l done = some o) (hns : ∀ x ∈ done ++ rest, Plain x) :
    After (makeAncestors dest done rest) t
      (fun _ => Laid root t₀ (l.ensureAll (done ++ rest))) fun _ _ => True := by
  -- All that leads to `done` is there, so that one directory at a time is missing.
  induction rest generalizing done l t o with
  | nil =>
    refine after_pure ?_
    rwa [List.append_nil, hl.ensureAll_of_some hdone]
  | cons name rest ih =>
    have hfront : ∀ x ∈ done, Plain x := fun x hx => hns x (by simp [hx])
    have hname : Plain name := hns name (by simp)
    have hrest : ∀ x ∈ (done ++ [name]) ++ rest, Plain x := fun x hx => hns x (by simpa using hx)
    rw [List.append_cons]
    refine after_bind (after_present ?_)
    split
    · rename_i hp
      obtain ⟨o', ho'⟩ := there_of_present hv h hl
        (fun x hx => hrest x (List.mem_append_left _ hx)) hp
      exact ih h hl ho' hrest
    · rename_i hp
      rw [below_append] at hp ⊢
      refine after_bind ((after_insideOf dest (below dest done) t).mono ?_ fun _ _ _ => trivial)
      rintro _ u ⟨rfl, loc, n, -, -, hthere, -, -⟩
      refine after_bind ((laid_ensureDirectory hv hfront hname h hthere (by simpa using hp)).mono ?_
        fun _ _ _ => trivial)
      rintro _ v ⟨hlaid, o', ho'⟩
      have hmade : l.ensure (done ++ [name]) = l.ensureAll (done ++ [name]) := by
        rw [Layout.ensureAll_snoc, hl.ensureAll_of_some hdone]
      rw [hmade] at hlaid ho'
      rw [← hl.ensureAll_append ho' rest]
      exact ih hlaid (hl.ensureAll _) ho' hrest

omit hx in
/-- The directories that lead to a place are made where they are missing. -/
lemma laid_ensureParent (h : Laid root t₀ l t) (hl : l.Grounded) :
    After (ensureParent dest front) t
      (fun _ => Laid root t₀ (l.ensureAll front)) fun _ _ => True := by
  have hmake : After (do unless ← present (below dest front) do makeAncestors dest [] front) t
      (fun _ => Laid root t₀ (l.ensureAll front)) fun _ _ => True := by
    refine after_bind (after_present ?_)
    split
    · rename_i hp
      obtain ⟨o, ho⟩ := there_of_present hv h hl hn hp
      refine after_pure ?_
      rwa [hl.ensureAll_of_some ho]
    · obtain ⟨g, hg⟩ := hl.1
      exact laid_makeAncestors hv h hl hg hn
  refine after_bind (after_present ?_)
  split
  · exact hmake
  · exact after_bind (after_throw trivial)

/-! ### What a member becomes -/

/-- What is opened is a new file, in the place of an old one if there was one. -/
lemma laid_openNew (h : Laid root t₀ l t) :
    After (openNew ((below dest front).join x)) t
      (fun handle u => (∃ g, l front = some (.directory g)) ∧
        (∀ o, l (front ++ [x]) = some o → ∃ f, o = .file f) ∧
        ∃ id, handle = .file id ∧ Filling root t₀ l (front ++ [x]) id ⟨[], newFileMode⟩ u)
      fun _ _ => True := by
  have hcreate : ∀ {l t handle u}, Laid root t₀ l t →
      (FileOp.createNew ((below dest front).join x)).run t = .ok (handle, u) →
      (∃ g, l front = some (.directory g)) ∧ l (front ++ [x]) = none ∧
        ∃ id, handle = .file id ∧ Filling root t₀ l (front ++ [x]) id ⟨[], newFileMode⟩ u := by
    intro l t handle u h hu
    obtain ⟨dir, y, hw, rfl, rfl⟩ := FileOp.createNew_ok hu
    have hholder := h.holder hv hn hx hw
    obtain ⟨rfl, rfl, hnone⟩ := h.missing hv hn hx hw
    refine ⟨hholder, hnone, _, rfl, ?_⟩
    rw [List.append_assoc]
    exact h.putFile hv (by simp) _
  rw [openNew_eq]
  refine after_replace (fun _ => trivial) (fun _ _ _ _ => trivial) (fun handle u hu => ?_) ?_
  · obtain ⟨hholder, hnone, hfill⟩ := hcreate h hu
    exact ⟨hholder, by simp [hnone], hfill⟩
  · rintro _ _ hgone handle v hv'
    obtain ⟨loc, n, hlook, hdir, rfl⟩ := FileOp.removeFile_ok hgone
    have hholder := h.holder hv hn hx (lookup_ok.mp hlook)
    obtain rfl := h.lookup_join hv hn hx hlook
    have hold : ∀ o, l (front ++ [x]) = some o → ∃ f, o = .file f := by
      intro o ho
      rcases h.of_node (lookup_node hlook) with ⟨g, rfl, -⟩ | ⟨id, f, -, hf⟩
      · exact absurd rfl (hdir g)
      · exact ⟨f, Option.some.inj (ho.symm.trans hf)⟩
    -- With the old one removed, nothing else stands for the new file.
    obtain ⟨-, -, id, rfl, hfill⟩ := hcreate (h.erase hv (by simp)) hv'
    refine ⟨hholder, hold, id, rfl, ?_, hfill.here, hfill.alone⟩
    rw [← Layout.set_unset]
    exact hfill.laid

omit hv hn hx in
lemma filling_writeSegment (h : Filling root t₀ l ns id f t) (s : Segment) :
    After (writeSegment (.file id) s) t
      (fun _ => Filling root t₀ l ns id { f with content := f.content ++ s.bytes })
      fun _ _ => True := by
  have hwrite : ∀ b y u, (FileOp.write (.file id) b).run t = .ok (y, u) →
      Filling root t₀ l ns id { f with content := f.content ++ b } u := by
    intro b y u hu
    rw [FileOp.write_file_ok hu]
    exact h.modifyFile fun f => { f with content := f.content ++ b }
  rcases s with n | ⟨expected, bytes⟩
  · exact after_op (hwrite _) fun _ _ => trivial
  · refine after_bind (after_op (fun y u hu => ?_) fun _ _ => trivial)
    split
    · exact after_pure (hwrite _ y u hu)
    · exact after_throw trivial

omit hv hn hx in
/-- The parts are written one after the other. -/
lemma filling_writeSegments (h : Filling root t₀ l ns id f t) (body : List Segment) :
    After (body.forM (writeSegment (.file id))) t
      (fun _ => Filling root t₀ l ns id
        { f with content := f.content ++ body.flatMap Segment.bytes })
      fun _ _ => True := by
  induction body generalizing f t with
  | nil =>
    refine after_pure ?_
    simpa using h
  | cons s body ih =>
    refine after_bind ((filling_writeSegment h s).mono (fun _ u hu => ?_) fun _ _ _ => trivial)
    simpa using ih hu

lemma laid_file (h : Laid root t₀ l t) (m : Member) (hk : m.kind = .file) :
    After (file m ((below dest front).join x)) t
      (fun _ u => (∃ g, l front = some (.directory g)) ∧
        ∃ l', l.place (front ++ [x]) m = some l' ∧ Laid root t₀ l' u)
      fun _ _ => True := by
  refine after_bind ((laid_openNew hv hn hx h).mono ?_ fun _ _ _ => trivial)
  rintro _ u ⟨hholder, hold, id, rfl, hfill⟩
  refine after_bind ((filling_writeSegments hfill m.body).mono ?_ fun _ _ _ => trivial)
  intro _ v hfilled
  rw [List.nil_append] at hfilled
  refine (After.mono (Q := fun _ => Filling root t₀ l (front ++ [x]) id
    ⟨m.content, m.mode.getD newFileMode⟩) ?_ ?_ fun _ _ h => h)
  · unfold setPermissions
    split
    · rename_i mode hm
      refine after_op (fun _ w hw => ?_) fun _ _ => trivial
      rw [FileOp.setMode_file_ok hw, hm]
      exact hfilled.modifyFile fun f => { f with mode := mode }
    · rename_i hm
      rw [hm]
      exact after_pure hfilled
  · intro _ w hw
    exact ⟨hholder, _, Layout.place_file hk hold, hw.laid⟩

/-- A directory is made, or the one that is there is taken. -/
lemma laid_openDirectory (h : Laid root t₀ l t) :
    After (do
      try op (FileOp.makeDirectory ((below dest front).join x))
      catch e =>
        match (← get).lookup false ((below dest front).join x) with
        | .ok (_, .directory _) => if e = .file .exists then pure () else fail e
        | _ => fail e : Unpacking Unit) t
      (fun _ u => (∃ g, l front = some (.directory g)) ∧
        (∀ o, l (front ++ [x]) = some o → ∃ g, o = .directory g) ∧
        Laid root t₀ (l.ensure (front ++ [x])) u ∧
          ∃ g, l.ensure (front ++ [x]) (front ++ [x]) = some (.directory g))
      fun _ _ => True := by
  refine after_tryCatch (after_op (fun _ u hu => ?_) fun e _ => after_bind (after_get ?_))
  · obtain ⟨hnone, g, hg, hlaid⟩ := laid_makeDirectory hv hn hx h hu
    rw [Layout.ensure_of_none hnone (by rwa [List.dropLast_concat])]
    exact ⟨⟨g, hg⟩, by simp [hnone], hlaid, _, Layout.set_self ..⟩
  split
  · rename_i loc g hlook
    split
    · have hholder := h.holder hv hn hx (lookup_ok.mp hlook)
      have hnode := lookup_node hlook
      rw [h.lookup_join hv hn hx hlook] at hnode
      have hthere : l (front ++ [x]) = some (.directory g) :=
        (h.seen _).symm.trans (object?_of_node?_directory hnode)
      rw [Layout.ensure_of_some hthere]
      exact after_pure
        ⟨hholder, fun o ho => ⟨g, Option.some.inj (ho.symm.trans hthere)⟩, h, g, hthere⟩
    · exact after_throw trivial
  · exact after_throw trivial

lemma laid_directory (h : Laid root t₀ l t) (m : Member) (hk : m.kind = .directory) :
    After (directory m ((below dest front).join x)) t
      (fun _ u => (∃ g, l front = some (.directory g)) ∧
        ∃ l', l.place (front ++ [x]) m = some l' ∧ Laid root t₀ l' u)
      fun _ _ => True := by
  refine after_bind ((laid_openDirectory hv hn hx h).mono ?_ fun _ _ _ => trivial)
  rintro _ u ⟨hholder, hold, hlaid, g, hg⟩
  obtain ⟨hset, hkeep⟩ := Layout.place_directory hk hold
  rcases hm : m.mode with _ | mode
  · exact after_pure ⟨hholder, _, hkeep hm, hlaid⟩
  · refine after_op (fun _ v hv' => ?_) fun _ _ => trivial
    -- Permissions are set by the path, which has to lead to the directory that was made.
    obtain ⟨loc, n, hlook, hchange⟩ := FileOp.changeMode_ok hv'
    have hnode := lookup_node hlook
    rw [← below_append] at hlook
    obtain rfl := hlaid.lookup_below hv (by simpa [or_imp, forall_and] using ⟨hn, hx⟩) hlook
    obtain rfl := Option.some.inj (hnode.symm.trans (hlaid.node_of_directory hg))
    rcases hchange with ⟨-, rfl⟩ | hchange
    · refine ⟨hholder, _, hset mode hm, ?_⟩
      rw [← Layout.set_ensure]
      exact hlaid.put_directory hv (by simp) mode
    · exact absurd rfl (hchange g)

end Unpacking

/-! ### Members -/

/-- A file or a directory whose path does not lead upwards. -/
def Member.IsPlain (m : Member) : Prop :=
  (m.kind = .file ∨ m.kind = .directory) ∧ ¬ m.LeadsUp

instance (m : Member) : Decidable m.IsPlain := inferInstanceAs (Decidable (_ ∧ _))

namespace Unpacking

/-- One member makes of a layout what it comes to in it. -/
lemma laid_member (hv : Vacant dest root base t₀) (h : Laid root t₀ l t) (hl : l.Grounded)
    (hm : m.IsPlain) :
    After (member dest m) t
      (fun unpacked u => unpacked = true ∧ ∃ l', l.add? m = some l' ∧ Laid root t₀ l' u)
      fun _ _ => True := by
  obtain ⟨hkind, hup⟩ := hm
  rcases member_cases dest m with ⟨hup', -⟩ | ⟨-, hnil, heq⟩ | ⟨front, x, -, hnames, hn, hx, heq⟩
  · exact absurd hup' hup
  · rw [heq]
    refine after_pure ⟨rfl, l, ?_, h⟩
    unfold Layout.add?
    rw [if_pos hnil]
  rw [heq]
  refine after_bind ((laid_ensureParent hv hn h hl).mono ?_ fun _ _ _ => trivial)
  intro _ u hu
  refine after_bind ((after_insideOf dest (below dest front) u).mono ?_ fun _ _ _ => trivial)
  rintro _ u' ⟨rfl, -⟩
  have hbecome : After (become m dest ((below dest front).join x)) u'
      (fun _ v => (∃ g, l.ensureAll front front = some (.directory g)) ∧
        ∃ l', (l.ensureAll front).place (front ++ [x]) m = some l' ∧ Laid root t₀ l' v)
      fun _ _ => True := by
    unfold become
    rcases hkind with hk | hk <;> rw [hk]
    · exact laid_file hv hn hx hu m hk
    · exact laid_directory hv hn hx hu m hk
  refine after_bind (hbecome.mono ?_ fun _ _ _ => trivial)
  rintro _ v ⟨⟨g, hg⟩, l', hplace, hlaid⟩
  refine after_pure ⟨rfl, l', ?_, hlaid⟩
  unfold Layout.add?
  rw [if_neg (by simp [hnames]), hnames, List.dropLast_concat]
  simp only [hg, hplace]

end Unpacking

variable {w : World} {archive : Path} {names : List Name} {feed : Feed} {ms : List Member}

lemma laid_extractMember (hv : Vacant dest root base t₀) (h : Laid root t₀ l w.files)
    (hl : l.Grounded) (hm : m.IsPlain) (names : List Name) :
    After (extractMember dest names m) w
      (fun _ v => ∃ l', l.add? m = some l' ∧ Laid root t₀ l' v.files) fun _ _ => True := by
  unfold extractMember
  split
  · rename_i hglobal
    rcases hm.1 with hk | hk <;> cases hk.symm.trans hglobal
  · refine after_bind (Act.after_onFiles ((Unpacking.laid_member hv h hl hm).mono ?_
      fun _ _ _ => trivial))
    rintro _ u ⟨rfl, l', hadd, hlaid⟩
    exact after_pure ⟨l', hadd, hlaid⟩

/-- As long as members are unpacked, what they come to is what stands below the directory. -/
lemma laid_extractMembers (hv : Vacant dest root base t₀) (h : Laid root t₀ l w.files)
    (hl : l.Grounded) (hm : ∀ m ∈ ms, m.IsPlain) (names : List Name) :
    After (ms.foldlM (extractMember dest) names) w
      (fun _ v => ∃ l', ms.foldlM Layout.add? l = some l' ∧ Laid root t₀ l' v.files)
      fun _ _ => True := by
  induction ms generalizing l names w with
  | nil => exact after_pure ⟨l, rfl, h⟩
  | cons m ms ih =>
    rw [List.foldlM_cons]
    refine after_bind ((laid_extractMember hv h hl (hm m (by simp)) names).mono ?_
      fun _ _ _ => trivial)
    rintro names v ⟨l₁, hadd, hlaid⟩
    refine (ih hlaid (hl.add? hadd) (fun m hmem => hm m (by simp [hmem])) names).mono ?_
      fun _ _ _ => trivial
    rintro _ v' ⟨l', hfold, hlaid'⟩
    refine ⟨l', ?_, hlaid'⟩
    rw [List.foldlM_cons, hadd]
    exact hfold

/-- **Production**: files and directories that are unpacked into an empty directory come to the
layout that they describe, in which the last of several at one place has its say, or extraction
fails. It does fail where a file and a directory meet. -/
theorem extract_produces (hv : Vacant dest root base w.files)
    (hfeed : (feedOf archive).run w.files = .ok (feed, w.files))
    (hplain : ∀ m ∈ (members feed).1, m.IsPlain) :
    (∀ names v, (extract archive dest).run w = (.ok names, v) →
      Layout.Produces base (members feed).1 fun ns => v.files.object? (root ++ ns)) ∧
    (Layout.Clashing (members feed).1 → ∃ e v, (extract archive dest).run w = (.error e, v)) := by
  have hproduces : ∀ names v, (extract archive dest).run w = (.ok names, v) →
      Layout.Produces base (members feed).1 fun ns => v.files.object? (root ++ ns) := by
    intro names v hrun
    obtain ⟨feed', ms, hfeed', hms, hfold⟩ := extract_ok hrun
    obtain ⟨rfl, -⟩ := Prod.mk.inj (Except.ok.inj (hfeed.symm.trans hfeed'))
    rw [hms] at hplain ⊢
    have hafter := laid_extractMembers hv hv.laid (Layout.grounded_bare base) hplain []
    unfold After at hafter
    rw [hfold] at hafter
    obtain ⟨l, hl, hlaid⟩ := hafter
    rw [funext hlaid.seen]
    exact Layout.produces hl
  refine ⟨hproduces, fun hclash => ?_⟩
  rcases hrun : (extract archive dest).run w with ⟨e | names, v⟩
  · exact ⟨e, v, rfl⟩
  · exact absurd hclash (hproduces names v hrun).apart

/-! ### Archives that were written -/

/-- A directory "d", and beside it the archive "a". -/
def besideArchive (content : Bytes) (user : User := .owner) : FileTree :=
  let t := ((FileTree.empty.put [[100]] (.directory 0o755)).putFile [[97]] 0o644).2.append 0 content
  { t with user := user }

variable {user : User}

lemma vacant_besideArchive (content : Bytes) :
    Vacant [100] [[100]] 0o755 (besideArchive content user) where
  sound := ((sound_empty.put (by simp)).putFile 0o644).modifyFile 0 fun f =>
    { f with content := f.content ++ content }
  leads := by cases user <;> rfl
  empty ns hne := by
    obtain ⟨x, more, rfl⟩ := List.exists_cons_of_ne_nil hne
    have hfile : ([[100]] ++ x :: more : Location) ≠ [[97]] := by simp
    have hdir : ([[100]] ++ x :: more : Location) ≠ [[100]] := by simp
    show ((FileTree.empty.put [[100]] (.directory 0o755)).putFile [[97]] 0o644).2.node? _ = none
    rw [node?_putFile, if_neg hfile, node?_put, if_neg hdir]
    rfl

lemma lookup_besideArchive (content : Bytes) :
    (besideArchive content user).lookup true [97] = .ok ([[97]], .file 0) := by
  cases user <;> rfl

lemma mayRead_besideArchive (content : Bytes) :
    (besideArchive content user).user.mayRead 0o644 = true := by
  cases user <;> rfl

lemma feedOf_besideArchive {data : Bytes} (h : data.length < 65536) :
    (feedOf [97]).run (besideArchive (gzipped data) user) =
      .ok (⟨data, true, 0⟩, besideArchive (gzipped data) user) := by
  have hfile : (besideArchive (gzipped data) user).file? 0 = some ⟨gzipped data, 0o644⟩ := rfl
  exact feedOf_member (lookup_besideArchive _) hfile (mayRead_besideArchive _) (isMember_gzipped h)
    (List.append_nil _).symm

lemma ok_of_toOption {ε α : Type} {r : Except ε α} {x : α} (h : r.toOption = some x) :
    r = .ok x := by
  rcases r with e | y
  · cases h
  · exact congrArg _ (Option.some.inj h)

variable {es : List Entry}

lemma members_besideArchive (hes : ∀ e ∈ es, e.Fits) (h : (written es).length < 65536) :
    members ⟨written es, true, 0⟩ = (es.map Entry.member, true) := by
  have hsize : (written es).length < UInt64.size := lt_trans h (by decide)
  have hread := members_written hes hsize [] true
  rwa [List.append_nil] at hread

/-- What was put into an archive is unpacked one after the other. -/
lemma extract_besideArchive (hes : ∀ e ∈ es, e.Fits) (h : (written es).length < 65536) :
    (extract [97] [100]).run { files := besideArchive (gzipped (written es)) user } =
      ((es.map Entry.member).foldlM (extractMember [100]) []).run
        { files := besideArchive (gzipped (written es)) user } :=
  run_extract_whole (w := { files := _ }) (feedOf_besideArchive h)
    (members_besideArchive hes h)

/-- A directory "a", two files "a/b" and a file "c/d". -/
def twiceWritten : List Entry :=
  [⟨[97, 47], true, 0o700, []⟩, ⟨[97, 47, 98], false, 0o600, [1]⟩,
    ⟨[97, 47, 98], false, 0o640, [2]⟩, ⟨[99, 47, 100], false, 0o644, []⟩]

lemma fits_twiceWritten : ∀ e ∈ twiceWritten, e.Fits := by decide

lemma length_twiceWritten : (written twiceWritten).length < 65536 := by decide +kernel

lemma extract_twiceWritten : ∃ v, (extract [97] [100]).run
    { files := besideArchive (gzipped (written twiceWritten)) } = (.ok [[97], [99]], v) := by
  rw [extract_besideArchive fits_twiceWritten length_twiceWritten]
  exact ⟨_, Prod.ext (ok_of_toOption (by decide +kernel)) rfl⟩

/-- A directory "a" that its owner may not write to, and the file "a/b" twice. -/
def readOnly : List Entry :=
  [⟨[97, 47], true, 0o555, []⟩, ⟨[97, 47, 98], false, 0o600, [1]⟩,
    ⟨[97, 47, 98], false, 0o640, [2]⟩]

/-- The superuser puts files into a directory that is not to be written to. -/
theorem extract_produces_readOnly :
    ∃ v, (extract [97] [100]).run
        { files := besideArchive (gzipped (written readOnly)) .superuser } = (.ok [[97]], v) ∧
      Layout.Produces 0o755 (readOnly.map Entry.member)
        fun ns => v.files.object? ([[100]] ++ ns) := by
  have hfits : ∀ e ∈ readOnly, e.Fits := by decide
  have hlength : (written readOnly).length < 65536 := by decide +kernel
  have hmembers := members_besideArchive hfits hlength
  have hplain : ∀ m ∈ (members ⟨written readOnly, true, 0⟩).1, m.IsPlain := by
    rw [hmembers]
    decide
  have hrun : ∃ v, (extract [97] [100]).run
      { files := besideArchive (gzipped (written readOnly)) .superuser } = (.ok [[97]], v) := by
    rw [extract_besideArchive hfits hlength]
    exact ⟨_, Prod.ext (ok_of_toOption (by decide +kernel)) rfl⟩
  obtain ⟨v, hrun⟩ := hrun
  have h := (extract_produces
    (w := { files := besideArchive (gzipped (written readOnly)) .superuser })
    (vacant_besideArchive _) (feedOf_besideArchive hlength) hplain).1 _ _ hrun
  rw [hmembers] at h
  exact ⟨v, hrun, h⟩

/-- A directory "a" that hands its group on, and a file "a/b/c". -/
def handedOn : List Entry :=
  [⟨[97, 47], true, 0o2755, []⟩, ⟨[97, 47, 98, 47, 99], false, 0o644, []⟩]

/-- The directory "a/b" that no member is at takes after "a". -/
theorem extract_handedOn :
    (∀ e ∈ handedOn, e.Fits ∧ e.member.IsPlain ∧ e.member.names ≠ [[97], [98]]) ∧
      Vacant [100] [[100]] 0o755 (besideArchive (gzipped (written handedOn)) .superuser) ∧
      ∃ v, (extract [97] [100]).run
          { files := besideArchive (gzipped (written handedOn)) .superuser } = (.ok [[97]], v) ∧
        v.files.object? [[100], [97], [98]] = some (.directory 0o2755) ∧
        v.files.object? [[100], [97], [98]] ≠ some (.directory 0o755) := by
  have hfits : ∀ e ∈ handedOn, e.Fits := by decide
  have hplain : ∀ e ∈ handedOn, e.member.IsPlain ∧ e.member.names ≠ [[97], [98]] := by decide
  refine ⟨fun e he => ⟨hfits e he, hplain e he⟩, vacant_besideArchive _, ?_⟩
  rw [extract_besideArchive hfits (by decide +kernel)]
  refine ⟨_, Prod.ext (ok_of_toOption (by decide +kernel)) rfl, ?_, ?_⟩
  · decide +kernel
  · decide +kernel

end PinnedBuild.Archive
