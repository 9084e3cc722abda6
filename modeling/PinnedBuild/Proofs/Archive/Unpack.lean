import Mathlib
import PinnedBuild.Proofs.Action
import PinnedBuild.Proofs.Archive.Confinement
import PinnedBuild.Proofs.Archive.Names

/-!
Every part of unpacking one member keeps what is outside as it was, however it ends.
-/

namespace PinnedBuild.Archive.Unpacking

open Files FileTree

variable {dest p : Path} {root : Location} {names : List Name} {t₀ t : FileTree} {x : Name}
  {m : Member}

lemma after_act {α : Type} {a : FileAct α} {Q : α → FileTree → Prop}
    {E : UnpackError → FileTree → Prop} (h : After a t Q fun e => E (.file e)) :
    After (act a) t Q E := by
  unfold After at h ⊢
  unfold act
  rw [ExceptT.run_mk]
  rcases ha : a.run t with ⟨e | x, u⟩ <;> rw [ha] at h <;> exact h

lemma after_op {α : Type} {o : FileOp α} {Q : α → FileTree → Prop}
    {E : UnpackError → FileTree → Prop} (hok : ∀ x u, o.run t = .ok (x, u) → Q x u)
    (herr : ∀ e, o.run t = .error e → E (.file e) t) : After (op o) t Q E :=
  after_act (FileOp.after_toAct hok herr)

lemma after_op_ok {α : Type} {o : FileOp α} {x : α} {Q : α → FileTree → Prop}
    {E : UnpackError → FileTree → Prop} (h : o.run t = .ok (x, u)) (hQ : Q x u) :
    After (op o) t Q E := by
  refine after_op (fun y v hv => ?_) fun e he => ?_
  · obtain ⟨rfl, rfl⟩ := Prod.mk.inj (Except.ok.inj (h.symm.trans hv))
    exact hQ
  · cases h.symm.trans he

lemma after_op_error {α : Type} {o : FileOp α} {e : FileError} {Q : α → FileTree → Prop}
    {E : UnpackError → FileTree → Prop} (h : o.run t = .error e) (hE : E (.file e) t) :
    After (op o) t Q E := by
  refine after_op (fun y v hv => ?_) fun e' he => ?_
  · cases h.symm.trans hv
  · obtain rfl := Except.error.inj (h.symm.trans he)
    exact hE

lemma run_op {α : Type} (o : FileOp α) (t : FileTree) :
    (op o).run t = match o.run t with
      | .ok (x, u) => (.ok x, u)
      | .error e => (.error (.file e), t) := by
  unfold op act
  rw [ExceptT.run_mk, FileOp.run_toAct]
  rcases o.run t with e | ⟨x, u⟩ <;> rfl

/-! ### The directories that a member goes into -/

lemma after_present {Q : Bool → FileTree → Prop} {E : UnpackError → FileTree → Prop}
    (h : Q (t.lookup false p).isOk t) : After (present p) t Q E := h

/-- A check changes nothing, and what passes it lies below the directory's place. -/
lemma after_insideOf (dest p : Path) (t : FileTree) :
    After (insideOf dest p) t
      (fun _ u => u = t ∧ ∃ l n r k, t.lookup true p = .ok (l, n) ∧
        t.lookup true dest = .ok (r, k) ∧ r <+: l)
      (fun _ u => u = t) := by
  refine after_bind (after_op ?_ fun _ _ => rfl)
  rintro l u hl
  obtain ⟨rfl, n, hl⟩ := FileOp.realLocation_ok hl
  refine after_bind (after_op ?_ fun _ _ => rfl)
  rintro r u hr
  obtain ⟨rfl, k, hr⟩ := FileOp.realLocation_ok hr
  split
  · rename_i hp
    exact after_pure ⟨rfl, l, n, r, k, hl, hr, List.isPrefixOf_iff_prefix.mp hp⟩
  · exact after_throw rfl

lemma run_insideOf {l : Location} {n k : Node} (hl : t.lookup true p = .ok (l, n))
    (hr : t.lookup true dest = .ok (root, k)) (hin : root <+: l) :
    (insideOf dest p).run t = (.ok (), t) := by
  unfold insideOf
  rw [run_bind, run_op, FileOp.run_realLocation, hl]
  simp only [Except.map]
  rw [run_bind, run_op, FileOp.run_realLocation, hr]
  simp only [Except.map]
  rw [if_pos (List.isPrefixOf_iff_prefix.mpr hin)]
  rfl

lemma run_insideOf_denied {e : FileError} (dest : Path)
    (hl : t.lookup true p = .error e) : (insideOf dest p).run t = (.error (.file e), t) := by
  unfold insideOf
  rw [run_bind, run_op, FileOp.run_realLocation, hl]
  rfl

lemma after_insideOf_below (h : Kept dest root t₀ t) :
    After (insideOf dest (below dest names)) t
      (fun _ u => u = t ∧ Held dest root names t₀ t ∧
        ∃ l n, t.lookup true (below dest names) = .ok (l, n))
      (fun _ u => u = t) := by
  refine (after_insideOf dest (below dest names) t).mono ?_ fun _ _ he => he
  rintro _ u ⟨rfl, l, n, r, k, hl, hr, hp⟩
  refine ⟨rfl, ⟨h, fun l' n' hl' => ?_⟩, l, n, hl⟩
  obtain ⟨rfl, rfl⟩ := lookup_unique hl hl'
  rwa [← h.settled r k hr]

/-- Only one directory is made: the one above it is there, so that nothing is missing. -/
lemma after_ensureDirectory (hd : dest ≠ []) (hn : ∀ x ∈ names, Plain x) (hx : Plain x)
    (h : Held dest root names t₀ t) {l : Location} {n : Node}
    (hl : t.lookup true (below dest names) = .ok (l, n)) :
    After (act (FileAct.ensureDirectory ((below dest names).join x))) t
      (fun _ => Kept dest root t₀) (fun _ => Kept dest root t₀) := by
  have hq := below_ne_nil hd hn
  have hne : (below dest names).join x ≠ [] :=
    List.isEmpty_eq_false_iff.mp (Path.isEmpty_join hx)
  refine after_act (FileOp.after_ensureDirectory hne (fun u hu => ?_) fun e he => ⟨?_, ?_⟩)
  · exact (h.changedAt hd hn (changedAt_makeDirectory hq hx hu).1).kept
  · exact FileOp.makeDirectory_join_error hq hx hl he
  · exact ⟨fun _ => h.kept, h.kept⟩

lemma after_makeAncestors (hd : dest ≠ []) (done rest : List Name)
    (hn : ∀ x ∈ done ++ rest, Plain x) (h : Kept dest root t₀ t) :
    After (makeAncestors dest done rest) t
      (fun _ => Kept dest root t₀) (fun _ => Kept dest root t₀) := by
  induction rest generalizing done t with
  | nil => exact after_pure h
  | cons name rest ih =>
    have hdone : ∀ x ∈ done, Plain x := fun x hx => hn x (by simp [hx])
    have hrest : ∀ x ∈ (done ++ [name]) ++ rest, Plain x := fun x hx => hn x (by simpa using hx)
    refine after_bind (after_present ?_)
    split
    · exact ih _ hrest h
    · refine after_bind ((after_insideOf_below h).mono ?_ ?_)
      · rintro _ u ⟨rfl, hh, l, n, hl⟩
        rw [below_append]
        refine after_bind ((after_ensureDirectory hd hdone (hn name (by simp)) hh hl).mono ?_
          fun _ _ he => he)
        exact fun _ u hu => ih _ hrest hu
      · rintro _ u rfl
        exact h

lemma after_ensureParent (hd : dest ≠ []) (hn : ∀ x ∈ names, Plain x) (h : Kept dest root t₀ t) :
    After (ensureParent dest names) t
      (fun _ => Kept dest root t₀) (fun _ => Kept dest root t₀) := by
  have hmake : After (do unless ← present (below dest names) do makeAncestors dest [] names) t
      (fun _ => Kept dest root t₀) (fun _ => Kept dest root t₀) := by
    refine after_bind (after_present ?_)
    split
    · exact after_pure h
    · exact after_makeAncestors hd [] names hn h
  refine after_bind (after_present ?_)
  split
  · exact hmake
  · exact after_bind (after_throw h)

/-! ### What a member becomes -/

lemma after_linkName {Q : Path → FileTree → Prop} {E : UnpackError → FileTree → Prop}
    (hE : ∀ e, E e t) (hQ : ∀ target, Q target t) : After (linkName m) t Q E := by
  unfold linkName
  split
  · exact after_throw (hE _)
  · exact after_throw (hE _)
  · exact after_pure (hQ _)

/-- Makes something. What is there already is removed first, unless it is a directory. -/
def replace {α : Type} (o : FileOp α) (p : Path) : Unpacking α := do
  try op o
  catch e =>
    if e = .file .exists then do
      op (FileOp.removeFile p)
      op o
    else fail e

lemma openNew_eq (p : Path) : openNew p = replace (FileOp.createNew p) p := rfl

lemma symbolicLink_eq (m : Member) (p : Path) : symbolicLink m p =
    linkName m >>= fun target => replace (FileOp.makeLink target p) p := rfl

/-- Something is made at once, or after what is there has been removed. -/
lemma after_replace {α : Type} {o : FileOp α} {p : Path} {Q : α → FileTree → Prop}
    {E : UnpackError → FileTree → Prop} (hE : ∀ e, E e t)
    (hgone : ∀ y v, (FileOp.removeFile p).run t = .ok (y, v) → ∀ e, E e v)
    (hnew : ∀ y u, o.run t = .ok (y, u) → Q y u)
    (hold : ∀ z v, (FileOp.removeFile p).run t = .ok (z, v) →
      ∀ y u, o.run v = .ok (y, u) → Q y u) : After (replace o p) t Q E := by
  refine after_tryCatch (after_op hnew fun e _ => ?_)
  split
  · refine after_bind (after_op (fun z v hv => ?_) fun _ _ => hE _)
    exact after_op (hold z v hv) fun e _ => hgone z v hv _
  · exact after_throw (hE _)

/-- What a member becomes at its path. -/
def become (m : Member) (dest p : Path) : Unpacking Unit :=
  match m.kind with
  | .directory => directory m p
  | .hardLink => hardLink m dest p
  | .symbolicLink => symbolicLink m p
  | .file => file m p
  | .globalRecords | .attachment => pure ()

/-- What lasts through every change at the place of a name in the directory that a path leads to, as
well as through changes of files that are made in the meantime. -/
structure Steady (q : Path) (x : Name) (P : FileTree → Prop) : Prop where
  changed {t u : FileTree} : P t → ChangedAt q x t u → P u
  filled {t u : FileTree} {id : Nat} (change : File → File) : P t → t.files.length ≤ id → P u →
    P (u.modifyFile id change)

lemma steady_held (hd : dest ≠ []) (hn : ∀ x ∈ names, Plain x) :
    Steady (below dest names) x (Held dest root names t₀) where
  changed h hc := h.changedAt hd hn hc
  filled change h hid hu := hu.modifyFile (le_trans h.kept.grown hid) change

namespace Steady

variable {q : Path} {P : FileTree → Prop} (hP : Steady q x P) (hq : q ≠ []) (hx : Plain x)
  (h : P t)

include hP hq hx h

lemma after_directoryMode (m : Member) {l : Location} {k : Mode}
    (hl : t.lookup false (q.join x) = .ok (l, .directory k)) :
    After (match m.mode with
      | some mode => op (FileOp.changeMode (q.join x) mode)
      | none => pure ()) t (fun _ => P) (fun _ => P) := by
  split
  · exact after_op (fun _ v hv => hP.changed h (changedAt_changeMode hq hx hl hv)) fun _ _ => h
  · exact after_pure h

lemma after_directory (m : Member) :
    After (directory m (q.join x)) t (fun _ => P) (fun _ => P) := by
  refine after_bind (after_tryCatch (after_op ?_ fun e _ => ?_))
  · intro _ u hu
    obtain ⟨hc, l, k, hl⟩ := changedAt_makeDirectory hq hx hu
    exact after_directoryMode hP hq hx (hP.changed h hc) m hl
  · refine after_bind (after_get ?_)
    split
    · rename_i l k hl
      split
      · exact after_pure (after_directoryMode hP hq hx h m hl)
      · exact after_throw h
    · exact after_throw h

lemma after_replace {α : Type} {o : FileOp α} {Q : α → FileTree → Prop}
    (ho : ∀ u y v, P u → o.run u = .ok (y, v) → Q y v) :
    After (replace o (q.join x)) t Q (fun _ => P) := by
  have hgone : ∀ y v, (FileOp.removeFile (q.join x)).run t = .ok (y, v) → P v :=
    fun y v hv => hP.changed h (changedAt_removeFile hq hx hv)
  exact Unpacking.after_replace (fun _ => h) (fun y v hv _ => hgone y v hv)
    (fun y u hu => ho t y u h hu) fun z v hv y u hu => ho v y u (hgone z v hv) hu

lemma after_symbolicLink (m : Member) :
    After (symbolicLink m (q.join x)) t (fun _ => P) (fun _ => P) := by
  rw [symbolicLink_eq]
  refine after_bind (after_linkName (fun _ => h) fun target => ?_)
  exact after_replace hP hq hx h fun u y v hu hv => hP.changed hu (changedAt_makeLink hq hx hv)

lemma after_hardLink (m : Member) (dest : Path) :
    After (hardLink m dest (q.join x)) t (fun _ => P) (fun _ => P) := by
  refine after_bind (after_linkName (fun _ => h) fun target => ?_)
  refine after_bind (after_op ?_ fun _ _ => h)
  rintro r u hr
  obtain ⟨rfl, -⟩ := FileOp.realLocation_ok hr
  refine after_bind ((after_insideOf dest _ u).mono ?_ fun _ u hu => hu ▸ h)
  rintro _ v ⟨rfl, -⟩
  exact after_op (fun _ w hw => hP.changed h (changedAt_hardLink hq hx hw)) fun _ _ => h

/-- What is opened is a file that may be changed. -/
lemma after_openNew : After (openNew (q.join x)) t
    (fun f u => P u ∧ ∃ id, f = .file id ∧ ∀ v change, P v → P (v.modifyFile id change))
    (fun _ => P) := by
  rw [openNew_eq]
  refine after_replace hP hq hx h fun u f v hu hv => ?_
  obtain ⟨hc, rfl⟩ := changedAt_createNew hq hx hv
  exact ⟨hP.changed hu hc, _, rfl, fun v change => hP.filled change hu (Nat.le_refl _)⟩

omit hP hq hx in
lemma after_writeSegment {id : Nat} (hi : ∀ v change, P v → P (v.modifyFile id change))
    (s : Segment) : After (writeSegment (.file id) s) t (fun _ => P) (fun _ => P) := by
  have hwrite : ∀ b y u, (FileOp.write (.file id) b).run t = .ok (y, u) → P u := by
    intro b y u hu
    rw [FileOp.write_file_ok hu]
    exact hi _ _ h
  rcases s with n | ⟨expected, bytes⟩
  · exact after_op (hwrite _) fun _ _ => h
  · refine after_bind (after_op (fun y u hu => ?_) fun _ _ => h)
    split
    · exact after_pure (hwrite _ y u hu)
    · exact after_throw (hwrite _ y u hu)

lemma after_file (m : Member) : After (file m (q.join x)) t (fun _ => P) (fun _ => P) := by
  refine after_bind ((after_openNew hP hq hx h).mono ?_ fun _ _ he => he)
  rintro _ u ⟨hu, id, rfl, hi⟩
  refine after_bind ((after_forM (fun s v hv => after_writeSegment hv hi s) m.body u hu).mono ?_
    fun _ _ he => he)
  intro _ v hv
  unfold setPermissions
  split
  · refine after_op (fun _ w hw => ?_) fun _ _ => hv
    rw [FileOp.setMode_file_ok hw]
    exact hi _ _ hv
  · exact after_pure hv

/-- Whatever a member is, it becomes that at one path. -/
lemma after_become (m : Member) (dest : Path) :
    After (become m dest (q.join x)) t (fun _ => P) (fun _ => P) := by
  unfold become
  rcases m.kind
  · exact after_file hP hq hx h m
  · exact after_directory hP hq hx h m
  · exact after_symbolicLink hP hq hx h m
  · exact after_hardLink hP hq hx h m dest
  · exact after_pure h
  · exact after_pure h

end Steady

/-! ### One member -/

lemma foldlM_some {β γ : Type} {f : β → γ → Option β} {P : β → Prop} {l : List γ}
    (hf : ∀ b, ∀ c ∈ l, P b → ∀ b', f b c = some b' → P b') {b b' : β} (hb : P b)
    (h : l.foldlM f b = some b') : P b' := by
  induction l generalizing b with
  | nil => exact Option.some.inj h ▸ hb
  | cons c l ih =>
    rw [List.foldlM_cons] at h
    obtain ⟨b₁, h₁, h⟩ := Option.bind_eq_some_iff.mp h
    refine ih (fun b d hd => hf b d (List.mem_cons_of_mem _ hd)) ?_ h
    exact hf b c (List.mem_cons_self ..) hb b₁ h₁

lemma plain_of_names? {p : Path} {ns : List Name} (h : names? p = some ns) :
    ∀ x ∈ ns, Plain x := by
  refine foldlM_some (P := fun ns => ∀ x ∈ ns, Plain x) ?_ (by simp) h
  intro ns c hc hns ns' hf
  rcases c with _ | _ | _ | n
  · exact Option.some.inj hf ▸ hns
  · exact Option.some.inj hf ▸ hns
  · simp at hf
  · obtain rfl := Option.some.inj hf
    intro x hx
    rcases List.mem_append.mp hx with hx | hx
    · exact hns x hx
    · obtain rfl := List.mem_singleton.mp hx
      exact Path.plain_of_mem_components hc

/-- A member that leads upwards is passed over, and one without names stands for the directory
itself. Any other goes into the directory that its names but the last lead to. -/
lemma member_cases (dest : Path) (m : Member) :
    (m.LeadsUp ∧ member dest m = pure false) ∨
      (¬ m.LeadsUp ∧ m.names = [] ∧ member dest m = pure true) ∨
      ∃ front x, ¬ m.LeadsUp ∧ m.names = front ++ [x] ∧ (∀ y ∈ front, Plain y) ∧ Plain x ∧
        member dest m = do
          ensureParent dest front
          insideOf dest (below dest front)
          become m dest ((below dest front).join x)
          return true := by
  by_cases hup : m.LeadsUp
  · refine .inl ⟨hup, ?_⟩
    unfold member
    rw [names?_of_leadsUp hup]
  have hnames? := names?_of_not_leadsUp hup
  rcases List.eq_nil_or_concat m.names with hnil | ⟨front, x, hnames⟩
  · refine .inr (.inl ⟨hup, hnil, ?_⟩)
    unfold member
    rw [hnames?, hnil]
  · rw [List.concat_eq_append] at hnames
    have hp := plain_of_names? hnames?
    rw [hnames] at hnames? hp
    refine .inr (.inr ⟨front, x, hup, hnames, fun y hy => hp y (by simp [hy]), hp x (by simp), ?_⟩)
    unfold member become
    rw [hnames?]
    split
    · simp_all
    · simp_all
    · rename_i ns _ hns
      obtain rfl := Option.some.inj hns
      simp only [List.dropLast_concat, below_append]
      cases m.kind <;> rfl

/-- Unpacking a member keeps what is outside, whether or not it succeeds. -/
lemma after_member (hd : dest ≠ []) (h : Kept dest root t₀ t) (m : Member) :
    After (member dest m) t (fun _ => Kept dest root t₀) (fun _ => Kept dest root t₀) := by
  rcases member_cases dest m with ⟨-, heq⟩ | ⟨-, -, heq⟩ | ⟨front, x, -, -, hfront, hx, heq⟩ <;>
    rw [heq]
  · exact after_pure h
  · exact after_pure h
  · refine after_bind ((after_ensureParent hd hfront h).mono ?_ fun _ _ he => he)
    intro _ u hu
    refine after_bind ((after_insideOf_below hu).mono ?_ fun _ _ he => he ▸ hu)
    rintro _ v ⟨rfl, hh, -⟩
    have hsteady : Steady (below dest front) x (Held dest root front t₀) := steady_held hd hfront
    refine after_bind ((hsteady.after_become (below_ne_nil hd hfront) hx hh m dest).mono ?_
      fun _ _ hw => hw.kept)
    exact fun _ w hw => after_pure hw.kept

end PinnedBuild.Archive.Unpacking
