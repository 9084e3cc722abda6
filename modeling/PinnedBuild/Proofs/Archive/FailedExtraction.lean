import Mathlib
import PinnedBuild.Proofs.Archive.FirstMember
import PinnedBuild.Proofs.Archive.Skipping

/-!
What is left by extraction that fails. The members in front of the one it fails at are unpacked as
they are from an archive that ends before it. Of that one there may be some of the directories that
lead to it, and something at its own place, and nothing else.
-/

namespace PinnedBuild.Archive

open Files FileTree

variable {dest archive : Path} {names front : List Name} {x : Name} {t₀ t u : FileTree} {m : Member}
  {ms : List Member} {whole : Bool} {w v : World} {feed : Feed}

/-! ### What one member leaves -/

/-- Some directories are made where nothing was, each in the one that the names above it lead to. -/
structure Raised (dest : Path) (names : List Name) (t u : FileTree) : Prop where
  made loc : u.node? loc = t.node? loc ∨
    t.node? loc = none ∧ (∃ k, u.node? loc = some (.directory k)) ∧
      ∃ done x dir n, done ++ [x] <+: names ∧
        u.lookup true (Unpacking.below dest done) = .ok (dir, n) ∧ loc = dir ++ [x]
  files : u.files = t.files
  cwd : u.cwd = t.cwd
  user : u.user = t.user

/-- But for one place the tree is the same, and no file that was there is changed. -/
structure SameElsewhere (at_ : Location) (t u : FileTree) : Prop where
  node loc : loc ≠ at_ → u.node? loc = t.node? loc
  files : ∀ id < t.files.length, u.file? id = t.file? id
  grown : t.files.length ≤ u.files.length
  cwd : u.cwd = t.cwd
  user : u.user = t.user

/-- What may be left of a member: directories on the way to it, and something at its own place,
which is that of the last of its names where those before it lead. -/
def Remains (dest : Path) (m : Member) (t u : FileTree) : Prop :=
  ∃ raised, Raised dest m.names.dropLast t raised ∧
    (u = raised ∨ ∃ dir n x,
      raised.lookup true (Unpacking.below dest m.names.dropLast) = .ok (dir, n) ∧
      m.names.getLast? = some x ∧ SameElsewhere (dir ++ [x]) raised u)

lemma Raised.refl (dest : Path) (names : List Name) (t : FileTree) : Raised dest names t t :=
  ⟨fun _ => .inl rfl, rfl, rfl, rfl⟩

lemma Raised.extends_ (h : Raised dest names t u) : t.Extends u := by
  refine ⟨h.user, fun loc n hn => ?_⟩
  rcases h.made loc with hsame | ⟨hnone, -⟩
  · exact hsame.trans hn
  · rw [hnone] at hn
    cases hn

/-- One more directory is made. All that led somewhere still does. -/
lemma Raised.put (h : Raised dest names t₀ t) {done : List Name} {dir : Location} {n : Node}
    {k : Mode} (hnames : done ++ [x] <+: names)
    (hdir : t.lookup true (Unpacking.below dest done) = .ok (dir, n))
    (hnone : t.node? (dir ++ [x]) = none) :
    Raised dest names t₀ (t.put (dir ++ [x]) (.directory k)) := by
  have hlasts : ∀ {p l n}, t.lookup true p = .ok (l, n) →
      (t.put (dir ++ [x]) (.directory k)).lookup true p = .ok (l, n) := fun hl =>
    lookup_extends (extends_put hnone) rfl hl
  refine ⟨fun loc => ?_, h.files, h.cwd, h.user⟩
  by_cases hloc : loc = dir ++ [x]
  · subst hloc
    rcases h.made (dir ++ [x]) with hsame | ⟨-, ⟨k', hk'⟩, -⟩
    · refine .inr ⟨hsame.symm.trans hnone, ⟨k, ?_⟩, done, x, dir, n, hnames, hlasts hdir, rfl⟩
      rw [node?_put, if_pos rfl]
    · rw [hnone] at hk'
      cases hk'
  · rw [node?_put, if_neg hloc]
    rcases h.made loc with hsame | ⟨hnew, hmade, done', y, dir', n', hnames', hdir', hloc'⟩
    · exact .inl hsame
    · exact .inr ⟨hnew, hmade, done', y, dir', n', hnames', hlasts hdir', hloc'⟩

/-- The names before the last lead to one directory, and nothing changes but at the place of the
last in it. -/
structure AtPlace (q : Path) (x : Name) (at_ : Location) (t u : FileTree) : Prop
    extends SameElsewhere at_ t u where
  leads l n : u.lookup true q = .ok (l, n) → l ++ [x] = at_

namespace Unpacking

lemma raised_ensureDirectory (hd : dest ≠ []) (hn : ∀ x ∈ front, Plain x) (hx : Plain x)
    (hnames : front ++ [x] <+: names) (h : Raised dest names t₀ t) {l : Location} {n : Node}
    (hl : t.lookup true (below dest front) = .ok (l, n)) :
    After (act (FileAct.ensureDirectory ((below dest front).join x))) t
      (fun _ => Raised dest names t₀) (fun _ => Raised dest names t₀) := by
  have hq := below_ne_nil hd hn
  have hne : (below dest front).join x ≠ [] :=
    List.isEmpty_eq_false_iff.mp (Path.isEmpty_join hx)
  refine after_act (FileOp.after_ensureDirectory hne (fun u hu => ?_) fun e he => ⟨?_, ?_⟩)
  · obtain ⟨dir, y, k, hf, -, rfl⟩ := FileOp.makeDirectory_ok hu
    have hw := (FileOp.foundBare_ok hf).2.1
    rw [FileOp.withoutSlashes_join hq hx] at hw
    obtain ⟨rfl, hnone, -, n', hdir⟩ := missing_at hq hx hw
    exact h.put hnames hdir hnone
  · exact FileOp.makeDirectory_join_error hq hx hl he
  · exact ⟨fun _ => h, h⟩

lemma raised_makeAncestors (hn : ∀ x ∈ names, Plain x) (done rest : List Name)
    (hnames : done ++ rest = names) (h : Raised dest names t₀ t) :
    After (makeAncestors dest done rest) t
      (fun _ => Raised dest names t₀) (fun _ => Raised dest names t₀) := by
  induction rest generalizing done t with
  | nil => exact after_pure h
  | cons name rest ih =>
    have hdone : ∀ x ∈ done, Plain x := fun x hx => hn x (by simp [← hnames, hx])
    have hname : Plain name := hn name (by simp [← hnames])
    have hrest : (done ++ [name]) ++ rest = names := by rw [← hnames, List.append_assoc]; rfl
    refine after_bind (after_present ?_)
    split
    · exact ih _ hrest h
    · refine after_bind ((after_insideOf dest (below dest done) t).mono ?_ fun _ _ hu => hu ▸ h)
      rintro _ u ⟨rfl, l, n, r, k, hl, hr, -⟩
      have hd : dest ≠ [] := (walk_ok (lookup_ok.mp hr)).1.notEmpty
      rw [below_append]
      refine after_bind ((raised_ensureDirectory hd hdone hname (hrest ▸ List.prefix_append _ _) h
        hl).mono ?_ fun _ _ hv => hv)
      exact fun _ v hv => ih _ hrest hv

lemma raised_ensureParent (hn : ∀ x ∈ names, Plain x) (h : Raised dest names t₀ t) :
    After (ensureParent dest names) t
      (fun _ => Raised dest names t₀) (fun _ => Raised dest names t₀) := by
  refine after_bind (after_present ?_)
  split
  · refine after_bind (after_present ?_)
    split
    · exact after_pure h
    · exact raised_makeAncestors hn [] names rfl h
  · exact after_bind (after_throw h)

lemma steady_atPlace (q : Path) (x : Name) (at_ : Location) (t₀ : FileTree) :
    Steady q x (AtPlace q x at_ t₀) where
  changed := by
    rintro t u h ⟨dir, n, hdir, hc⟩
    have hat := h.leads dir n hdir
    refine ⟨⟨fun loc hl => ?_, fun id hi => ?_, le_trans h.grown hc.grown, hc.cwd.trans h.cwd,
      hc.user.trans h.user⟩, fun l n' hl => ?_⟩
    · exact (hc.elsewhere loc (hat ▸ hl)).trans (h.node loc hl)
    · exact (hc.files id (lt_of_lt_of_le hi h.grown)).trans (h.files id hi)
    · rw [← lookup_agrees hc.agrees hc.cwd hdir hl]
      exact hat
  filled := by
    intro t u id change h hid hu
    refine ⟨⟨hu.node, fun id' hi => ?_, by simpa [FileTree.modifyFile] using hu.grown, hu.cwd,
      hu.user⟩, fun l n hl => ?_⟩
    · have hne : id ≠ id' := by
        have := h.grown
        omega
      rw [file?_modifyFile_of_ne hne]
      exact hu.files id' hi
    · exact hu.leads l n
        (lookup_extends (t := u.modifyFile id change) ⟨rfl, fun _ _ hn => hn⟩ rfl hl)

/-- However unpacking a member ends, it leaves nothing but what may be left of that member. -/
lemma remains_member (dest : Path) (m : Member) (t : FileTree) :
    After (member dest m) t (fun _ => Remains dest m t) (fun _ => Remains dest m t) := by
  have hsame : Remains dest m t t := ⟨t, .refl .., .inl rfl⟩
  rcases member_cases dest m with ⟨-, heq⟩ | ⟨-, -, heq⟩ |
    ⟨front, x, -, hnames, hfront, hx, heq⟩ <;>
    rw [heq]
  · exact after_pure hsame
  · exact after_pure hsame
  have hdrop : m.names.dropLast = front := by rw [hnames, List.dropLast_concat]
  have hraised : ∀ u, Raised dest front t u → Remains dest m t u := fun u hu =>
    ⟨u, hdrop.symm ▸ hu, .inl rfl⟩
  refine after_bind ((raised_ensureParent hfront (.refl dest front t)).mono ?_
    fun _ u hu => hraised u hu)
  intro _ u hu
  refine after_bind ((after_insideOf dest (below dest front) u).mono ?_
    fun _ v hv => hv ▸ hraised u hu)
  rintro _ v ⟨rfl, dir, n, r, k, hdir, hr, -⟩
  have hd : dest ≠ [] := (walk_ok (lookup_ok.mp hr)).1.notEmpty
  have hat : AtPlace (below dest front) x (dir ++ [x]) v v :=
    ⟨⟨fun _ _ => rfl, fun _ _ => rfl, Nat.le_refl _, rfl, rfl⟩, fun l k hl => by
      rw [(lookup_unique hl hdir).1]⟩
  have hplaced : ∀ s, AtPlace (below dest front) x (dir ++ [x]) v s → Remains dest m t s :=
    fun s hs => ⟨v, hdrop.symm ▸ hu, .inr ⟨dir, n, x, hdrop.symm ▸ hdir, by simp [hnames],
      hs.toSameElsewhere⟩⟩
  have hsteady := steady_atPlace (below dest front) x (dir ++ [x]) v
  refine after_bind ((hsteady.after_become (below_ne_nil hd hfront) hx hat m dest).mono ?_
    fun _ s hs => hplaced s hs)
  exact fun _ s hs => after_pure (hplaced s hs)

end Unpacking

/-! ### The members in front -/

/-- A member that is unpacked the same: what it holds is looked at only if it is a file that is put
somewhere. -/
structure Member.Alike (m m' : Member) : Prop where
  path : m'.path = m.path
  kind : m'.kind = m.kind
  link : m'.link = m.link
  mode : m'.mode = m.mode
  body : m.kind = .file → m.IsUnpacked → m.names ≠ [] → m'.body = m.body

namespace Member.Alike

variable {m' : Member}

lemma eq_of_body (h : m.Alike m') (hbody : m'.body = m.body) : m' = m := by
  obtain ⟨path, kind, link, mode, body⟩ := m
  obtain ⟨path', kind', link', mode', body'⟩ := m'
  obtain ⟨rfl, rfl, rfl, rfl, -⟩ := h
  obtain rfl : body' = body := hbody
  rfl

lemma unpacking (h : m.Alike m') (dest : Path) (hk : m.kind ≠ .globalRecords) :
    Unpacking.member dest m' = Unpacking.member dest m := by
  by_cases hbody : m'.body = m.body
  · rw [h.eq_of_body hbody]
  have hunread : m.kind = .file → m.LeadsUp ∨ m.names = [] := by
    intro hfile
    by_contra hread
    obtain ⟨hup, hne⟩ := not_or.mp hread
    exact hbody (h.body hfile ⟨hk, hup⟩ hne)
  unfold Unpacking.member Unpacking.directory Unpacking.hardLink Unpacking.symbolicLink
    Unpacking.linkName
  rw [h.path, h.kind, h.link, h.mode]
  cases hkind : m.kind with
  | file =>
    rcases hunread hkind with hup | hnil
    · rw [Unpacking.names?_of_leadsUp hup]
    · by_cases hup : m.LeadsUp
      · rw [Unpacking.names?_of_leadsUp hup]
      · rw [Unpacking.names?_of_not_leadsUp hup, hnil]
  | _ => rfl

/-- Where one of the two can be unpacked, the other can too, to the same end. -/
lemma run_extractMember (h : m.Alike m') {names names' : List Name}
    (hrun : (extractMember dest names m).run w = (.ok names', v)) :
    (extractMember dest names m').run w = (.ok names', v) := by
  unfold extractMember at hrun ⊢
  rw [h.kind]
  by_cases hk : m.kind = .globalRecords
  · rwa [if_pos hk] at hrun ⊢
  rw [if_neg hk] at hrun ⊢
  rw [run_bind, Act.run_onFiles] at hrun ⊢
  rw [h.unpacking dest hk, h.path]
  rcases hm : (Unpacking.member dest m).run w.files with ⟨e | unpacked, t⟩ <;> rw [hm] at hrun
  · cases hrun
  · exact hrun

lemma run_extractMembers {ms ms' : List Member} (h : List.Forall₂ Member.Alike ms ms')
    {names names' : List Name}
    (hrun : (ms.foldlM (extractMember dest) names).run w = (.ok names', v)) :
    (ms'.foldlM (extractMember dest) names).run w = (.ok names', v) := by
  induction h generalizing names w with
  | nil => exact hrun
  | @cons m m' ms ms' hm _ ih =>
    rw [List.foldlM_cons, run_bind] at hrun ⊢
    rcases hfirst : (extractMember dest names m).run w with ⟨e | names₁, w₁⟩ <;> rw [hfirst] at hrun
    · cases hrun
    · rw [hm.run_extractMember hfirst]
      exact ih hrun

end Member.Alike

/-- Members that can all be unpacked, which give some names and lead to the world `v`. -/
structure Unpacks (dest : Path) (w : World) (ms : List Member) (names : List Name) (v : World) :
    Prop where
  run : (ms.foldlM (extractMember dest) []).run w = (.ok names, v)
  /-- An archive of nothing but these is extracted to the same end. -/
  alone archive' feed' ms' : (feedOf archive').run w.files = .ok (feed', w.files) →
    members feed' = (ms', true) → List.Forall₂ Member.Alike ms ms' →
    (extract archive' dest).run w = (.ok names, v)

lemma unpacks_of_run (hrun : (ms.foldlM (extractMember dest) []).run w = (.ok names, v)) :
    Unpacks dest w ms names v where
  run := hrun
  alone archive' feed' ms' hfeed hms halike := by
    rw [run_extract_fed hfeed hms]
    unfold unpackAll
    rw [run_bind, Member.Alike.run_extractMembers halike hrun]
    rfl

/-! ### Extraction -/

/-- How extraction fails, with what it says and the world it leaves. -/
inductive Failure (archive dest : Path) (w : World) : ExtractError → String → World → Prop
  /-- The archive cannot be opened, and nothing is changed. -/
  | unopened {e : FileError} : (feedOf archive).run w.files = .error e →
      Failure archive dest w (.cannotOpen archive e)
        ("open " ++ archive.display ++ ": " ++ e.message) w
  /-- All members up to one whose header cannot be read are unpacked. -/
  | unread {feed : Feed} {done : List Member} {names : List Name} {v : World} {rest : String} :
      (feedOf archive).run w.files = .ok (feed, w.files) → members feed = (done, false) →
      Unpacks dest w done names v →
      Failure archive dest w (.corrupted archive)
        ("corrupted entry in " ++ archive.display ++ rest) v
  /-- All members up to one that cannot be unpacked are. -/
  | notUnpacked {feed : Feed} {done rest : List Member} {m : Member} {whole : Bool}
      {names : List Name} {v : World} {t : FileTree} {e : UnpackError} :
      (feedOf archive).run w.files = .ok (feed, w.files) →
      members feed = (done ++ m :: rest, whole) → Unpacks dest w done names v →
      (Unpacking.member dest m).run v.files = (.error e, t) → Remains dest m v.files t →
      Failure archive dest w (.cannotUnpack m e)
        ("unpack " ++ m.path.display ++ ": " ++ e.message) { v with files := t }

lemma extractMember_error {e : ExtractError} {u : World}
    (h : (extractMember dest names m).run v = (.error e, u)) :
    ∃ e' t, e = .cannotUnpack m e' ∧ u = { v with files := t } ∧
      (Unpacking.member dest m).run v.files = (.error e', t) := by
  unfold extractMember at h
  split at h
  · cases h
  rw [run_bind, Act.run_onFiles] at h
  rcases hm : (Unpacking.member dest m).run v.files with ⟨e' | unpacked, t⟩ <;> rw [hm] at h
  · obtain ⟨he, rfl⟩ := Prod.mk.inj h
    exact ⟨e', t, (Except.error.inj he).symm, rfl, rfl⟩
  · rcases unpacked with _ | _ <;> cases h

/-- **Failing archives**: extraction that fails leaves what all members in front of the one it fails
at come to, and of that one nothing but directories on the way to it and something at its own
place. It tells the archive if no more of it can be read, and otherwise the member. -/
theorem extract_fails {e : ExtractError} {u : World}
    (h : (extract archive dest).run w = (.error e, u)) : Failure archive dest w e e.message u := by
  cases hfeed : (feedOf archive).run w.files with
  | error e' =>
    rw [run_extract_unread hfeed] at h
    obtain ⟨he, rfl⟩ := Prod.mk.inj h
    obtain rfl := Except.error.inj he
    exact .unopened hfeed
  | ok opened =>
    obtain ⟨feed, t⟩ := opened
    obtain rfl := feedOf_ok hfeed
    obtain ⟨ms, whole, hms⟩ : ∃ ms whole, members feed = (ms, whole) := ⟨_, _, rfl⟩
    rw [run_extract_fed hfeed hms] at h
    unfold unpackAll at h
    rw [run_bind] at h
    rcases hfold : (ms.foldlM (extractMember dest) []).run w with ⟨e' | names, v⟩ <;>
      rw [hfold] at h
    · obtain ⟨he, rfl⟩ := Prod.mk.inj h
      obtain rfl := Except.error.inj he
      obtain ⟨done, m, rest, names, v', rfl, hdone, hm⟩ := run_foldlM_error hfold
      obtain ⟨e, t, rfl, rfl, hrun⟩ := extractMember_error hm
      have hremains : Remains dest m v'.files t := by
        have hall := Unpacking.remains_member dest m v'.files
        unfold After at hall
        rwa [hrun] at hall
      exact .notUnpacked hfeed hms (unpacks_of_run hdone) hrun hremains
    · cases whole with
      | true => cases h
      | false =>
        obtain ⟨he, rfl⟩ := Prod.mk.inj h
        obtain rfl := Except.error.inj he
        exact .unread hfeed hms (unpacks_of_run hfold)

/-- A file "f" and, as if that were a directory, a file "f/g". -/
def obstructed : List Entry :=
  [⟨[102], false, 0o644, [1]⟩, ⟨[102, 47, 103], false, 0o644, []⟩]

/-- The second is not unpacked, and the first is. -/
theorem extract_fails_obstructed :
    ∃ e u, (extract [97] [100]).run { files := besideArchive (gzipped (written obstructed)) } =
        (.error e, u) ∧
      Failure [97] [100] { files := besideArchive (gzipped (written obstructed)) } e e.message u ∧
      e.message = "unpack f/g: Not a directory (os error 20)" ∧
      u.files.object? [[100], [102]] = some (.file ⟨[1], 0o644⟩) := by
  have hfits : ∀ e ∈ obstructed, e.Fits := by decide
  have hrun := @extract_besideArchive .owner _ hfits (by decide +kernel)
  generalize hw : (extract [97] [100]).run
    { files := besideArchive (gzipped (written obstructed)) } = out at hrun
  have hmessage : out.1.mapError ExtractError.message =
      .error "unpack f/g: Not a directory (os error 20)" := by
    rw [hrun]
    decide +kernel
  have hfile : out.2.files.object? [[100], [102]] = some (.file ⟨[1], 0o644⟩) := by
    rw [hrun]
    decide +kernel
  obtain ⟨e | names, u⟩ := out
  · exact ⟨e, u, rfl, extract_fails hw, Except.error.inj hmessage, hfile⟩
  · cases hmessage

end PinnedBuild.Archive
