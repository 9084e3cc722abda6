import Mathlib
import PinnedBuild.Archive.Extract
import PinnedBuild.Proofs.Archive.Apart
import PinnedBuild.Proofs.Archive.Unpack
import PinnedBuild.Proofs.World

/-!
Extraction is confined to the directory it is asked to extract into.
-/

namespace PinnedBuild.Archive

open Files FileTree

variable {dest : Path} {root : Location} {t₀ t : FileTree} {w v : World}

/-! ### Side by side -/

section

variable {R : FileTree → FileTree → Prop} {S : World → World → Prop}

lemma twin_extractMember (hS : World.Lifts R S) (hR : Enduring R) (h : S w v) (dest : Path)
    (names : List Name) (m : Member) :
    Twin S (extractMember dest names m) (extractMember dest names m) w v := by
  unfold extractMember
  split
  · exact twin_pure _ h
  · refine (Act.twin_onFiles hS h (Unpacking.twin_member (hS.files h) hR dest m)).bind
      fun unpacked w v h => ?_
    split
    · exact twin_pure _ h
    · exact (Act.twin_say hS h _ _ _).bind fun _ _ _ h => twin_pure _ h

/-- Once the archive has been read the same, all that follows is the same. -/
lemma twin_extract (hS : World.Lifts R S) (hR : Enduring R) (h : S w v) {archive dest : Path}
    (hfeed : FileOp.Match R ((feedOf archive).run w.files) ((feedOf archive).run v.files)) :
    Twin S (extract archive dest) (extract archive dest) w v := by
  refine (Act.twin_onFiles hS h (hfeed.toAct (hS.files h))).bind fun feed w v h => ?_
  refine (twin_foldlM (fun names m _ _ h => twin_extractMember hS hR h dest names m)
    (members feed).1 [] h).bind fun names w v h => ?_
  split
  · exact twin_pure _ h
  · exact twin_throw _ h

end

/-! ### Confinement -/

/-- An old file may be changed in both trees. -/
lemma Kept.modifyFile (h : Kept dest root t₀ t) (id : Nat) (f : File → File) :
    Kept dest root (t₀.modifyFile id f) (t.modifyFile id f) where
  outside := h.outside
  files := by
    intro id' hi
    have hi' : id' < t₀.files.length := by simpa [FileTree.modifyFile] using hi
    have hf := h.files id' hi'
    simp only [file?, FileTree.modifyFile, List.getElem?_modify] at hf ⊢
    rw [hf]
  grown := by simpa [FileTree.modifyFile] using h.grown
  sound := h.sound.modifyFile id f
  settled loc n hl :=
    h.settled loc n (lookup_extends (t := t.modifyFile id f) ⟨rfl, fun _ _ hn => hn⟩ rfl hl)

/-- A world after members were unpacked: some lines are logged, and the files are kept. -/
def Unpacked (dest : Path) (root : Location) (w v : World) : Prop :=
  ∃ lines t, v = { w.logged lines with files := t } ∧ Kept dest root (w.logged lines).files t

lemma Unpacked.say (h : Unpacked dest root w v) (line : LogLine) :
    Unpacked dest root w (v.say line) := by
  obtain ⟨lines, t, rfl, hk⟩ := h
  unfold World.say
  split
  · rw [Unpacked, exists_comm]
    have hr : ∃ u, World.record line { w.logged lines with files := t } =
          { (w.logged lines).record line with files := u } ∧
        Kept dest root ((w.logged lines).record line).files u := by
      unfold World.record
      cases (w.logged lines).sink with
      | file id => exact ⟨_, rfl, hk.modifyFile id _⟩
      | none => exact ⟨t, rfl, hk⟩
      | standardError => exact ⟨t, rfl, hk⟩
    obtain ⟨u, hu, hk'⟩ := hr
    refine ⟨u, lines ++ [line], ?_, ?_⟩ <;> rw [World.logged_snoc]
    · rw [hu]
      rfl
    · exact hk'
  · exact ⟨lines, t, rfl, hk⟩

lemma after_extractMember (hd : dest ≠ []) (names : List Name) (m : Member)
    (h : Unpacked dest root w v) :
    After (extractMember dest names m) v
      (fun _ => Unpacked dest root w) (fun _ => Unpacked dest root w) := by
  unfold extractMember
  split
  · exact after_pure h
  obtain ⟨lines, t, rfl, hk⟩ := h
  refine after_bind (Act.after_onFiles ((Unpacking.after_member hd hk m).mono ?_ ?_))
  · intro b u hu
    have hv : Unpacked dest root w { w.logged lines with files := u } := ⟨lines, u, rfl, hu⟩
    split
    · exact after_pure hv
    · exact after_bind (after_modify (after_pure (hv.say _)))
  · exact fun _ u hu => ⟨lines, u, rfl, hu⟩

lemma feedOf_ok {archive : Path} {feed : Feed} {u : FileTree}
    (h : (feedOf archive).run t = .ok (feed, u)) : u = t := by
  unfold feedOf at h
  rw [FileOp.run_bind] at h
  rcases ho : (FileOp.openRead archive).run t with e | ⟨f, v⟩ <;> rw [ho] at h
  · simp at h
  obtain ⟨rfl, -⟩ := FileOp.openRead_ok ho
  have hread : ∀ f, (do return Gzip.feed (← FileOp.contents f) : FileOp Feed).run v =
      .ok (feed, u) → u = v := by
    intro f hf
    rw [FileOp.run_bind] at hf
    rcases hc : (FileOp.contents f).run v with e | ⟨b, v'⟩ <;> rw [hc] at hf
    · simp at hf
    · obtain rfl := FileOp.contents_ok hc
      exact (Prod.mk.inj (Except.ok.inj hf)).2.symm
  rcases f with l | id | d
  · exact (Prod.mk.inj (Except.ok.inj h)).2.symm
  · exact hread _ h
  · exact hread _ h

/-- All of the members are unpacked inside, up to one that fails. -/
lemma after_extract (hd : dest ≠ []) (archive : Path) (h : Unpacked dest root w v) :
    After (extract archive dest) v
      (fun _ => Unpacked dest root w) (fun _ => Unpacked dest root w) := by
  unfold extract
  refine after_bind (Act.after_onFiles (FileOp.after_toAct ?_ fun _ _ => h))
  intro feed u hu
  obtain rfl := feedOf_ok hu
  refine after_bind ((after_foldlM (fun names m v hv => after_extractMember hd names m hv)
    (members feed).1 [] v h).mono ?_ fun _ _ he => he)
  intro names v' hv'
  split
  · exact after_pure hv'
  · exact after_throw hv'

lemma Kept.object?_eq (h : Kept dest root t₀ t) (hs : t₀.Sound) {loc : Location}
    (hl : ¬ root <+: loc) : t.object? loc = t₀.object? loc :=
  object?_congr (h.outside loc hl) fun id hn => h.files id (hs loc id hn)

lemma unpacked_extract {n : Node} (archive : Path) (hs : w.files.Sound)
    (hl : w.files.lookup true dest = .ok (root, n)) :
    Unpacked dest root w ((extract archive dest).run w).2 := by
  have hsettled : ∀ loc n, w.files.lookup true dest = .ok (loc, n) → loc = root := fun loc n' hl' =>
    (lookup_unique hl' hl).1
  exact (after_extract (walk_ok (lookup_ok.mp hl)).1.notEmpty archive
    ⟨[], w.files, rfl, Kept.refl hs hsettled⟩).state

/-- A file that was there is changed by nothing but what is logged. -/
lemma Unpacked.file?_eq {id : Nat} (h : Unpacked dest root w v)
    (hid : id < w.files.files.length) (hlog : w.sink ≠ .file id) :
    v.files.file? id = w.files.file? id := by
  obtain ⟨lines, t, rfl, hk⟩ := h
  have hlogged : (w.logged lines).files.files.length = w.files.files.length ∧
      (w.logged lines).files.file? id = w.files.file? id := by
    refine World.files_logged (P := fun t => t.files.length = w.files.files.length ∧
      t.file? id = w.files.file? id) lines ⟨rfl, rfl⟩ ?_
    rintro j b t hs ⟨hlen, hfile⟩
    have hne : j ≠ id := by
      rintro rfl
      exact hlog hs
    refine ⟨by simpa [FileTree.append, FileTree.modifyFile] using hlen, ?_⟩
    rw [FileTree.append, file?_modifyFile_of_ne hne, hfile]
  rw [← hlogged.2]
  exact hk.files id (hlogged.1 ▸ hid)

/-- **Confinement**: whatever the archive holds, and whether or not extraction succeeds, every
place outside of the directory stays as it was. Only warnings come to stand in the log. -/
theorem extract_confined (archive : Path) {n : Node} (hs : w.files.Sound)
    (hd : w.files.lookup true dest = .ok (root, n)) :
    ∃ lines, ((extract archive dest).run w).2.events = w.events ++ lines.map .logged ∧
      ∀ loc, ¬ root <+: loc →
        ((extract archive dest).run w).2.files.object? loc = (w.logged lines).files.object? loc ∧
        ((∀ id, w.sink = .file id → w.files.node? loc ≠ some (.file id)) →
          ((extract archive dest).run w).2.files.object? loc = w.files.object? loc) := by
  have hne : dest ≠ [] := (walk_ok (lookup_ok.mp hd)).1.notEmpty
  have hsettled : ∀ loc n, w.files.lookup true dest = .ok (loc, n) → loc = root := by
    intro loc n hl
    exact (Prod.mk.inj (Except.ok.inj (hl.symm.trans hd))).1
  obtain ⟨lines, t, hw, hk⟩ := (after_extract hne archive
    (⟨[], w.files, rfl, Kept.refl hs hsettled⟩ : Unpacked dest root w w)).state
  have hsound : (w.logged lines).files.Sound :=
    World.files_logged lines hs fun id b t _ ht => ht.modifyFile id _
  refine ⟨lines, ?_, fun loc hl => ?_⟩
  · rw [hw]
    exact World.events_logged w lines
  · rw [hw]
    have ho := hk.object?_eq hsound hl
    refine ⟨ho, fun hlog => ho.trans ?_⟩
    refine (World.files_logged (P := fun t => t.node? loc = w.files.node? loc ∧
      t.object? loc = w.files.object? loc) lines ⟨rfl, rfl⟩ ?_).2
    rintro id b t hsink ⟨hn, ht⟩
    exact ⟨hn, (object?_modifyFile_of_ne (hn ▸ hlog id hsink) _).trans ht⟩

/-- An archive of a file "l", a file "../f", a link "k" to the root and a file "k/f". -/
def linkedArchive : Bytes :=
  [31, 139, 8, 0, 0, 0, 0, 0, 2, 255, 203, 97, 160, 61, 48, 0, 2, 51, 19, 19, 48, 13, 4, 232, 52,
   16, 24, 34, 177, 65, 226, 102, 134, 134, 70, 12, 10, 6, 116, 112, 27, 67, 105, 113, 73, 98,
   17, 208, 74, 134, 145, 9, 42, 24, 70, 193, 72, 6, 122, 122, 250, 105, 131, 48, 255, 27, 27,
   154, 143, 230, 127, 122, 128, 202, 209, 44, 48, 162, 65, 246, 160, 168, 255, 13, 48, 234, 127,
   115, 67, 6, 5, 35, 253, 209, 252, 79, 243, 248, 167, 125, 241, 79, 86, 249, 111, 108, 54, 90,
   254, 211, 3, 84, 141, 22, 129, 163, 96, 20, 140, 130, 81, 48, 34, 1, 0, 113, 55, 0, 229, 0,
   18, 0, 0]

/-- A directory "d" that holds a link "l" to a file "f" beside it, and the archive "a". -/
def linkedTree : FileTree :=
  ((((FileTree.empty.put [[100]] (.directory 0o755)).put [[100], [108]]
    (.link [47, 102])).putFile [[102]] 0o600).2.putFile [[97]] 0o644).2.append 1 linkedArchive

/-- A link in the directory leads to a file beside it, which stays as it is. -/
theorem extract_confined_linkedTree :
    linkedTree.Sound ∧ linkedTree.lookup true [100] = .ok ([[100]], .directory 0o755) ∧
      ((extract [97] [100]).run { files := linkedTree }).2.files.object? [[102]] =
        some (.file ⟨[], 0o600⟩) := by
  have hs : linkedTree.Sound :=
    ((((sound_empty.put (by simp)).put (by simp)).putFile 0o600).putFile 0o644).modifyFile 1 _
  have hd : linkedTree.lookup true [100] = .ok ([[100]], .directory 0o755) := by decide
  obtain ⟨lines, -, h⟩ := extract_confined (w := { files := linkedTree }) [97] hs hd
  refine ⟨hs, hd, ?_⟩
  rw [(h [[102]] (by decide)).2 (by simp)]
  decide

end PinnedBuild.Archive
