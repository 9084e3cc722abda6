import Mathlib
import PinnedBuild.Proofs.Archive.Apart
import PinnedBuild.Proofs.Archive.Integrity
import PinnedBuild.Proofs.Archive.Production

/-!
An archive that was cut off is not taken for another. Where all of its members can still be read
they are those of the whole archive, and unpacking them does the same, since the archive lies
outside.
-/

namespace PinnedBuild.Archive

open Files FileTree

variable {archive dest : Path} {root place : Location} {id : Nat} {w v v' : World}
  {names names' : List Name} {content : Bytes}

/-- A world in which a file holds these bytes. -/
def holding (w : World) (id : Nat) (content : Bytes) : World :=
  { w with files := w.files.modifyFile id fun f => { f with content := content } }

lemma sameBut_holding (w : World) (id : Nat) (a b : Bytes) :
    World.SameBut id (holding w id a) (holding w id b) :=
  ⟨_, sameBut_modifyFile id w.files _ _, rfl⟩

/-! ### The same members -/

lemma content_holding {t : FileTree} {file : File}
    (h : (t.modifyFile id fun f => { f with content := content }).file? id = some file) :
    file.content = content := by
  simp only [file?, FileTree.modifyFile, List.getElem?_modify_eq] at h
  obtain ⟨g, -, rfl⟩ := Option.map_eq_some_iff.mp h
  rfl

/-- What has been unpacked are the members that the contents come to. -/
lemma extract_holding (ha : w.files.lookup true archive = .ok (place, .file id))
    (h : (extract archive dest).run (holding w id content) = (.ok names, v)) :
    ∃ ms, members (Gzip.feed content) = (ms, true) ∧
      (ms.foldlM (extractMember dest) []).run (holding w id content) = (.ok names, v) := by
  obtain ⟨feed, ms, hfeed, hms, hrun⟩ := extract_ok h
  refine ⟨ms, ?_, hrun⟩
  rcases feedOf_cases hfeed with rfl | ⟨loc, j, file, hl, hf, -, rfl⟩
  · simp [members_broken] at hms
  · have hl' : (holding w id content).files.lookup true archive = .ok (place, .file id) :=
      FileOp.lookup_modifyFile _ ha
    obtain ⟨-, hnode⟩ := lookup_unique hl hl'
    obtain rfl : j = id := Node.file.inj hnode
    rwa [content_holding hf] at hms

/-! ### The same unpacking -/

/-- While members are unpacked the file stays outside. -/
lemma after_extractMember_apart (hd : dest ≠ []) (names : List Name) (m : Member)
    (hk : Unpacked dest root w v) (h : Apart root id v.files) :
    After (extractMember dest names m) v
      (fun _ u => Unpacked dest root w u ∧ Apart root id u.files)
      (fun _ u => Unpacked dest root w u ∧ Apart root id u.files) := by
  refine (after_extractMember hd names m hk).and ?_
  obtain ⟨lines, t, rfl, hk⟩ := hk
  unfold extractMember
  split
  · exact after_pure h
  refine after_bind (Act.after_onFiles ((Unpacking.apart_member hd hk h m).mono ?_ ?_))
  · intro unpacked u hu
    split
    · exact after_pure hu
    · refine after_bind (after_modify (after_pure ?_))
      rw [World.say_eq]
      exact World.files_logged _ hu fun j b s _ hs =>
        ((lasting_apart root id).append ⟨rfl, hs⟩ j b).2
  · exact fun _ u hu => hu

lemma apart_foldlM (hs : w.files.Sound) {n : Node}
    (hd : w.files.lookup true dest = .ok (root, n)) (h : Apart root id w.files) (ms : List Member)
    (hrun : (ms.foldlM (extractMember dest) names).run w = (.ok names', v)) :
    Apart root id v.files := by
  have hne : dest ≠ [] := (walk_ok (lookup_ok.mp hd)).1.notEmpty
  have hsettled : ∀ loc n, w.files.lookup true dest = .ok (loc, n) → loc = root := by
    intro loc n hl
    exact (lookup_unique hl hd).1
  have hall := (after_foldlM (P := fun u => Unpacked dest root w u ∧ Apart root id u.files)
    (fun names m u hu => after_extractMember_apart hne names m hu.1 hu.2) ms names w
    ⟨⟨[], w.files, rfl, Kept.refl hs hsettled⟩, h⟩).state
  rw [hrun] at hall
  exact hall.2

/-- **Truncation**: if an archive outside of the directory can be extracted, then what is left of it
when it is cut off anywhere comes to the same or fails: the same names, the same log, and the same
tree but for the archive itself, which no place inside the directory shows. -/
theorem extract_cut {whole cut : Bytes} (hs : w.files.Sound)
    (ha : w.files.lookup true archive = .ok (place, .file id))
    (hout : ∀ root n, w.files.lookup true dest = .ok (root, n) →
      ∀ loc, root <+: loc → w.files.node? loc ≠ some (.file id))
    (hcut : cut <+: whole)
    (hwhole : (extract archive dest).run (holding w id whole) = (.ok names, v)) :
    (∃ e, ((extract archive dest).run (holding w id cut)).1 = .error e) ∨
      ∃ v', (extract archive dest).run (holding w id cut) = (.ok names, v') ∧
        World.SameBut id v v' ∧
        ∀ root n, w.files.lookup true dest = .ok (root, n) →
          ∀ loc, root <+: loc → v'.files.object? loc = v.files.object? loc := by
  rcases hrun : (extract archive dest).run (holding w id cut) with ⟨e | names', v'⟩
  · exact .inl ⟨e, rfl⟩
  refine .inr ⟨v', ?_⟩
  obtain ⟨ms, hms, hmembers⟩ := extract_holding ha hwhole
  obtain ⟨ms', hms', hmembers'⟩ := extract_holding ha hrun
  obtain ⟨more, rfl⟩ := hcut
  obtain rfl := members_cut (Gzip.feed_cut cut more) hms hms'
  obtain ⟨u, hu, hsame⟩ := (twin_foldlM (fun names m _ _ h => twin_extractMember
    (World.lifts_sameBut id) (enduring_sameBut id) h dest names m) ms' []
    (sameBut_holding w id (cut ++ more) cut)).ok hmembers
  obtain ⟨hnames, rfl⟩ := Prod.mk.inj (hmembers'.symm.trans hu)
  refine ⟨by rw [hnames], hsame, fun root n hd loc hl => ?_⟩
  have hapart : Apart root id (holding w id (cut ++ more)).files :=
    ((lasting_apart root id).modifyFile ⟨rfl, hs _ _ (lookup_node ha), hout root n hd⟩
      (steady_content _)).2
  have hv := apart_foldlM (hs.modifyFile id _) (FileOp.lookup_modifyFile _ hd) hapart ms' hmembers
  obtain ⟨t, ht, rfl⟩ := hsame
  exact ht.object? (hv.nowhere loc hl)

/-! ### An archive that is cut off -/

lemma holding_besideArchive (content : Bytes) :
    holding { files := besideArchive [] } 0 content = { files := besideArchive content } := rfl

/-- No place in the directory shows the archive. -/
lemma outside_besideArchive {n : Node} (hd : (besideArchive []).lookup true [100] = .ok (root, n))
    {loc : Location} (hl : root <+: loc) : (besideArchive []).node? loc ≠ some (.file 0) := by
  have hplace : (besideArchive []).lookup true [100] = .ok ([[100]], .directory 0o755) := rfl
  obtain ⟨rfl, -⟩ := Prod.mk.inj (Except.ok.inj (hd.symm.trans hplace))
  have hvacant := @vacant_besideArchive .owner []
  obtain ⟨ns, rfl⟩ := hl
  rcases ns with _ | ⟨name, more⟩
  · have hroot : (besideArchive []).node? ([[100]] ++ []) = some (.directory 0o755) := rfl
    rw [hroot]
    simp
  · rw [hvacant.empty _ (by simp)]
    simp

/-- The end is cut off among the members, and then inside the trailer. -/
theorem extract_cut_twiceWritten :
    ∃ v, (extract [97] [100]).run
        (holding { files := besideArchive [] } 0 (gzipped (written twiceWritten))) =
          (.ok [[97], [99]], v) ∧
      ∀ n ∈ [1600, (gzipped (written twiceWritten)).length - 4],
        n < (gzipped (written twiceWritten)).length ∧
        ((∃ e, ((extract [97] [100]).run (holding { files := besideArchive [] } 0
            ((gzipped (written twiceWritten)).take n))).1 = .error e) ∨
          ∃ v', (extract [97] [100]).run (holding { files := besideArchive [] } 0
              ((gzipped (written twiceWritten)).take n)) = (.ok [[97], [99]], v') ∧
            World.SameBut 0 v v' ∧
            ∀ root n, (besideArchive []).lookup true [100] = .ok (root, n) →
              ∀ loc, root <+: loc → v'.files.object? loc = v.files.object? loc) := by
  obtain ⟨v, hwhole⟩ := extract_twiceWritten
  rw [← holding_besideArchive] at hwhole
  refine ⟨v, hwhole, fun n hn => ⟨?_, ?_⟩⟩
  · have hlength : 1600 < (gzipped (written twiceWritten)).length := by decide +kernel
    generalize (gzipped (written twiceWritten)).length = length at hn hlength ⊢
    rcases List.mem_pair.mp hn with rfl | rfl
    · exact hlength
    · omega
  · exact extract_cut (w := { files := besideArchive [] }) (vacant_besideArchive []).sound
      (lookup_besideArchive []) (fun _ _ hd _ hl => outside_besideArchive hd hl)
      (List.take_prefix n _) hwhole

end PinnedBuild.Archive
