import Mathlib
import PinnedBuild.Proofs.Files.Growth
import PinnedBuild.Proofs.Files.Lasting
import PinnedBuild.Proofs.Files.Trail

/-!
The same directories and the same file, made in two trees. What is missing on the way to them has to
be missing from directories that are the same in both; everything else may differ.
-/

namespace PinnedBuild.Files

open FileTree

namespace FileTree

variable {t u s v : FileTree} {p : Path} {loc : Location}

/-- The way looks alike in both trees, and what is missing on it can be made alike. -/
structure SameRoom (t u : FileTree) (p : Path) : Prop extends SameWay t u p where
  room : ∀ loc ∈ t.trail p, t.node? loc = none → u.node? loc.dropLast = t.node? loc.dropLast

/-- The first two trees have become the other two: the same directories are new in both. -/
structure GrownAlike (t u s v : FileTree) : Prop where
  cwd : s.cwd = t.cwd ∧ v.cwd = u.cwd
  user : s.user = t.user ∧ v.user = u.user
  files : s.files = t.files ∧ v.files = u.files
  places : ∀ loc, s.node? loc = t.node? loc ∧ v.node? loc = u.node? loc ∨
    t.node? loc = none ∧ u.node? loc = none ∧
      ∃ m, s.node? loc = some (.directory m) ∧ v.node? loc = some (.directory m)

lemma SameRoom.withoutSlashes (h : SameRoom t u p) : SameRoom t u (FileOp.withoutSlashes p) where
  cwd := h.cwd
  user := h.user
  looks loc hloc := h.looks loc (trail_withoutSlashes t p hloc)
  room loc hloc := h.room loc (trail_withoutSlashes t p hloc)

/-- What is missing has the same directory above it in both trees. -/
lemma SameRoom.above {follow : Bool} {dir : Location} {x : Name} (h : SameRoom t u p)
    (hw : t.walk follow p = .ok (.missing dir x)) : u.node? dir = t.node? dir := by
  have hroom := h.room _ (mem_trail_of_missing hw) (walk_fits hw)
  rwa [List.dropLast_concat] at hroom

namespace GrownAlike

lemma refl (t u : FileTree) : GrownAlike t u t u :=
  ⟨⟨rfl, rfl⟩, ⟨rfl, rfl⟩, ⟨rfl, rfl⟩, fun _ => .inl ⟨rfl, rfl⟩⟩

variable (h : GrownAlike t u s v)

include h

lemma symm : GrownAlike u t v s where
  cwd := h.cwd.symm
  user := h.user.symm
  files := h.files.symm
  places loc := by
    rcases h.places loc with ⟨hs, hv⟩ | ⟨ht, hu, m, hs, hv⟩
    · exact .inl ⟨hv, hs⟩
    · exact .inr ⟨hu, ht, m, hv, hs⟩

lemma missing (hn : s.node? loc = none) : t.node? loc = none := by
  rcases h.places loc with ⟨hs, -⟩ | ⟨ht, -⟩
  · exact hs.symm.trans hn
  · exact ht

lemma lengthens : t.Lengthens s where
  keeps := by
    refine ⟨h.user.1, fun loc n hn => ?_⟩
    rcases h.places loc with ⟨hs, -⟩ | ⟨ht, -⟩
    · exact hs.trans hn
    · rw [ht] at hn
      cases hn
  cwd := h.cwd.1
  files id f hf := ⟨[], by simpa [file?, h.files.1] using hf⟩

lemma sound (ht : t.Sound) : s.Sound := by
  intro loc id hn
  rw [h.files.1]
  rcases h.places loc with ⟨hs, -⟩ | ⟨-, -, m, hs, -⟩
  · exact ht loc id (hs.symm.trans hn)
  · rw [hs] at hn
    cases hn

lemma link? (loc : Location) : s.link? loc = t.link? loc := by
  unfold FileTree.link?
  rcases h.places loc with ⟨hs, -⟩ | ⟨ht, -, m, hs, -⟩
  · rw [hs]
  · rw [hs, ht]

/-- Directories lead paths through the places that were missing before. -/
lemma trail (p : Path) : s.trail p = t.trail p := trail_congr h.cwd.1 h.link? p

lemma looksAlike (huser : u.user = t.user) (hloc : t.LooksAlike u loc) : s.LooksAlike v loc := by
  have hsame : s.user = v.user := by rw [h.user.1, h.user.2, huser]
  unfold LooksAlike at hloc ⊢
  rcases h.places loc with ⟨hs, hv⟩ | ⟨-, -, m, hs, hv⟩
  · rw [hs, hv]
    generalize t.node? loc = a at hloc
    generalize u.node? loc = b at hloc
    cases hloc with
    | gap => exact .gap
    | directory reads searches =>
      rw [huser] at reads searches
      exact .directory (by rwa [← hsame, h.user.1]) (by rwa [← hsame, h.user.1])
    | link target => exact .link target
    | @file i j same =>
      refine .file ?_
      unfold file?
      rw [h.files.1, h.files.2]
      exact same
    | device d => exact .device d
  · rw [hs, hv]
    exact .directory (by rw [hsame]) (by rw [hsame])

lemma way (hp : t.SameWay u p) : s.SameWay v p where
  cwd := by rw [h.cwd.1, h.cwd.2, hp.cwd]
  user := by rw [h.user.1, h.user.2, hp.user]
  looks loc hloc := h.looksAlike hp.user (hp.looks loc (h.trail p ▸ hloc))

lemma sameRoom (hp : t.SameRoom u p) : s.SameRoom v p where
  toSameWay := h.way hp.toSameWay
  room loc hloc hn := by
    rcases h.places loc.dropLast with ⟨hs, hv⟩ | ⟨-, -, m, hs, hv⟩
    · rw [hs, hv]
      exact hp.room loc (h.trail p ▸ hloc) (h.missing hn)
    · rw [hs, hv]

lemma put (hs : s.node? loc = none) (hv : v.node? loc = none) (m : Mode) :
    GrownAlike t u (s.put loc (.directory m)) (v.put loc (.directory m)) where
  cwd := h.cwd
  user := h.user
  files := h.files
  places at_ := by
    rw [node?_put, node?_put]
    by_cases hat : at_ = loc
    · subst hat
      rw [if_pos rfl, if_pos rfl]
      rcases h.places at_ with ⟨hst, hvu⟩ | ⟨-, -, m', hs', -⟩
      · exact .inr ⟨hst.symm.trans hs, hvu.symm.trans hv, m, rfl, rfl⟩
      · rw [hs] at hs'
        cases hs'
    · rw [if_neg hat, if_neg hat]
      exact h.places at_

/-- Each place is as it was in both trees, or is the same in both. -/
lemma object? (loc : Location) :
    s.object? loc = t.object? loc ∧ v.object? loc = u.object? loc ∨
      v.object? loc = s.object? loc := by
  unfold FileTree.object? file?
  rcases h.places loc with ⟨hs, hv⟩ | ⟨-, -, m, hs, hv⟩
  · exact .inl ⟨by rw [hs, h.files.1], by rw [hv, h.files.2]⟩
  · exact .inr (by rw [hs, hv])

end GrownAlike

end FileTree

namespace FileOp

variable {t u s v : FileTree} {p : Path}

/-- The path without its slashes is found in both trees or in neither. -/
lemma foundBare_alike (h : s.SameRoom v p) :
    (∃ e, (foundBare p).run s = .error e ∧ (foundBare p).run v = .error e) ∨
      ∃ a b, (foundBare p).run s = .ok (a, s) ∧ (foundBare p).run v = .ok (b, v) ∧
        FoundAlike s v (.ok a) (.ok b) ∧ s.walk false (withoutSlashes p) = .ok a ∧
        v.walk false (withoutSlashes p) = .ok b := by
  have hwalk := h.withoutSlashes.walk false
  by_cases hlong : maxPath ≤ p.length ∧ 0 ∉ p
  · unfold foundBare
    rw [if_pos hlong]
    exact .inl ⟨_, rfl, rfl⟩
  unfold foundBare
  rw [if_neg hlong, run_found, run_found]
  generalize s.walk false (withoutSlashes p) = a at hwalk ⊢
  generalize v.walk false (withoutSlashes p) = b at hwalk ⊢
  cases hwalk with
  | error e => exact .inl ⟨e, rfl, rfl⟩
  | missing dir x => exact .inr ⟨_, _, rfl, rfl, .missing dir x, rfl, rfl⟩
  | node l like => exact .inr ⟨_, _, rfl, rfl, .node l like, rfl, rfl⟩

/-- A directory is made in both trees or in neither. -/
lemma match_makeDirectory_alike (h : GrownAlike t u s v) (hp : t.SameRoom u p) :
    Match (GrownAlike t u) ((makeDirectory p).run s) ((makeDirectory p).run v) := by
  have hroom := h.sameRoom hp
  unfold makeDirectory
  rw [run_bind, run_bind]
  rcases foundBare_alike hroom with ⟨e, hs, hv⟩ | ⟨a, b, hs, hv, halike, hs', hv'⟩ <;> rw [hs, hv]
  · exact .error
  cases halike with
  | node l like => exact .error
  | missing dir x =>
    have habove := hroom.withoutSlashes.above hs'
    -- nothing has changed when the directory has been found to be writable
    refine Match.bind (R := fun t' u' => t' = s ∧ u' = v)
      (match_needWritable_of ⟨rfl, rfl⟩ hroom.user habove) ?_
    rintro _ _ _ ⟨rfl, rfl⟩
    refine .get_bind ?_
    rw [habove]
    split
    · exact .ok (h.put (walk_fits hs') (walk_fits hv') _)
    · exact .error

/-- Where nothing is, a file is made in both trees or in neither. -/
lemma openWrite_alike (h : s.SameRoom v p) (hn : s.isThere p = false) :
    (∃ e, (openWrite p).run s = .error e ∧ (openWrite p).run v = .error e) ∨
      ∃ dir x, s.walk true p = .ok (.missing dir x) ∧ v.walk true p = .ok (.missing dir x) ∧
        (openWrite p).run s =
          .ok (.file s.files.length, (s.putFile (dir ++ [x]) newFileMode).2) ∧
        (openWrite p).run v =
          .ok (.file v.files.length, (v.putFile (dir ++ [x]) newFileMode).2) := by
  unfold openWrite
  split
  · rw [run_bind, run_bind]
    rcases foundBare_alike h with ⟨e, hs, hv⟩ | ⟨a, b, hs, hv, -⟩ <;> rw [hs, hv]
    · exact .inl ⟨e, rfl, rfl⟩
    · exact .inl ⟨_, rfl, rfl⟩
  have hwalk := h.walk true
  rw [run_bind, run_bind, run_found, run_found]
  generalize hs : s.walk true p = a at hwalk
  generalize hv : v.walk true p = b at hwalk
  cases hwalk with
  | error e => exact .inl ⟨e, rfl, rfl⟩
  | @node l m n like =>
    rw [isThere_of_lookup (lookup_ok.mpr hs)] at hn
    cases hn
  | missing dir x =>
    have hwritable := match_needWritable_of (R := fun s' v' => s' = s ∧ v' = v) ⟨rfl, rfl⟩ h.user
      (h.above hs)
    simp only [Except.map]
    unfold addFile
    rw [run_bind, run_bind]
    generalize (needWritable dir).run s = c at hwritable
    generalize (needWritable dir).run v = d at hwritable
    rcases hwritable with ⟨⟨rfl, rfl⟩⟩ | _
    · exact .inr ⟨dir, x, rfl, rfl, rfl, rfl⟩
    · exact .inl ⟨_, rfl, rfl⟩

/-- What is written where nothing was is written in both trees, or in neither. -/
lemma writeFile_alike (h : s.SameRoom v p) (hn : s.isThere p = false) (b : Bytes) :
    (∃ e, (FileAct.writeFile p b).run s = (.error e, s) ∧
        (FileAct.writeFile p b).run v = (.error e, v)) ∨
      ∃ dir x, s.walk true p = .ok (.missing dir x) ∧ v.walk true p = .ok (.missing dir x) ∧
        (FileAct.writeFile p b).run s =
          (.ok (), (s.putFile (dir ++ [x]) newFileMode).2.append s.files.length b) ∧
        (FileAct.writeFile p b).run v =
          (.ok (), (v.putFile (dir ++ [x]) newFileMode).2.append v.files.length b) := by
  rcases openWrite_alike h hn with ⟨e, hs, hv⟩ | ⟨dir, x, hs, hv, hs', hv'⟩
  · exact .inl ⟨e, run_writeFile_error b hs, run_writeFile_error b hv⟩
  · exact .inr ⟨dir, x, hs, hv, run_writeFile_new b hs', run_writeFile_new b hv'⟩

end FileOp

/-- A directory and all that are missing above it are made alike. -/
lemma FileAct.twin_ensureDirectory_alike {t u : FileTree} {p : Path}
    (h : ∀ q ∈ ancestors p.length p, t.SameRoom u q) :
    Twin (GrownAlike t u) (ensureDirectory p) (ensureDirectory p) t u :=
  twin_ensureChain _ (fun q hq _ _ hs => FileOp.match_makeDirectory_alike hs (h q hq))
    (fun q hq _ _ hs => (hs.way (h q hq).toSameWay).isDirectory.symm) (.refl t u)

end PinnedBuild.Files
