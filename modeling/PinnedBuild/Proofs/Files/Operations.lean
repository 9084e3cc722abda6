import Mathlib
import PinnedBuild.Files.Operations
import PinnedBuild.Proofs.Action
import PinnedBuild.Proofs.Files.Lookup

/-!
What each operation does when it succeeds: which place it is about, and the tree afterwards.
-/

namespace PinnedBuild.Files.FileOp

open FileTree

variable {t t' : FileTree} {p source target : Path} {mode : Mode} {α β : Type} {follow : Bool}

@[simp] lemma run_bind (a : FileOp α) (f : α → FileOp β) (t : FileTree) :
    (a >>= f).run t = match a.run t with
      | .ok (x, u) => (f x).run u
      | .error e => .error e := by
  show (a.run t >>= _) = _
  rcases a.run t with e | ⟨x, u⟩ <;> rfl

@[simp] lemma run_pure (x : α) (t : FileTree) : (pure x : FileOp α).run t = .ok (x, t) := rfl

@[simp] lemma run_get (t : FileTree) : (get : FileOp FileTree).run t = .ok (t, t) := rfl

@[simp] lemma run_fail (e : FileError) (t : FileTree) : (fail e : FileOp α).run t = .error e := rfl

@[simp] lemma run_modify (f : FileTree → FileTree) (t : FileTree) :
    (modify f : FileOp Unit).run t = .ok ((), f t) := rfl

@[simp] lemma run_set (u t : FileTree) : (set u : FileOp PUnit).run t = .ok (⟨⟩, u) := rfl

@[simp] lemma run_found (follow : Bool) (p : Path) (t : FileTree) :
    (found follow p).run t = (t.walk follow p).map fun r => (r, t) := by
  show (t.walk follow p >>= _) = _
  rcases t.walk follow p with e | r <;> rfl

@[simp] lemma run_lookup (follow : Bool) (p : Path) (t : FileTree) :
    (lookup follow p).run t = (t.lookup follow p).map fun r => (r, t) := by
  show (t.lookup follow p >>= _) = _
  rcases t.lookup follow p with e | r <;> rfl

@[simp] lemma run_lift (x : Except FileError α) (t : FileTree) :
    (liftM x : FileOp α).run t = x.map fun y => (y, t) := by
  rcases x with e | y <;> rfl

/-- Whether names may be added and removed in a directory. -/
lemma run_needWritable (dir : Location) (t : FileTree) :
    (needWritable dir).run t = match t.node? dir with
      | some (.directory m) =>
        (t.searchable dir).bind fun _ =>
          if t.user.mayWrite m then .ok ((), t) else .error .accessDenied
      | _ => .error .notFound := by
  unfold needWritable
  simp only [run_bind, run_get]
  rcases t.node? dir with _ | (m | p | i | d)
  · rfl
  · simp only [run_bind, run_get, run_lift]
    rcases t.searchable dir with e | _
    · rfl
    · simp only [Except.map, Except.bind_ok]
      split <;> rfl
  all_goals rfl

lemma needWritable_ok {dir : Location} {y : Unit} (h : (needWritable dir).run t = .ok (y, t')) :
    t' = t ∧ ∃ m, t.node? dir = some (.directory m) := by
  rw [run_needWritable] at h
  split at h
  · rename_i m hm
    refine ⟨?_, m, hm⟩
    rcases hs : t.searchable dir with e | _ <;> rw [hs] at h
    · simp at h
    · simp only [Except.bind_ok] at h
      split at h
      · exact (Prod.mk.inj (Except.ok.inj h)).2.symm
      · simp at h
  · simp at h

/-- The directory above is as writable without what is in it. -/
lemma run_needWritable_erase {dir : Location} {x : Name} :
    (needWritable dir).run (t.erase (dir ++ [x])) =
      ((needWritable dir).run t).map fun _ => ((), t.erase (dir ++ [x])) := by
  have hne : dir ≠ dir ++ [x] := by simp
  have hnode : (t.erase (dir ++ [x])).node? dir = t.node? dir := by
    rw [node?_erase, if_neg hne]
  rw [run_needWritable, run_needWritable]
  unfold searchable
  rw [hnode]
  rcases t.node? dir with _ | (k | target | id | d)
  · rfl
  · simp only
    split <;> split <;> simp_all [Except.map]
  all_goals rfl


lemma run_realLocation (p : Path) (t : FileTree) :
    (realLocation p).run t = (t.lookup true p).map fun found => (found.1, t) := by
  unfold realLocation
  rw [run_bind, run_lookup]
  rcases t.lookup true p with e | found <;> rfl

lemma realLocation_ok {l : Location} (h : (realLocation p).run t = .ok (l, t')) :
    t' = t ∧ ∃ n, t.lookup true p = .ok (l, n) := by
  unfold realLocation at h
  rcases hl : t.lookup true p with e | ⟨l', n⟩ <;> simp_all [Except.map]

lemma addFile_ok {dir : Location} {x : Name} {h : Handle}
    (ho : (addFile dir x).run t = .ok (h, t')) :
    h = .file t.files.length ∧ t' = (t.putFile (dir ++ [x]) newFileMode).2 := by
  unfold addFile at ho
  rw [run_bind] at ho
  rcases hw : (needWritable dir).run t with e | ⟨y, u⟩ <;> rw [hw] at ho
  · simp at ho
  · obtain ⟨rfl, -⟩ := needWritable_ok hw
    simp only [run_bind, run_get, run_set, run_pure, Except.ok.injEq, Prod.mk.injEq] at ho
    exact ⟨ho.1.symm, ho.2.symm⟩

/-- A file is only made where a name is missing. -/
lemma createNew_ok {h : Handle} (ho : (createNew p).run t = .ok (h, t')) :
    ∃ dir x, t.walk false p = .ok (.missing dir x) ∧
      h = .file t.files.length ∧ t' = (t.putFile (dir ++ [x]) newFileMode).2 := by
  unfold createNew at ho
  rw [run_bind, run_found] at ho
  rcases hw : t.walk false p with e | (⟨l, n⟩ | ⟨dir, x⟩) <;> rw [hw] at ho
  · simp [Except.map] at ho
  · simp [Except.map] at ho
  · exact ⟨dir, x, rfl, addFile_ok ho⟩

lemma foundBare_ok {r : Found} (h : (foundBare p).run t = .ok (r, t')) :
    t' = t ∧ t.walk false (withoutSlashes p) = .ok r ∧ (0 ∈ p ∨ p.length < maxPath) := by
  unfold foundBare at h
  split at h
  · simp at h
  · rename_i hp
    rw [run_found] at h
    rcases hw : t.walk false (withoutSlashes p) with e | r' <;> rw [hw] at h
    · simp [Except.map] at h
    · obtain ⟨rfl, rfl⟩ := Prod.mk.inj (Except.ok.inj h)
      refine ⟨rfl, rfl, ?_⟩
      by_cases hz : 0 ∈ p
      · exact .inl hz
      · exact .inr (by_contra fun hl => hp ⟨by omega, hz⟩)

lemma makeDirectory_ok {y : Unit} (h : (makeDirectory p).run t = .ok (y, t')) :
    ∃ dir x m, (foundBare p).run t = .ok (.missing dir x, t) ∧
      t.node? dir = some (.directory m) ∧
      t' = t.put (dir ++ [x]) (.directory (inheritedMode m)) := by
  unfold makeDirectory at h
  rw [run_bind] at h
  rcases hw : (foundBare p).run t with e | ⟨⟨l, n⟩ | ⟨dir, x⟩, u⟩ <;> rw [hw] at h
  · simp at h
  · simp at h
  · obtain ⟨rfl, -⟩ := foundBare_ok hw
    simp only [run_bind] at h
    rcases hn : (needWritable dir).run u with e | ⟨y, u⟩ <;> rw [hn] at h
    · simp at h
    · obtain ⟨rfl, m, hm⟩ := needWritable_ok hn
      simp only [run_get, hm, run_modify, Except.ok.injEq, Prod.mk.injEq] at h
      exact ⟨dir, x, m, rfl, hm, h.2.symm⟩

/-- Nothing is found missing where the path before the last name leads somewhere. -/
lemma makeDirectory_error {e : FileError} (h : (makeDirectory p).run t = .error e)
    (hw : ∀ e', t.walk false (withoutSlashes p) = .error e' → e' ≠ .notFound)
    (hd : ∀ dir x, t.walk false (withoutSlashes p) = .ok (.missing dir x) →
      t.searchable dir = .ok ()) : e ≠ .notFound := by
  unfold makeDirectory at h
  rw [run_bind] at h
  rcases hf : (foundBare p).run t with e' | ⟨⟨l, n⟩ | ⟨dir, x⟩, u⟩ <;> rw [hf] at h
  · obtain rfl : e' = e := Except.error.inj h
    unfold foundBare at hf
    split at hf
    · obtain rfl : .nameTooLong = e' := Except.error.inj hf
      simp
    · rw [run_found] at hf
      rcases hr : t.walk false (withoutSlashes p) with e'' | r <;> rw [hr] at hf
      · obtain rfl : e'' = e' := Except.error.inj hf
        exact hw _ hr
      · simp [Except.map] at hf
  · obtain rfl : .exists = e := Except.error.inj h
    simp
  · obtain ⟨rfl, hf, -⟩ := foundBare_ok hf
    obtain ⟨m, hm, hr⟩ := searchable_ok (hd dir x hf)
    simp only [run_bind, run_needWritable, hm, hd dir x hf, Except.bind_ok] at h
    by_cases hm' : u.user.mayWrite m = true
    · simp only [hm', if_true, run_get, hm, run_modify] at h
      simp at h
    · simp only [hm'] at h
      rintro rfl
      simp at h

lemma withoutSlashes_of_getLast? (hp : p ≠ []) (hl : p.getLast? ≠ some Path.slash) :
    withoutSlashes p = p := by
  obtain ⟨q, b, rfl⟩ := List.eq_nil_or_concat p |>.resolve_left hp
  have hb : b ≠ Path.slash := fun h => hl (by simp [h])
  unfold withoutSlashes
  simp [hb]

lemma withoutSlashes_join {x : Path} (hp : p ≠ []) (hx : Plain x) :
    withoutSlashes (p.join x) = p.join x := by
  refine withoutSlashes_of_getLast? ?_ (Path.getLast?_join hp hx)
  intro h
  have := Path.isEmpty_join (p := p) hx
  simp [h] at this

/-- Below a path that leads somewhere nothing on the way to a new directory is missing. -/
lemma makeDirectory_join_error {x : Path} {l : Location} {n : Node} {e : FileError} (hp : p ≠ [])
    (hx : Plain x) (hl : t.lookup true p = .ok (l, n))
    (h : (makeDirectory (p.join x)).run t = .error e) : e ≠ .notFound := by
  refine makeDirectory_error h ?_ ?_ <;> rw [withoutSlashes_join hp hx]
  · exact fun e' => walk_join_error hx hl
  · intro dir y hw
    exact (missing_at hp hx hw).2.2.1

/-- Only the length of a path counts the slashes at its end. -/
lemma run_foundBare (hu : Usable p) (t : FileTree) :
    (foundBare p).run t = (t.walk false (withoutSlashes p)).map fun r => (r, t) := by
  have hshort := hu.short
  unfold foundBare
  rw [if_neg (by omega), run_found]

lemma run_makeDirectory_denied {x : Path} {e : FileError} (hp : p ≠ []) (hx : Plain x)
    (hu : Usable (p.join x)) (hw : t.walk false (p.join x) = .error e) :
    (makeDirectory (p.join x)).run t = .error e := by
  unfold makeDirectory
  rw [run_bind, run_foundBare hu, withoutSlashes_join hp hx, hw]
  rfl

/-- Where something stands no directory is made. -/
lemma run_makeDirectory_exists {l : Location} {n : Node} (hu : Usable p)
    (hw : t.walk false (withoutSlashes p) = .ok (.node l n)) :
    (makeDirectory p).run t = .error .exists := by
  unfold makeDirectory
  rw [run_bind, run_foundBare hu, hw]
  rfl

lemma eq_withoutSlashes (p : Path) :
    ∃ k, p = withoutSlashes p ++ List.replicate k Path.slash ∧
      (p ≠ [] → withoutSlashes p ≠ []) := by
  have hp := List.takeWhile_append_dropWhile (p := (· == Path.slash)) (l := p.reverse)
  have hall : p.reverse.takeWhile (· == Path.slash) =
      List.replicate (p.reverse.takeWhile (· == Path.slash)).length Path.slash := by
    refine List.eq_replicate_of_mem fun b hb => ?_
    simpa using List.mem_takeWhile_imp hb
  generalize (p.reverse.takeWhile (· == Path.slash)).length = k at hall
  rw [hall] at hp
  have hp' : p = (p.reverse.dropWhile (· == Path.slash)).reverse ++
      List.replicate k Path.slash := by
    simpa using (congrArg List.reverse hp).symm
  unfold withoutSlashes
  split
  · rename_i hd
    rw [hd, List.nil_append] at hp'
    rcases k with _ | k
    · exact ⟨0, by simp [hp'], by simp [hp']⟩
    · exact ⟨k, by simp [hp', List.replicate_succ], by simp [hp', List.replicate_succ]⟩
  · rename_i body hne
    exact ⟨k, hp', fun _ h => hne h⟩

lemma bare_withoutSlashes (p : Path) : (withoutSlashes p).bare = p.bare := by
  obtain ⟨k, hk, -⟩ := eq_withoutSlashes p
  conv_rhs => rw [hk]
  exact (Path.bare_append_slashes _ k).symm

lemma origin_withoutSlashes (cwd : Location) (p : Path) :
    origin cwd (withoutSlashes p) = origin cwd p := by
  rcases p with _ | ⟨b, q⟩
  · rfl
  · obtain ⟨k, hk, hne⟩ := eq_withoutSlashes (b :: q)
    obtain ⟨c, r, hc⟩ := List.exists_cons_of_ne_nil (hne (by simp))
    have habs : (withoutSlashes (b :: q)).isAbsolute = Path.isAbsolute (b :: q) := by
      conv_rhs => rw [hk]
      rw [hc]
      rfl
    unfold origin
    rw [habs]

/-- Slashes at the end of a path that leads to a searchable directory change nothing. -/
lemma lookup_of_withoutSlashes (hp : Usable p) {l : Location} {n : Node}
    (hs : t.searchable l = .ok ()) (h : t.lookup true (withoutSlashes p) = .ok (l, n)) :
    t.lookup true p = .ok (l, n) := by
  refine lookup_of_bare hp hs ?_
  rw [← bare_withoutSlashes, ← origin_withoutSlashes]
  exact walkLinks_bare h

lemma searchable_inheritedMode {l : Location} {m : Mode}
    (h : t.node? l = some (.directory (inheritedMode m))) : t.searchable l = .ok () := by
  refine searchable_of_node h ?_
  cases t.user <;> simp [User.maySearch, Mode.ownerRuns, inheritedMode, newDirectoryMode]

/-- A directory is made in one that is there, under a name that is missing in it, and its path leads
to it. -/
lemma makeDirectory_makes {y : Unit} (h : (makeDirectory p).run t = .ok (y, t')) :
    ∃ dir x m, t.walk false (withoutSlashes p) = .ok (.missing dir x) ∧
      t.node? dir = some (.directory m) ∧
      t' = t.put (dir ++ [x]) (.directory (inheritedMode m)) ∧
      t'.lookup true p = .ok (dir ++ [x], .directory (inheritedMode m)) := by
  obtain ⟨dir, x, m, hf, hm, rfl⟩ := makeDirectory_ok h
  obtain ⟨-, hw, hlen⟩ := foundBare_ok hf
  have hnone : t.node? (dir ++ [x]) = none := walk_fits hw
  refine ⟨dir, x, m, hw, hm, rfl, ?_⟩
  have hq := (walk_ok hw).1
  have hp : Usable p := by
    obtain ⟨k, hk, -⟩ := eq_withoutSlashes p
    have hz : 0 ∉ p := by
      rw [hk]
      simp [hq.noZero, Path.slash]
    exact ⟨fun he => hq.notEmpty (by simp [he, withoutSlashes]), hz, hlen.resolve_left hz⟩
  have hthere : (t.put (dir ++ [x]) (.directory (inheritedMode m))).node? (dir ++ [x]) =
      some (.directory (inheritedMode m)) := by rw [node?_put, if_pos rfl]
  refine lookup_of_withoutSlashes hp (searchable_inheritedMode hthere) ?_
  exact lookup_follow (by simp) (lookup_put hnone (by simp) hw)

/-- The path of a new directory leads to it, and nothing stood there before. -/
lemma makeDirectory_created {y : Unit} (h : (makeDirectory p).run t = .ok (y, t')) :
    ∃ l m, t.node? l = none ∧ t' = t.put l (.directory m) ∧
      t'.lookup true p = .ok (l, .directory m) := by
  obtain ⟨dir, x, m, hw, -, ht, hl⟩ := makeDirectory_makes h
  exact ⟨dir ++ [x], inheritedMode m, walk_fits hw, ht, hl⟩

lemma removeFile_ok {y : Unit} (h : (removeFile p).run t = .ok (y, t')) :
    ∃ l n, t.lookup false p = .ok (l, n) ∧ (∀ m, n ≠ .directory m) ∧ t' = t.erase l := by
  unfold removeFile at h
  rw [run_bind, run_lookup] at h
  rcases hl : t.lookup false p with e | ⟨l, n⟩ <;> rw [hl] at h
  · simp [Except.map] at h
  · refine ⟨l, n, rfl, ?_⟩
    rcases n with m | q | i | d
    · simp [Except.map] at h
    all_goals
      simp only [Except.map, run_bind] at h
      rcases hn : (needWritable l.dropLast).run t with e | ⟨y, u⟩ <;> rw [hn] at h
      · simp at h
      · obtain ⟨rfl, -⟩ := needWritable_ok hn
        simp only [run_modify, Except.ok.injEq, Prod.mk.injEq] at h
        exact ⟨by simp, h.2.symm⟩

lemma run_removeFile {l : Location} {n : Node} (hl : t.lookup false p = .ok (l, n))
    (hn : ∀ k, n ≠ .directory k) :
    (removeFile p).run t =
      ((needWritable l.dropLast).run t).map fun _ => ((), t.erase l) := by
  unfold removeFile
  rw [run_bind, run_lookup, hl]
  rcases n with k | target | id | d
  · exact absurd rfl (hn k)
  all_goals
    simp only [Except.map, run_bind]
    rcases hw : (needWritable l.dropLast).run t with e | ⟨y, u⟩
    · rfl
    · obtain ⟨rfl, -⟩ := needWritable_ok hw
      rfl

lemma makeLink_ok {y : Unit} (h : (makeLink target p).run t = .ok (y, t')) :
    ∃ dir x, t.walk false p = .ok (.missing dir x) ∧ t' = t.put (dir ++ [x]) (.link target) := by
  unfold makeLink at h
  split at h
  · simp at h
  split at h
  · simp at h
  split at h
  · simp at h
  rw [run_bind, run_found] at h
  rcases hw : t.walk false p with e | (⟨l, n⟩ | ⟨dir, x⟩) <;> rw [hw] at h
  · simp [Except.map] at h
  · simp [Except.map] at h
  · simp only [Except.map, run_bind] at h
    rcases hn : (needWritable dir).run t with e | ⟨y, u⟩ <;> rw [hn] at h
    · simp at h
    · obtain ⟨rfl, -⟩ := needWritable_ok hn
      simp only [run_modify, Except.ok.injEq, Prod.mk.injEq] at h
      exact ⟨dir, x, rfl, h.2.symm⟩

lemma hardLink_ok {y : Unit} (h : (hardLink source p).run t = .ok (y, t')) :
    ∃ l n dir x, t.lookup false source = .ok (l, n) ∧ (∀ m, n ≠ .directory m) ∧
      t.walk false p = .ok (.missing dir x) ∧ t' = t.put (dir ++ [x]) n := by
  unfold hardLink at h
  rw [run_bind, run_lookup] at h
  rcases hl : t.lookup false source with e | ⟨l, n⟩ <;> rw [hl] at h
  · simp [Except.map] at h
  simp only [Except.map, run_bind, run_found] at h
  rcases hw : t.walk false p with e | (⟨l', n'⟩ | ⟨dir, x⟩) <;> rw [hw] at h
  · simp at h
  · simp at h
  · simp only [run_bind] at h
    rcases hn : (needWritable dir).run t with e | ⟨y, u⟩ <;> rw [hn] at h
    · simp at h
    · obtain ⟨rfl, -⟩ := needWritable_ok hn
      rcases n with m | q | i | d
      · simp at h
      all_goals
        simp only [run_modify, Except.ok.injEq, Prod.mk.injEq] at h
        exact ⟨l, _, dir, x, rfl, by simp, rfl, h.2.symm⟩

/-- Permissions are set of what a path leads to. -/
lemma changeMode_ok {y : Unit} (h : (changeMode p mode).run t = .ok (y, t')) :
    ∃ l n, t.lookup true p = .ok (l, n) ∧
      ((∃ m, n = .directory m) ∧ t' = t.put l (.directory mode) ∨
        (∀ m, n ≠ .directory m)) := by
  unfold changeMode at h
  rw [run_bind, run_lookup] at h
  rcases hl : t.lookup true p with e | ⟨l, n⟩ <;> rw [hl] at h
  · simp [Except.map] at h
  · refine ⟨l, n, rfl, ?_⟩
    rcases n with m | q | i | d
    · simp only [Except.map, setMode, run_modify, Except.ok.injEq, Prod.mk.injEq] at h
      exact .inl ⟨⟨m, rfl⟩, h.2.symm⟩
    all_goals exact .inr (by simp)

lemma fileMode_ok {id : Nat} (h : (fileMode id).run t = .ok (mode, t')) :
    t' = t ∧ ∃ f, t.file? id = some f ∧ mode = f.mode := by
  unfold fileMode at h
  simp only [run_bind, run_get] at h
  rcases hf : t.file? id with _ | f <;> rw [hf] at h
  · simp at h
  · obtain ⟨rfl, rfl⟩ := Prod.mk.inj (Except.ok.inj h)
    exact ⟨rfl, f, rfl, rfl⟩

/-- What is opened is what the path leads to. -/
lemma openRead_ok {h : Handle} (ho : (openRead p).run t = .ok (h, t')) :
    t' = t ∧ ∀ id, h = .file id → ∃ l f, t.lookup true p = .ok (l, .file id) ∧
      t.file? id = some f ∧ t.user.mayRead f.mode = true := by
  unfold openRead at ho
  rw [run_bind, run_lookup] at ho
  rcases hl : t.lookup true p with e | ⟨l, m | q | id | d⟩ <;> rw [hl] at ho <;>
    simp only [Except.map] at ho
  · simp at ho
  · rw [run_bind, run_get] at ho
    simp only at ho
    split at ho
    · obtain ⟨rfl, rfl⟩ := Prod.mk.inj (Except.ok.inj ho)
      exact ⟨rfl, by simp⟩
    · simp at ho
  · simp at ho
  · rw [run_bind, run_get] at ho
    simp only at ho
    rw [run_bind] at ho
    rcases hm : (fileMode id).run t with e | ⟨mode, u⟩ <;> rw [hm] at ho
    · simp at ho
    · obtain ⟨rfl, f, hf, rfl⟩ := fileMode_ok hm
      simp only at ho
      split at ho
      · rename_i hr
        obtain ⟨rfl, rfl⟩ := Prod.mk.inj (Except.ok.inj ho)
        refine ⟨rfl, ?_⟩
        rintro _ ⟨rfl⟩
        exact ⟨l, f, rfl, hf, hr⟩
      · simp at ho
  · obtain ⟨rfl, rfl⟩ := Prod.mk.inj (Except.ok.inj ho)
    exact ⟨rfl, by simp⟩

lemma contents_ok {h : Handle} {b : Bytes} (ho : (contents h).run t = .ok (b, t')) : t' = t := by
  unfold contents at ho
  rcases h with l | id | d
  · simp at ho
  · simp only [run_bind, run_get] at ho
    rcases hf : t.file? id with _ | f <;> rw [hf] at ho
    · simp at ho
    · exact (Prod.mk.inj (Except.ok.inj ho)).2.symm
  · exact (Prod.mk.inj (Except.ok.inj ho)).2.symm

lemma write_file_ok {id : Nat} {b : Bytes} {y : Unit}
    (h : (write (.file id) b).run t = .ok (y, t')) : t' = t.append id b := by
  simp only [write, run_modify, Except.ok.injEq, Prod.mk.injEq] at h
  exact h.2.symm

lemma setMode_file_ok {id : Nat} {y : Unit}
    (h : (setMode (.file id) mode).run t = .ok (y, t')) :
    t' = t.modifyFile id fun f => { f with mode := mode } := by
  simp only [setMode, run_modify, Except.ok.injEq, Prod.mk.injEq] at h
  exact h.2.symm

/-! ### Several operations -/

/-- An operation that fails leaves everything as it was. -/
lemma run_toAct (o : FileOp α) (t : FileTree) : o.toAct.run t = match o.run t with
    | .ok (x, u) => (.ok x, u)
    | .error e => (.error e, t) := rfl

lemma after_toAct {o : FileOp α} {Q : α → FileTree → Prop} {E : FileError → FileTree → Prop}
    (hok : ∀ x u, o.run t = .ok (x, u) → Q x u) (herr : ∀ e, o.run t = .error e → E e t) :
    After o.toAct t Q E := by
  unfold After
  rw [run_toAct]
  rcases ho : o.run t with e | ⟨x, u⟩
  · exact herr e ho
  · exact hok x u ho

/-- The directory itself is tried first. -/
lemma ensureDirectory_eq (hp : p ≠ []) : ∃ above, FileAct.ensureDirectory p =
    tryCatch (makeDirectory p).toAct fun e =>
      if e = .notFound then do FileAct.ensureChain above; FileAct.ensureOne p
      else (do if (← get).isDirectory p then pure () else FileAct.fail e) := by
  obtain ⟨above, ha⟩ : ∃ above, FileAct.ancestors p.length p = p :: above := by
    rcases p with _ | ⟨b, q⟩
    · exact absurd rfl hp
    · exact ⟨_, rfl⟩
  refine ⟨above, ?_⟩
  unfold FileAct.ensureDirectory
  rw [ha, FileAct.ensureChain, if_neg (by simpa using hp)]

/-- Where the directory above is there, only one is made. -/
lemma after_ensureDirectory {Q : Unit → FileTree → Prop} {E : FileError → FileTree → Prop}
    (hp : p ≠ []) (hok : ∀ u, (makeDirectory p).run t = .ok ((), u) → Q () u)
    (herr : ∀ e, (makeDirectory p).run t = .error e →
      e ≠ .notFound ∧ (t.isDirectory p = true → Q () t) ∧ E e t) :
    After (FileAct.ensureDirectory p) t Q E := by
  obtain ⟨above, ha⟩ := ensureDirectory_eq hp
  rw [ha]
  refine after_tryCatch (after_toAct (fun _ => hok) fun e he => ?_)
  obtain ⟨hne, hQ, hE⟩ := herr e he
  rw [if_neg hne]
  refine after_bind (after_get ?_)
  split
  · exact after_pure (hQ (by assumption))
  · exact after_throw hE

/-- A directory that could be made is there. -/
lemma isDirectory_ensured (hp : p ≠ []) :
    After (FileAct.ensureDirectory p) t (fun _ u => u.isDirectory p = true) fun _ _ => True := by
  have hmade : ∀ {y : Unit} {u v : FileTree}, (makeDirectory p).run u = .ok (y, v) →
      v.isDirectory p = true := by
    intro y u v h
    obtain ⟨l, m, -, -, hl⟩ := makeDirectory_created h
    simp [isDirectory, hl]
  have hthere : ∀ (u : FileTree) (e : FileError),
      After (do if (← get).isDirectory p then pure () else FileAct.fail e) u
        (fun _ u => u.isDirectory p = true) fun _ _ => True := by
    intro u e
    refine after_bind (after_get ?_)
    split
    · exact after_pure (by assumption)
    · exact after_throw trivial
  obtain ⟨above, ha⟩ := ensureDirectory_eq hp
  rw [ha]
  refine after_tryCatch (after_toAct (fun _ _ => hmade) fun e _ => ?_)
  split
  · refine after_bind (after_of_forall (fun _ v => ?_) fun _ _ => trivial)
    exact after_tryCatch (after_toAct (fun _ _ => hmade) fun e _ => hthere v e)
  · exact hthere t e

section Keeping

variable {P : FileTree → Prop}

lemma settle_keeps (h : P t) (e : FileError) :
    After (do if (← get).isDirectory p then pure () else FileAct.fail e) t
      (fun _ => P) fun _ => P := by
  refine after_bind (after_get ?_)
  split
  · exact after_pure h
  · exact after_throw h

lemma ensureOne_keeps
    (hP : ∀ {t t' : FileTree} {y : Unit}, P t → (makeDirectory p).run t = .ok (y, t') → P t')
    (h : P t) : After (FileAct.ensureOne p) t (fun _ => P) fun _ => P :=
  after_tryCatch (after_toAct (fun _ _ => hP h) fun e _ => settle_keeps h e)

lemma ensureChain_keeps (ps : List Path)
    (hP : ∀ q ∈ ps, ∀ {t t' : FileTree} {y : Unit}, P t →
      (makeDirectory q).run t = .ok (y, t') → P t')
    (h : P t) : After (FileAct.ensureChain ps) t (fun _ => P) fun _ => P := by
  induction ps generalizing t with
  | nil => exact after_throw h
  | cons q above ih =>
    unfold FileAct.ensureChain
    split
    · exact after_pure h
    · refine after_tryCatch (after_toAct (fun _ _ => hP q (by simp) h) fun e _ => ?_)
      split
      · exact after_bind ((ih (fun r hr => hP r (by simp [hr])) h).mono
          (fun _ _ hv => ensureOne_keeps (hP q (by simp)) hv) fun _ _ hv => hv)
      · exact settle_keeps h e

/-- What the making of a directory keeps is kept while all that are missing are made. -/
lemma ensureDirectory_keeps (hP : ∀ t loc m, P t → P (t.put loc (.directory m))) (h : P t) :
    After (FileAct.ensureDirectory p) t (fun _ => P) fun _ => P := by
  refine ensureChain_keeps _ (fun q _ {t t' y} ht hm => ?_) h
  obtain ⟨dir, x, m, -, -, rfl⟩ := makeDirectory_ok hm
  exact hP _ _ _ ht

end Keeping

/-- A directory that is there is not made, and nothing changes. -/
lemma run_ensureDirectory_present (hp : Usable p) {l : Location} {n : Node}
    (hs : t.searchable l = .ok ()) (h : t.lookup true (withoutSlashes p) = .ok (l, n)) :
    (FileAct.ensureDirectory p).run t = (.ok (), t) := by
  have hmake : (makeDirectory p).run t = .error .exists := by
    obtain ⟨l', n', hw⟩ := walk_unfollowed h
    have hfound : (foundBare p).run t = .ok (.node l' n', t) := by
      unfold foundBare
      rw [if_neg (by have := hp.short; omega), run_found, hw]
      rfl
    unfold makeDirectory
    rw [run_bind, hfound]
    rfl
  have hthere : t.isDirectory p = true := by
    have hl := lookup_of_withoutSlashes hp hs h
    obtain ⟨m, hm, -⟩ := searchable_ok hs
    obtain rfl := Option.some.inj ((lookup_node hl).symm.trans hm)
    simp [isDirectory, hl]
  obtain ⟨above, ha⟩ := ensureDirectory_eq hp.notEmpty
  rw [ha, run_tryCatch, run_toAct, hmake]
  simp only [reduceCtorEq, if_false]
  rw [PinnedBuild.run_bind]
  show (if t.isDirectory p then pure () else FileAct.fail .exists : FileAct Unit).run t = _
  rw [hthere]
  rfl

/-! ### Writing a file and reading it -/

lemma found_missing_file {dir : Location} {x : Name} (h : t.walk true p = .ok (.missing dir x)) :
    (t.putFile (dir ++ [x]) newFileMode).2.lookup true p =
      .ok (dir ++ [x], .file t.files.length) := by
  have hnone : t.node? (dir ++ [x]) = none := walk_fits h
  have hcwd : (t.putFile (dir ++ [x]) newFileMode).2.cwd = t.cwd := rfl
  have hnode : (t.putFile (dir ++ [x]) newFileMode).2.node? (dir ++ [x]) =
      some (.file t.files.length) := by rw [node?_putFile, if_pos rfl]
  exact lookup_added (extends_putFile hnone _) hcwd hnode (by simp) h

/-- To open for writing changes nothing where the path leads to something, and makes a file where
nothing is. -/
lemma openWrite_cases {f : Handle} (h : (openWrite p).run t = .ok (f, t')) :
    t' = t ∧ (∃ l id g, t.lookup true p = .ok (l, .file id) ∧ f = .file id ∧
        t.file? id = some g) ∨
      t' = t ∧ (∃ l d, t.lookup true p = .ok (l, .device d) ∧ f = .device d) ∨
      ∃ dir x, t.walk true p = .ok (.missing dir x) ∧ f = .file t.files.length ∧
        t' = (t.putFile (dir ++ [x]) newFileMode).2 := by
  unfold openWrite at h
  split at h
  · rw [run_bind] at h
    rcases hb : (foundBare p).run t with e | ⟨r, u⟩ <;> rw [hb] at h <;> simp at h
  · rw [run_bind, run_found] at h
    rcases hw : t.walk true p with e | (⟨l, n⟩ | ⟨dir, x⟩) <;> rw [hw] at h
    · simp [Except.map] at h
    · have hl : t.lookup true p = .ok (l, n) := lookup_ok.mpr hw
      rcases n with m | q | id | d
      · simp [Except.map] at h
      · simp [Except.map] at h
      · simp only [Except.map, run_bind, run_get] at h
        rcases hm : (fileMode id).run t with e | ⟨mode, u⟩ <;> rw [hm] at h
        · simp at h
        · obtain ⟨rfl, g, hg, rfl⟩ := fileMode_ok hm
          simp only at h
          split at h
          · obtain ⟨rfl, rfl⟩ := Prod.mk.inj (Except.ok.inj h)
            exact .inl ⟨rfl, l, id, g, hl, rfl, hg⟩
          · simp at h
      · obtain ⟨rfl, rfl⟩ := Prod.mk.inj (Except.ok.inj h)
        exact .inr (.inl ⟨rfl, l, d, hl, rfl⟩)
    · obtain ⟨rfl, rfl⟩ := addFile_ok h
      exact .inr (.inr ⟨dir, x, rfl, rfl, rfl⟩)

lemma isThere_of_lookup {l : Location} {n : Node} (h : t.lookup true p = .ok (l, n)) :
    t.isThere p = true := by
  simp [isThere, h, Except.isOk, Except.toBool]

lemma isDirectory_iff :
    t.isDirectory p = true ↔ ∃ l m, t.lookup true p = .ok (l, .directory m) := by
  unfold isDirectory
  rcases t.lookup true p with e | ⟨l, m | q | id | d⟩ <;> simp

lemma lookup_of_isThere (h : t.isThere p = true) : ∃ l n, t.lookup true p = .ok (l, n) := by
  unfold isThere at h
  rcases hl : t.lookup true p with e | ⟨l, n⟩ <;> rw [hl] at h
  · cases h
  · exact ⟨l, n, rfl⟩

lemma file?_putFile (t : FileTree) (loc : Location) (mode : Mode) :
    (t.putFile loc mode).2.file? t.files.length = some ⟨[], mode⟩ := by
  simp [file?, FileTree.putFile]

lemma object?_putFile (hs : t.Sound) (at_ loc : Location) (mode : Mode) :
    (t.putFile at_ mode).2.object? loc =
      if loc = at_ then some (.file ⟨[], mode⟩) else t.object? loc := by
  by_cases hl : loc = at_
  · unfold object?
    rw [node?_putFile, if_pos hl, if_pos hl]
    simp only [file?_putFile, Option.map_some]
  · rw [if_neg hl, object?_putFile_of_ne hs mode hl]

/-- A file that is opened for writing is one that is there, or a new one. -/
lemma openWrite_ok {f : Handle} (h : (openWrite p).run t = .ok (f, t')) :
    (∃ l id g, t'.lookup true p = .ok (l, .file id) ∧ f = .file id ∧ t'.file? id = some g ∧
        (t.isThere p = false → g.mode = newFileMode)) ∨
      ∃ l d, t'.lookup true p = .ok (l, .device d) ∧ f = .device d ∧ t.isThere p = true := by
  rcases openWrite_cases h with ⟨rfl, l, id, g, hl, rfl, hg⟩ | ⟨rfl, l, d, hl, rfl⟩ |
    ⟨dir, x, hw, rfl, rfl⟩
  · exact .inl ⟨l, id, g, hl, rfl, hg, by simp [isThere_of_lookup hl]⟩
  · exact .inr ⟨l, d, hl, rfl, isThere_of_lookup hl⟩
  · exact .inl ⟨dir ++ [x], t.files.length, ⟨[], newFileMode⟩, found_missing_file hw, rfl,
      file?_putFile .., fun _ => rfl⟩

lemma file?_modifyFile {id : Nat} {g : File} (h : t.file? id = some g) (f : File → File) :
    (t.modifyFile id f).file? id = some (f g) := by
  simp only [file?, FileTree.modifyFile] at h ⊢
  rw [List.getElem?_modify_eq, h]
  rfl

lemma lookup_modifyFile {id : Nat} (f : File → File) {l : Location} {n : Node}
    (h : t.lookup follow p = .ok (l, n)) : (t.modifyFile id f).lookup follow p = .ok (l, n) :=
  lookup_extends (t := t) ⟨rfl, fun _ _ hn => hn⟩ rfl h

/-- A file that is opened for writing from the start is empty. -/
lemma create_ok {f : Handle} (h : (create p).run t = .ok (f, t')) :
    (∃ l id g, t'.lookup true p = .ok (l, .file id) ∧ f = .file id ∧ t'.file? id = some g ∧
        g.content = []) ∨
      ∃ l d, t'.lookup true p = .ok (l, .device d) ∧ f = .device d := by
  unfold create at h
  rw [run_bind] at h
  rcases hw : (openWrite p).run t with e | ⟨f', u⟩ <;> rw [hw] at h
  · simp at h
  rcases openWrite_ok hw with ⟨l, id, g, hl, rfl, hg, -⟩ | ⟨l, d, hl, rfl, -⟩
  · simp only [run_bind, run_modify, run_pure] at h
    obtain ⟨rfl, rfl⟩ := Prod.mk.inj (Except.ok.inj h)
    exact .inl ⟨l, id, _, lookup_modifyFile _ hl, rfl, file?_modifyFile hg _, rfl⟩
  · obtain ⟨rfl, rfl⟩ := Prod.mk.inj (Except.ok.inj h)
    exact .inr ⟨l, d, hl, rfl⟩

lemma run_writeFile (p : Path) (b : Bytes) (t : FileTree) :
    (FileAct.writeFile p b).run t = match (openWrite p).run t with
      | .error e => (.error e, t)
      | .ok (h, u) =>
        let v := match h with
          | .file id => u.modifyFile id fun f => { f with content := [] }
          | _ => u
        match (write h b).run v with
        | .ok (_, v') => (.ok (), v')
        | .error e => (.error e, v) := by
  unfold FileAct.writeFile create
  rw [PinnedBuild.run_bind, run_toAct, run_bind]
  rcases (openWrite p).run t with e | ⟨h, u⟩
  · rfl
  · rcases h with l | id | d
    · simp only [run_pure, run_toAct]
      rcases (write (.directory l) b).run u with e | ⟨y, v⟩ <;> rfl
    · simp only [run_bind, run_modify, run_pure, run_toAct]
      rcases (write (.file id) b).run (u.modifyFile id fun f => { f with content := [] }) with
        e | ⟨y, v⟩ <;> rfl
    · simp only [run_pure, run_toAct]
      rcases (write (.device d) b).run u with e | ⟨y, v⟩ <;> rfl

lemma write_device_ok {d : Device} {b : Bytes} {y : Unit}
    (h : (write (.device d) b).run t = .ok (y, t')) : t' = t := by
  rcases d with _ | _
  · exact (Prod.mk.inj (Except.ok.inj h)).2.symm
  · simp only [write] at h
    split at h
    · exact (Prod.mk.inj (Except.ok.inj h)).2.symm
    · simp at h

/-- What is written to a path stands there afterwards, unless a device does. -/
lemma writeFile_ok {b : Bytes} (h : (FileAct.writeFile p b).run t = (.ok (), t')) :
    (∃ l id g, t'.lookup true p = .ok (l, .file id) ∧ t'.file? id = some g ∧ g.content = b ∧
        (t.isThere p = false → g.mode = newFileMode)) ∨
      ∃ l d, t'.lookup true p = .ok (l, .device d) ∧ t.isThere p = true := by
  rw [run_writeFile] at h
  rcases hw : (openWrite p).run t with e | ⟨f, u⟩ <;> rw [hw] at h
  · exact absurd (Prod.mk.inj h).1 (by simp)
  rcases openWrite_ok hw with ⟨l, id, g, hl, rfl, hg, hm⟩ | ⟨l, d, hl, rfl, ht⟩
  · obtain rfl := (Prod.mk.inj h).2
    exact .inl ⟨l, id, _, lookup_modifyFile _ (lookup_modifyFile _ hl),
      file?_modifyFile (file?_modifyFile hg _) _, rfl, hm⟩
  · simp only at h
    rcases hd : (write (.device d) b).run u with e | ⟨y, v⟩ <;> rw [hd] at h
    · exact absurd (Prod.mk.inj h).1 (by simp)
    · obtain rfl := (Prod.mk.inj h).2
      obtain rfl := write_device_ok hd
      exact .inr ⟨l, d, hl, ht⟩

/-- A new file has nothing to be emptied of. -/
lemma emptied_putFile (t : FileTree) (loc : Location) (mode : Mode) :
    (t.putFile loc mode).2.modifyFile t.files.length (fun f => { f with content := [] }) =
      (t.putFile loc mode).2 := by
  have hsame : ((t.putFile loc mode).2.files).modify t.files.length
      (fun f => { f with content := [] }) = (t.putFile loc mode).2.files := by
    refine List.ext_getElem? fun i => ?_
    rw [List.getElem?_modify]
    by_cases hi : t.files.length = i
    · subst hi
      simp [FileTree.putFile]
    · simp [hi]
  unfold modifyFile
  rw [hsame]

lemma file?_filled (t : FileTree) (loc : Location) (mode : Mode) (b : Bytes) :
    ((t.putFile loc mode).2.append t.files.length b).file? t.files.length = some ⟨b, mode⟩ :=
  file?_modifyFile (file?_putFile ..) _

/-- What is made and filled where nothing was. -/
lemma found_filled {dir : Location} {x : Name} (b : Bytes)
    (h : t.walk true p = .ok (.missing dir x)) :
    ((t.putFile (dir ++ [x]) newFileMode).2.append t.files.length b).lookup true p =
        .ok (dir ++ [x], .file t.files.length) ∧
      ((t.putFile (dir ++ [x]) newFileMode).2.append t.files.length b).file? t.files.length =
        some ⟨b, newFileMode⟩ :=
  ⟨lookup_modifyFile _ (found_missing_file h), file?_filled ..⟩

lemma run_writeFile_error {e : FileError} (b : Bytes) (h : (openWrite p).run t = .error e) :
    (FileAct.writeFile p b).run t = (.error e, t) := by rw [run_writeFile, h]

lemma run_writeFile_new {loc : Location} (b : Bytes)
    (h : (openWrite p).run t = .ok (.file t.files.length, (t.putFile loc newFileMode).2)) :
    (FileAct.writeFile p b).run t =
      (.ok (), (t.putFile loc newFileMode).2.append t.files.length b) := by
  rw [run_writeFile, h]
  simp only [emptied_putFile]
  rfl

/-- Where nothing was, a file is made and filled, or nothing is changed. -/
lemma writeFile_cases (b : Bytes) (hn : t.isThere p = false) :
    (∃ e, (FileAct.writeFile p b).run t = (.error e, t)) ∨
      ∃ dir x, t.walk true p = .ok (.missing dir x) ∧ (FileAct.writeFile p b).run t =
        (.ok (), (t.putFile (dir ++ [x]) newFileMode).2.append t.files.length b) := by
  rcases hw : (openWrite p).run t with e | ⟨f, u⟩
  · exact .inl ⟨e, run_writeFile_error b hw⟩
  rcases openWrite_cases hw with ⟨-, l, id, g, hl, -⟩ | ⟨-, l, d, hl, -⟩ | ⟨dir, x, hf, rfl, rfl⟩
  · simp [isThere_of_lookup hl] at hn
  · simp [isThere_of_lookup hl] at hn
  · exact .inr ⟨dir, x, hf, run_writeFile_new b hw⟩

/-- What is written where nothing was stands in a new file. -/
lemma writeFile_new {b : Bytes} (h : (FileAct.writeFile p b).run t = (.ok (), t'))
    (hn : t.isThere p = false) :
    ∃ l, t'.lookup true p = .ok (l, .file t.files.length) ∧
      t'.file? t.files.length = some ⟨b, newFileMode⟩ := by
  rcases writeFile_cases b hn with ⟨e, he⟩ | ⟨dir, x, hf, hw⟩
  · exact absurd (Prod.mk.inj (he.symm.trans h)).1 (by simp)
  · obtain rfl := (Prod.mk.inj (hw.symm.trans h)).2
    exact ⟨dir ++ [x], found_filled b hf⟩

/-- Whoever makes a file may read it. -/
lemma mayRead_newFileMode (u : User) : u.mayRead newFileMode = true := by
  cases u <;> rfl

lemma openRead_file {l : Location} {id : Nat} {g : File}
    (hl : t.lookup true p = .ok (l, .file id)) (hg : t.file? id = some g)
    (hr : t.user.mayRead g.mode = true) : (openRead p).run t = .ok (.file id, t) := by
  have hm : (fileMode id).run t = .ok (g.mode, t) := by
    simp only [fileMode, run_bind, run_get, hg]
    rfl
  unfold openRead
  rw [run_bind, run_lookup, hl]
  simp only [Except.map, run_bind, run_get, hm, hr, if_true]
  rfl

lemma readAll_file {l : Location} {id : Nat} {g : File}
    (hl : t.lookup true p = .ok (l, .file id)) (hg : t.file? id = some g)
    (hr : t.user.mayRead g.mode = true) : (readAll p).run t = .ok (g.content, t) := by
  unfold readAll
  rw [run_bind, openRead_file hl hg hr]
  simp only [contents, run_bind, run_get, hg]
  rfl

end PinnedBuild.Files.FileOp
