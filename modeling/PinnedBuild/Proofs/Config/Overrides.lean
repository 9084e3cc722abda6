import Mathlib
import PinnedBuild.Config

/-!
Overrides that are applied one after the other.

What the last of them gives is what holds. Only the digest has a history: it goes with the first
commit that is another than the one it was recorded for, and does not come back with that one.
-/

namespace PinnedBuild.BuildOverrides

variable {c c' : Config} {o : BuildOverrides} {os : List BuildOverrides}

/-- A configuration after overrides. -/
def applyAll (os : List BuildOverrides) (c : Config) : Config := os.foldl (fun c o => o.apply c) c

/-- The commits that are given along the way. -/
def commits (os : List BuildOverrides) : List String := os.filterMap commit

/-- The job counts that are given along the way. -/
def jobCounts (os : List BuildOverrides) : List UInt32 := os.filterMap jobs

/-- What has become of a configuration after overrides. -/
structure Comes (c : Config) (os : List BuildOverrides) (c' : Config) : Prop where
  commit : c'.commit = (commits os).getLast?.getD c.commit
  buildJobs : c'.buildJobs = (jobCounts os).getLast?.getD c.buildJobs
  installWithSudo :
    c'.installWithSudo = if os.any noSudo then false else c.installWithSudo
  archiveName : c'.archiveName = c.archiveName
  buildDir : c'.buildDir = c.buildDir
  cmake : c'.cmake = c.cmake
  expectedSha256 :
    c'.expectedSha256 = if ∀ commit ∈ commits os, commit = c.commit then c.expectedSha256 else none

lemma applyAll_cons (o : BuildOverrides) (os : List BuildOverrides) (c : Config) :
    applyAll (o :: os) c = applyAll os (o.apply c) := rfl

lemma applyAll_append (os os' : List BuildOverrides) (c : Config) :
    applyAll (os ++ os') c = applyAll os' (applyAll os c) := List.foldl_append

/-- The last value that is given, where one more is given in front of all others. -/
lemma getLast?_filterMap_cons {α β : Type} (f : α → Option β) (x : α) (xs : List α) (d : β) :
    ((x :: xs).filterMap f).getLast?.getD d = (xs.filterMap f).getLast?.getD ((f x).getD d) := by
  rcases hx : f x with _ | y
  · rw [List.filterMap_cons_none hx]
    rfl
  · rw [List.filterMap_cons_some hx, List.getLast?_cons]
    rfl

lemma comes_nil (c : Config) : Comes c [] c where
  commit := rfl
  buildJobs := rfl
  installWithSudo := rfl
  archiveName := rfl
  buildDir := rfl
  cmake := rfl
  expectedSha256 := by simp [commits]

/-- One override in front of all others. If its commit is another, the digest is gone, and nothing
that comes after brings it back. -/
lemma Comes.cons (h : Comes (o.apply c) os c') : Comes c (o :: os) c' where
  commit := h.commit.trans (getLast?_filterMap_cons BuildOverrides.commit o os c.commit).symm
  buildJobs := h.buildJobs.trans (getLast?_filterMap_cons BuildOverrides.jobs o os c.buildJobs).symm
  installWithSudo := by
    rw [h.installWithSudo, List.any_cons]
    rcases hs : o.noSudo with _ | _
    · simp [apply, hs]
    · simp [apply, hs]
  archiveName := h.archiveName
  buildDir := h.buildDir
  cmake := h.cmake
  expectedSha256 := by
    rw [h.expectedSha256]
    rcases ho : o.commit with _ | k
    · have hc : commits (o :: os) = commits os := List.filterMap_cons_none ho
      simp [apply, ho, hc]
    · have hc : commits (o :: os) = k :: commits os := List.filterMap_cons_some ho
      rw [hc]
      simp only [List.forall_mem_cons]
      by_cases hk : k = c.commit
      · simp [apply, ho, hk]
      · simp [apply, ho, hk]

lemma comes_applyAll (os : List BuildOverrides) (c : Config) : Comes c os (applyAll os c) := by
  induction os generalizing c with
  | nil => exact comes_nil c
  | cons o os ih => exact (ih (o.apply c)).cons

/-- A digest that is still there is the one that was recorded, and so is its commit. -/
lemma Comes.digest (h : Comes c os c') {digest : String} (hd : c'.expectedSha256 = some digest) :
    c.expectedSha256 = some digest ∧ c'.commit = c.commit := by
  rw [h.expectedSha256] at hd
  split_ifs at hd with hall
  refine ⟨hd, ?_⟩
  rw [h.commit]
  rcases hl : (commits os).getLast? with _ | k
  · rfl
  · exact hall k (List.mem_of_getLast? hl)

/-- What an override gives it gives only once. -/
lemma apply_apply (o : BuildOverrides) (c : Config) : o.apply (o.apply c) = o.apply c := by
  rcases o with ⟨_ | k, _ | n, noSudo⟩ <;> simp [apply]

/-- **Overrides**: what any number of overrides comes to. The digest never goes over to another
commit, and an override that is given twice in a row might as well be given once. -/
theorem applyAll_settled (os : List BuildOverrides) (c : Config) :
    Comes c os (applyAll os c) ∧
      (∀ digest, (applyAll os c).expectedSha256 = some digest →
        c.expectedSha256 = some digest ∧ (applyAll os c).commit = c.commit) ∧
      ∀ o more, applyAll (os ++ o :: o :: more) c = applyAll (os ++ o :: more) c := by
  have h := comes_applyAll os c
  refine ⟨h, fun _ => h.digest, fun o more => ?_⟩
  rw [applyAll_append, applyAll_append, applyAll_cons, applyAll_cons, applyAll_cons, apply_apply]

/-- Away from a commit and back to it. -/
example : (applyAll [{ commit := some "b" }, { commit := some "a" }]
    { commit := "a", expectedSha256 := some "d" }).expectedSha256 = none := by decide

end PinnedBuild.BuildOverrides
