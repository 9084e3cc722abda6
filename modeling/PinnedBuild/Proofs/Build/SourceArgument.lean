import Mathlib
import PinnedBuild.Proofs.Build.Turns
import PinnedBuild.Proofs.Files.WalkComposition

/-!
What the configure step is pointed at. Its argument leads from the build directory to what stands
beside that directory, which is in the source tree if the build directory was made directly in it.
-/

namespace PinnedBuild

open Files FileTree

/-- What the sources are called in the source tree. -/
def sourceName : Name := Path.ofString "llvm"

lemma plain_sourceName : Plain sourceName := by
  constructor <;> decide

lemma ofString_sourceRelative :
    Path.ofString ToolStep.sourceRelative = Path.join [Path.dot, Path.dot] sourceName := by
  decide

lemma usable_sourceRelative : Usable (Path.join [Path.dot, Path.dot] sourceName) := by
  constructor <;> decide

namespace Files.FileOp

/-- Slashes after a name are those that are taken off. -/
lemma withoutSlashes_join_slashes {q x : Path} (hq : q ≠ []) (hx : Plain x) (k : Nat) :
    withoutSlashes (q.join (x ++ List.replicate k Path.slash)) = q.join x := by
  obtain ⟨b, y, rfl⟩ := List.exists_cons_of_ne_nil hx.notEmpty
  have hjoin : q.join (b :: y ++ List.replicate k Path.slash) =
      q.join (b :: y) ++ List.replicate k Path.slash := by
    unfold Path.join
    rw [show Path.isAbsolute (b :: y ++ List.replicate k Path.slash) = Path.isAbsolute (b :: y)
      from rfl, Path.not_isAbsolute hx]
    split
    · contradiction
    · split <;> simp
  obtain ⟨r, c, hr⟩ := List.eq_nil_or_concat (q.join (b :: y)) |>.resolve_left
    (Path.join_ne_nil hx.notEmpty)
  have hc : c ≠ Path.slash := fun h => Path.getLast?_join hq hx (by rw [hr, h]; simp)
  rw [hjoin, hr]
  unfold withoutSlashes
  simp [hc]

end Files.FileOp

namespace BuildPlan

variable {p : BuildPlan} {w v : World} {dir : Path}

/-- Entering has found the source tree and made the build directory, at the end of its path. -/
lemma enter_made (h : p.enter.run w = (.ok dir, v)) :
    dir = p.buildDir ∧ ∃ source n above x m t,
      w.files.lookup true p.sourceDir = .ok (source, .directory n) ∧
      w.files.walk false (FileOp.withoutSlashes p.buildDir) = .ok (.missing above x) ∧
      w.files.node? (above ++ [x]) = none ∧
      t = w.files.put (above ++ [x]) (.directory (FileOp.inheritedMode m)) ∧
      t.lookup true p.buildDir = .ok (above ++ [x], .directory (FileOp.inheritedMode m)) ∧
      v = ({ w with files := t } : World).say
        ⟨.info, .driver, "created " ++ p.buildDir.display⟩ := by
  have hentered := entered p w
  rw [h] at hentered
  cases hentered with
  | made hdir hm =>
    obtain ⟨above, x, m, hw, -, rfl, hd⟩ := FileOp.makeDirectory_makes hm
    obtain ⟨source, n, hs⟩ := FileOp.isDirectory_iff.mp hdir
    exact ⟨rfl, source, n, above, x, m, _, hs, hw, walk_fits hw, rfl, hd, rfl⟩

/-- What the configure step is pointed at in a world, where the source tree is at one place and the
build directory at another. -/
structure PointsAt (p : BuildPlan) (dir : Path) (v : World) (source place : Location) : Prop where
  tree : ∃ m, v.files.lookup true p.sourceDir = .ok (source, .directory m)
  built : ∃ m, v.files.lookup true dir = .ok (place, .directory m)
  /-- The tool runs in the build directory, and the argument is what it is given there. -/
  process (shop : Workshop) toolDir process : Spawn.prepare
      (announced dir (atHand toolDir v (.configure p.config.cmake)) v).files shop.searchPath
      (atHand toolDir v (.configure p.config.cmake)) dir = .ok process →
    process.cwd = place ∧ ∃ more, process.args = "-S" :: ToolStep.sourceRelative :: more
  /-- The argument leads to the sources beside the build directory. -/
  beside follow : ({ v.files with cwd := place } : FileTree).walk follow
      (.ofString ToolStep.sourceRelative) =
    ({ v.files with cwd := place.dropLast } : FileTree).walk follow sourceName
  /-- Those are the sources of the tree, if the build directory stands directly in it. -/
  within : place.dropLast = source → ∀ l n,
    v.files.lookup true (p.sourceDir.join sourceName) = .ok (l, n) →
    ({ v.files with cwd := place } : FileTree).lookup true (.ofString ToolStep.sourceRelative) =
      .ok (l, n)
  /-- If it does not, then they stand elsewhere. -/
  apart : place.dropLast ≠ source → ∀ l l' n n',
    v.files.lookup false (p.sourceDir.join sourceName) = .ok (l, n) →
    ({ v.files with cwd := place } : FileTree).lookup false (.ofString ToolStep.sourceRelative) =
      .ok (l', n') → l ≠ l'
  /-- It does if it is given by its name, whatever slashes come after that. -/
  direct x k : Plain x → Path.ofString p.config.buildDir = x ++ List.replicate k Path.slash →
    place.dropLast = source

/-- **What the configure step is pointed at**: the sources beside the build directory, and so those
of the source tree just if the build directory stands directly in it. -/
theorem configure_pointsAt (h : p.enter.run w = (.ok dir, v)) :
    ∃ source place, PointsAt p dir v source place := by
  obtain ⟨rfl, source, n, above, x, m, t, hs, hw, hnone, ht, hd, rfl⟩ := enter_made h
  have htree : t.lookup true p.sourceDir = .ok (source, .directory n) := by
    rw [ht]
    exact lookup_extends (extends_put hnone) rfl hs
  have hbuilt := World.lookup_say (w := { w with files := t })
    ⟨.info, .driver, "created " ++ p.buildDir.display⟩ hd
  have hsource := World.lookup_say (w := { w with files := t })
    ⟨.info, .driver, "created " ++ p.buildDir.display⟩ htree
  generalize ({ w with files := t } : World).say
    ⟨.info, .driver, "created " ++ p.buildDir.display⟩ = v at *
  have hsearch : v.files.searchable (above ++ [x]) = .ok () :=
    FileOp.searchable_inheritedMode (lookup_node hbuilt)
  have hbeside : ∀ follow, ({ v.files with cwd := above ++ [x] } : FileTree).walk follow
      (.ofString ToolStep.sourceRelative) =
      ({ v.files with cwd := (above ++ [x]).dropLast } : FileTree).walk follow sourceName := by
    intro follow
    rw [ofString_sourceRelative]
    exact walk_up (t := { v.files with cwd := above ++ [x] }) plain_sourceName
      usable_sourceRelative hsearch
  refine ⟨source, above ++ [x], ?_⟩
  constructor
  case tree => exact ⟨n, hsource⟩
  case built => exact ⟨_, hbuilt⟩
  case process =>
    intro shop toolDir process hp
    obtain ⟨he, hargs, -⟩ := Spawn.prepare_ok hp
    obtain ⟨k, hl, -⟩ := Spawn.enter_ok he
    have hl' := World.lookup_say ⟨.info, .toolchain,
      "running `" ++ (atHand toolDir v (.configure p.config.cmake)).display ++ "` in " ++
        p.buildDir.display⟩ hbuilt
    obtain ⟨hplace, -⟩ := Prod.mk.inj (Except.ok.inj (hl.symm.trans hl'))
    refine ⟨hplace, ?_⟩
    rw [hargs, (isCalledAs_atHand toolDir v _).1]
    exact ⟨_, rfl⟩
  case beside => exact hbeside
  case within =>
    intro hplace l k hl
    rw [lookup, hbeside, hplace, ← lookup]
    exact lookup_onward plain_sourceName hsource hl
  case apart =>
    rintro hplace l l' k k' hl hl' rfl
    have hne := (walk_ok (lookup_ok.mp hsource)).1.notEmpty
    obtain ⟨d, k'', rfl, hd'⟩ := node_at hne plain_sourceName hl
    obtain ⟨rfl, -⟩ := Prod.mk.inj (Except.ok.inj (hsource.symm.trans hd'))
    rw [lookup, hbeside, ← lookup] at hl'
    have := lookup_name plain_sourceName hl'
    exact hplace (List.append_cancel_right this).symm
  case direct =>
    intro y k hy hname
    have hne := (walk_ok (lookup_ok.mp hs)).1.notEmpty
    rw [buildDir, hname, FileOp.withoutSlashes_join_slashes hne hy] at hw
    obtain ⟨-, -, -, k', hl⟩ := missing_at hne hy hw
    obtain ⟨rfl, -⟩ := Prod.mk.inj (Except.ok.inj (hs.symm.trans hl))
    exact List.dropLast_concat

/-- A source tree with the sources and another directory in it. -/
def sourceTree : World where
  files :=
    { nodes := [([], .directory 0o755), ([Path.ofString "llvm-project-"], .directory 0o755),
        ([Path.ofString "llvm-project-", sourceName], .directory 0o755),
        ([Path.ofString "llvm-project-", Path.ofString "sub"], .directory 0o755)]
      files := []
      cwd := [] }

/-- A build in the source tree, in a directory of the given name. -/
def treePlan (name : String) : BuildPlan :=
  .ofConfig { commit := "", buildDir := name } [Path.slash]

/-- A slash at the end of the name makes no difference. -/
theorem configure_pointsAt_sourceTree :
    ∃ v, (treePlan "build/").enter.run sourceTree = (.ok (treePlan "build/").buildDir, v) ∧
      ({ v.files with cwd := [Path.ofString "llvm-project-", Path.ofString "build"] } :
        FileTree).lookup true (.ofString ToolStep.sourceRelative) =
          .ok ([Path.ofString "llvm-project-", sourceName], .directory 0o755) := by
  have hrun : ((treePlan "build/").enter.run sourceTree).1 = .ok (treePlan "build/").buildDir := rfl
  refine ⟨_, Prod.ext hrun rfl, ?_⟩
  obtain ⟨source, place, h⟩ := configure_pointsAt (Prod.ext hrun rfl)
  obtain ⟨m, hbuilt⟩ := h.built
  obtain ⟨rfl, -⟩ := Prod.mk.inj (Except.ok.inj ((show _ = Except.ok
    ([Path.ofString "llvm-project-", Path.ofString "build"], Node.directory 0o755)
    from rfl).symm.trans hbuilt))
  have hplain : Plain (Path.ofString "build") := by
    constructor <;> decide
  exact h.within (h.direct (Path.ofString "build") 1 hplain (by decide)) _ _ rfl

/-- A build directory that stands deeper in the source tree leads the argument astray. -/
theorem configure_astray : ¬ ∀ (p : BuildPlan) (w v : World) (dir : Path) (place l : Location)
    (m : Mode) (n : Node), p.enter.run w = (.ok dir, v) →
    v.files.lookup true dir = .ok (place, .directory m) →
    v.files.lookup true (p.sourceDir.join sourceName) = .ok (l, n) →
    ({ v.files with cwd := place } : FileTree).lookup true (.ofString ToolStep.sourceRelative) =
      .ok (l, n) := by
  intro h
  have hrun : ((treePlan "sub/b").enter.run sourceTree).1 = .ok (treePlan "sub/b").buildDir := rfl
  have hlost := h (treePlan "sub/b") sourceTree _ _
    [Path.ofString "llvm-project-", Path.ofString "sub", Path.ofString "b"]
    [Path.ofString "llvm-project-", sourceName] 0o755 (.directory 0o755) (Prod.ext hrun rfl) rfl rfl
  exact absurd (congrArg Except.isOk hlost) (by decide)

end BuildPlan

end PinnedBuild
