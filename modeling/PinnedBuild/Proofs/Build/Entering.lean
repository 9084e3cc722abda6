import Mathlib
import PinnedBuild.Proofs.Build.SourceArgument
import PinnedBuild.Proofs.Files.Making

/-!
Entering the source tree. It fails and leaves everything as it was, or it makes one directory that
was not there and with nothing in it; and then it cannot be done again.
-/

namespace PinnedBuild

open Files FileTree

namespace World

variable {w : World}

/-- A directory is put somewhere, and nothing else is done. -/
def withDirectory (w : World) (at_ : Location) (m : Mode) : World :=
  { w with files := w.files.put at_ (.directory m) }

@[simp] lemma node?_say (w : World) (line : LogLine) (loc : Location) :
    (w.say line).files.node? loc = w.files.node? loc :=
  files_say (P := fun t => t.node? loc = w.files.node? loc) line rfl fun _ _ _ _ ht => ht

lemma file?_say {id : Nat} (line : LogLine) (hid : w.sink ≠ .file id) :
    (w.say line).files.file? id = w.files.file? id := by
  refine files_say (P := fun t => t.file? id = w.files.file? id) line rfl fun j b t hj ht => ?_
  have hne : j ≠ id := by
    rintro rfl
    exact hid hj
  exact (file?_modifyFile_of_ne hne _).trans ht

/-- What is said is only written to a file that is the log. -/
lemma grounded_say (line : LogLine) (h : w.files.Grounded) : (w.say line).files.Grounded :=
  files_say (P := Grounded) line h fun _ _ _ _ ht => ht.congr rfl

end World

namespace BuildPlan

variable {p : BuildPlan} {w v : World} {dir : Path}

lemma enter_succeeds (h : p.enter.run w = (.ok dir, v)) :
    dir = p.buildDir ∧ w.files.isDirectory p.sourceDir = true ∧
      ∃ t, (FileOp.makeDirectory p.buildDir).run w.files = .ok ((), t) ∧
        v = ({ w with files := t } : World).say
          ⟨.info, .driver, "created " ++ p.buildDir.display⟩ := by
  have hentered := entered p w
  rw [h] at hentered
  cases hentered with
  | made hdir hm => exact ⟨rfl, hdir, _, hm, rfl⟩

/-- Where something stands already, entering fails. -/
lemma run_enter_exists {l : Location} {n : Node} (hdir : w.files.isDirectory p.sourceDir = true)
    (hu : Usable p.buildDir)
    (hw : w.files.walk false (FileOp.withoutSlashes p.buildDir) = .ok (.node l n)) :
    p.enter.run w = (.error (.cannotCreate p.buildDir .exists), w) := by
  have hexists := FileOp.run_makeDirectory_exists hu hw
  have h := entered p w
  generalize p.enter.run w = r at h ⊢
  cases h with
  | lost hno =>
    rw [hdir] at hno
    cases hno
  | refused _ hm =>
    rw [hexists] at hm
    rw [Except.error.inj hm]
  | made _ hm =>
    rw [hexists] at hm
    cases hm

/-- Entering has made the build directory, under a name in a directory that was there. -/
structure Makes (p : BuildPlan) (w v : World) (above : Location) (x : Name) (m : Mode) :
    Prop where
  /-- There was a source tree, links followed. -/
  source : ∃ l k, w.files.lookup true p.sourceDir = .ok (l, .directory k)
  /-- Only the last part of the path was missing. -/
  parent : w.files.node? above = some (.directory m)
  last : p.buildDir.components.getLast? = some (.name x)
  missing : w.files.node? (above ++ [x]) = none
  before : w.files.isThere p.buildDir = false
  /-- The directory is put there, and that is said. -/
  world : v = (w.withDirectory (above ++ [x]) (FileOp.inheritedMode m)).say
    ⟨.info, .driver, "created " ++ p.buildDir.display⟩
  leads : v.files.lookup true p.buildDir =
    .ok (above ++ [x], .directory (FileOp.inheritedMode m))
  /-- All else stands as it stood, and only a file that is the log can have changed. -/
  elsewhere loc : loc ≠ above ++ [x] → v.files.node? loc = w.files.node? loc
  contents id : w.sink ≠ .file id → v.files.file? id = w.files.file? id
  unlogged : (∀ id, w.sink ≠ .file id) →
    v.files = w.files.put (above ++ [x]) (.directory (FileOp.inheritedMode m))
  /-- Nothing stands in the new directory. -/
  empty : w.files.Grounded → v.files.Grounded ∧
    (∀ more, more ≠ [] → v.files.node? (above ++ [x] ++ more) = none) ∧
    (FileOp.list p.buildDir).run v.files = .ok ([], v.files)
  /-- It cannot be done again, neither now nor when more has come to stand there. -/
  again u : v.files.Extends u.files → u.files.cwd = v.files.cwd →
    p.enter.run u = (.error (.cannotCreate p.buildDir .exists), u)

lemma enter_makes (h : p.enter.run w = (.ok dir, v)) :
    dir = p.buildDir ∧ ∃ above x m, Makes p w v above x m := by
  obtain ⟨rfl, hdir, t, hm, hv⟩ := enter_succeeds h
  obtain ⟨above, x, m, hw, hparent, rfl, hmade⟩ := FileOp.makeDirectory_makes hm
  have hworld : v = (w.withDirectory (above ++ [x]) (FileOp.inheritedMode m)).say
    ⟨.info, .driver, "created " ++ p.buildDir.display⟩ := hv
  have hmissing : w.files.node? (above ++ [x]) = none := walk_fits hw
  have hkept : ∀ {follow q l n}, (w.files.put (above ++ [x])
      (.directory (FileOp.inheritedMode m))).lookup follow q = .ok (l, n) →
      v.files.lookup follow q = .ok (l, n) := by
    intro follow q l n hl
    rw [hworld]
    exact World.lookup_say _ hl
  have hnode : ∀ loc, v.files.node? loc = (w.files.put (above ++ [x])
      (.directory (FileOp.inheritedMode m))).node? loc := by
    intro loc
    rw [hworld, World.node?_say]
    rfl
  refine ⟨rfl, above, x, m, ?_⟩
  constructor
  case source => exact FileOp.isDirectory_iff.mp hdir
  case parent => exact hparent
  case last => exact FileOp.last_of_missing hw
  case missing => exact hmissing
  case before => exact FileOp.isThere_of_makeDirectory hm
  case world => exact hworld
  case leads => exact hkept hmade
  case elsewhere =>
    intro loc hloc
    rw [hnode, node?_put, if_neg hloc]
  case contents =>
    intro id hid
    rw [hworld]
    exact World.file?_say _ hid
  case unlogged =>
    intro hsink
    rw [hworld]
    exact World.files_say_unlogged _ hsink
  case empty =>
    intro hgrounded
    have hbelow : ∀ more, more ≠ [] → v.files.node? (above ++ [x] ++ more) = none := by
      intro more hmore
      rw [hnode]
      exact hgrounded.below_put hmissing hmore
    refine ⟨?_, hbelow, ?_⟩
    · rw [hworld]
      exact World.grounded_say _ (hgrounded.put hparent hmissing)
    · have hnames := names_eq_nil fun y => hbelow [y] (List.cons_ne_nil y [])
      rw [FileOp.run_list (hkept hmade) (FileOp.mayRead_inheritedMode _ m), hnames,
        List.mergeSort_nil]
  case again =>
    intro u hu hcwd
    obtain ⟨l, k, hs⟩ := FileOp.isDirectory_iff.mp hdir
    have hsource := lookup_extends hu hcwd (hkept (lookup_extends (extends_put hmissing) rfl hs))
    have hthere := lookup_extends hu hcwd (hkept (lookup_put hmissing (by simp) hw))
    exact run_enter_exists (FileOp.isDirectory_iff.mpr ⟨l, k, hsource⟩)
      (walk_ok (lookup_ok.mp hmade)).1 (lookup_ok.mp hthere)

/-- What entering the source tree comes to. -/
structure EntersOnce (p : BuildPlan) (w : World) : Prop where
  /-- If it fails then nothing has happened. -/
  fails e v : p.enter.run w = (.error e, v) → v = w ∧
    (e = .noSource p.sourceDir ∧
        e.message = "source directory " ++ p.sourceDir.display ++ " not found" ∨
      ∃ cause, e = .cannotCreate p.buildDir cause ∧
        e.message = "create build directory " ++ p.buildDir.display ++ ": " ++ cause.message)
  /-- The source tree is missed just when its path does not lead to a directory. -/
  sourceless : p.enter.run w = (.error (.noSource p.sourceDir), w) ↔
    ¬ ∃ l m, w.files.lookup true p.sourceDir = .ok (l, .directory m)
  made dir v : p.enter.run w = (.ok dir, v) →
    dir = p.sourceDir.join (.ofString p.config.buildDir) ∧ ∃ above x m, Makes p w v above x m

/-- **Entering the source tree is done once**: it fails and changes nothing, or it makes one empty
directory that was not there, and after that it fails. -/
theorem enter_once (p : BuildPlan) (w : World) : EntersOnce p w := by
  have hentered := entered p w
  constructor
  case fails =>
    intro e v h
    rw [h] at hentered
    cases hentered with
    | lost hno => exact ⟨rfl, .inl ⟨rfl, rfl⟩⟩
    | refused hdir hm => exact ⟨rfl, .inr ⟨_, rfl, rfl⟩⟩
  case sourceless =>
    rw [← FileOp.isDirectory_iff]
    generalize p.enter.run w = r at hentered ⊢
    cases hentered with
    | lost hno => simp [hno]
    | refused hdir hm =>
      refine iff_of_false (fun h => ?_) (by simp [hdir])
      cases (Prod.mk.inj h).1
    | made hdir hm =>
      refine iff_of_false (fun h => ?_) (by simp [hdir])
      cases (Prod.mk.inj h).1
  case made => exact fun dir v h => enter_makes h

/-- A source tree that is reached through a link, with a directory in it. -/
def linkedSource : World where
  files :=
    ((FileTree.empty.put [Path.ofString "llvm-project-"] (.link (Path.ofString "sources"))).put
      [Path.ofString "sources"] (.directory 0o755)).put
      [Path.ofString "sources", Path.ofString "sub"] (.directory 0o755)

lemma grounded_linkedSource : linkedSource.files.Grounded := by
  have hlink : (FileTree.empty.put ([] ++ [Path.ofString "llvm-project-"])
    (.link (Path.ofString "sources"))).Grounded := grounded_empty.put rfl rfl
  have hsources : ((FileTree.empty.put [Path.ofString "llvm-project-"]
      (.link (Path.ofString "sources"))).put ([] ++ [Path.ofString "sources"])
    (.directory 0o755)).Grounded := hlink.put rfl rfl
  show (FileTree.put _ ([Path.ofString "sources"] ++ [Path.ofString "sub"]) _).Grounded
  exact hsources.put rfl rfl

/-- A name of two parts below a link: the directory is made once. -/
theorem enter_once_linkedSource :
    ∃ v, (treePlan "sub/b/").enter.run linkedSource = (.ok (treePlan "sub/b/").buildDir, v) ∧
      (FileOp.list (treePlan "sub/b/").buildDir).run v.files = .ok ([], v.files) ∧
      (treePlan "sub/b/").enter.run v =
        (.error (.cannotCreate (treePlan "sub/b/").buildDir .exists), v) := by
  have hrun : ((treePlan "sub/b/").enter.run linkedSource).1 =
    .ok (treePlan "sub/b/").buildDir := rfl
  refine ⟨_, Prod.ext hrun rfl, ?_⟩
  obtain ⟨-, above, x, m, h⟩ := (enter_once (treePlan "sub/b/") linkedSource).made _ _
    (Prod.ext hrun rfl)
  obtain ⟨-, -, hempty⟩ := h.empty grounded_linkedSource
  exact ⟨hempty, h.again _ (.refl _) rfl⟩

end BuildPlan

end PinnedBuild
