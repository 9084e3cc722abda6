import Mathlib
import PinnedBuild.Proofs.LogIndependence
import PinnedBuild.Tool.Spawn

/-!
Starting a tool reads nothing of the log, unless the tool is started from it. Tools that do not ask
for what the log holds do the same whatever it is.
-/

namespace PinnedBuild

open Files FileTree

variable {s : Sink} {t u : FileTree} {w v : World} {front back : List Event}

/-- What is found at a place is the same in both trees, unless the log stands there. -/
def Sink.Hides (s : Sink) (t : FileTree) (place : Location) (content content' : Bytes) : Prop :=
  content' = content ∨ ∃ id, s = .file id ∧ t.node? place = some (.file id)

namespace Spawn

lemma runnable_alike (h : s.Alike t u) (p : Path) :
    (∃ e, runnable t p = .error e ∧ runnable u p = .error e) ∨
      ∃ place content content', runnable t p = .ok (place, content) ∧
        runnable u p = .ok (place, content') ∧ s.Hides t place content content' := by
  unfold runnable
  rw [h.lookup]
  rcases hl : t.lookup true p with e | ⟨place, m | q | id | d⟩
  · exact .inl ⟨e, rfl, rfl⟩
  · exact .inl ⟨_, rfl, rfl⟩
  · exact .inl ⟨_, rfl, rfl⟩
  · simp only [Except.ok_bind]
    rcases h.file?_cases id with ⟨hf, hf'⟩ | ⟨f, f', hf, hf', hmode⟩ <;> rw [hf, hf']
    · exact .inl ⟨_, rfl, rfl⟩
    · simp only [hmode, h.user]
      split
      · refine .inr ⟨place, f.content, f'.content, rfl, rfl, ?_⟩
        by_cases hs : s = .file id
        · exact .inr ⟨id, hs, lookup_node hl⟩
        · have ho := h.others id hs
          rw [hf, hf'] at ho
          exact .inl (congrArg File.content (Option.some.inj ho))
      · exact .inl ⟨_, rfl, rfl⟩
  · exact .inl ⟨_, rfl, rfl⟩

lemma search_alike (h : s.Alike t u) (name : Path) (denied : Bool) (dirs : List Path) :
    (∃ e, search t name denied dirs = .error e ∧ search u name denied dirs = .error e) ∨
      ∃ path place content content', search t name denied dirs = .ok (path, place, content) ∧
        search u name denied dirs = .ok (path, place, content') ∧
        s.Hides t place content content' := by
  induction dirs generalizing denied with
  | nil => exact .inl ⟨_, rfl, rfl⟩
  | cons dir dirs ih =>
    unfold search
    rcases runnable_alike h (dir.join name) with ⟨e, ht, hu⟩ | ⟨place, c, c', ht, hu, hc⟩ <;>
      rw [ht, hu]
    · rcases e
      all_goals first | exact ih _ | exact .inl ⟨_, rfl, rfl⟩
    · exact .inr ⟨_, place, c, c', rfl, rfl, hc⟩

lemma find_alike (h : s.Alike t u) (searchPath : List Path) (program : Path) :
    (∃ e, find t searchPath program = .error e ∧ find u searchPath program = .error e) ∨
      ∃ path place content content', find t searchPath program = .ok (path, place, content) ∧
        find u searchPath program = .ok (path, place, content') ∧
        s.Hides t place content content' := by
  unfold find
  split
  · exact .inl ⟨_, rfl, rfl⟩
  · split
    · rcases runnable_alike h program with ⟨e, ht, hu⟩ | ⟨place, c, c', ht, hu, hc⟩ <;> rw [ht, hu]
      · exact .inl ⟨e, rfl, rfl⟩
      · exact .inr ⟨program, place, c, c', rfl, rfl, hc⟩
    · exact search_alike h program false searchPath

lemma enter_alike (h : s.Alike t u) (cwd : Path) : enter u cwd = enter t cwd := by
  unfold enter
  rw [h.lookup, h.user]

lemma prepare_alike (h : s.Alike t u) (searchPath : List Path) (step : ToolStep) (cwd : Path) :
    (∃ e, prepare t searchPath step cwd = .error e ∧ prepare u searchPath step cwd = .error e) ∨
      ∃ process content', prepare t searchPath step cwd = .ok process ∧
        prepare u searchPath step cwd = .ok { process with content := content' } ∧
        s.Hides t process.place process.content content' := by
  unfold prepare
  simp only [enter_alike h]
  split
  · exact .inl ⟨_, rfl, rfl⟩
  · rcases enter t cwd with e | place
    · exact .inl ⟨_, rfl, rfl⟩
    · simp only [Except.ok_bind]
      rcases find_alike (h.cd place) searchPath (Path.ofString step.program) with
        ⟨e, ht, hu⟩ | ⟨path, found, c, c', ht, hu, hc⟩ <;> rw [ht, hu]
      · exact .inl ⟨_, rfl, rfl⟩
      · exact .inr ⟨⟨found, path, c, step.args, place⟩, c', rfl, rfl, hc⟩

/-- Where no name or argument holds a zero byte, a tool that is found is prepared. -/
lemma prepare_found {searchPath : List Path} {step : ToolStep} {cwd path : Path}
    {place found : Location} {content : Bytes}
    (hprogram : (Path.ofString step.program).contains 0 = false)
    (hargs : step.args.any (fun a => a.contains '\x00') = false) (hcwd : cwd.contains 0 = false)
    (henter : enter t cwd = .ok place)
    (hfind : find { t with cwd := place } searchPath (Path.ofString step.program) =
      .ok (path, found, content)) :
    prepare t searchPath step cwd = .ok ⟨found, path, content, step.args, place⟩ := by
  unfold prepare
  simp only [hprogram, hargs, hcwd, henter, hfind, Bool.or_false, Bool.false_eq_true, if_false,
    Except.ok_bind]
  rfl

end Spawn

/-- The tools do the same whatever the log holds, if it is a file, also one that is started from
it. -/
def Workshop.Ignores (shop : Workshop) (s : Sink) : Prop :=
  ∀ id, s = .file id → ∀ (process : Process) (content : Bytes) (t u : FileTree),
    s.Alike t u → s.Hides t process.place process.content content →
      FileOp.Match s.Alike (shop.behaviour process t)
        (shop.behaviour { process with content := content } u)

namespace ToolStep

variable {shop : Workshop}

lemma start_alike (hshop : shop.Ignores s) (h : s.Alike t u) (step : ToolStep) (cwd : Path) :
    FileOp.Match s.Alike (step.start shop cwd t) (step.start shop cwd u) := by
  by_cases hs : ∃ id, s = .file id
  · obtain ⟨id, hid⟩ := hs
    unfold start
    rcases Spawn.prepare_alike h shop.searchPath step cwd with
      ⟨e, ht, hu⟩ | ⟨process, c', ht, hu, hc⟩ <;> rw [ht, hu]
    · exact .error
    · exact (hshop id hid process c' t u h hc).mapError SpawnError.file
  · -- no file is the log, so that the trees are the same
    obtain rfl := h.eq fun id hid => hs ⟨id, hid⟩
    rcases step.start shop cwd u with e | ⟨ending, files⟩
    · exact .error
    · exact .ok (.refl s files)

lemma beside_runIn (hshop : shop.Ignores s) (h : World.Beside s front back w v) (step : ToolStep)
    (cwd : Path) :
    Twin (World.Beside s front back) (step.runIn shop cwd) (step.runIn shop cwd) w v := by
  refine (Act.twin_say (World.lifts_beside s front back) h _ _ _).bind fun _ w v h => ?_
  refine twin_get_bind ?_
  have hstart := start_alike hshop h.files step cwd
  generalize step.start shop cwd w.files = r at hstart
  generalize step.start shop cwd v.files = q at hstart
  rcases hstart with ⟨ht⟩ | _
  · refine (twin_modify (h.emit _)).bind fun _ w v h => ?_
    exact (twin_modify (h.exchange ht)).bind fun _ _ _ h => twin_pure _ h
  · exact twin_throw _ h

end ToolStep

end PinnedBuild
