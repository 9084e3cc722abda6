import Mathlib
import PinnedBuild.Build.Tools
import PinnedBuild.Proofs.World

/-!
Entering the source tree, and the tools at their turns: each is run once, in the world that the one
before it left, and only one that cannot be started keeps the others from running.
-/

namespace PinnedBuild

open Files FileTree

/-- What is put on record of a tool that ended. -/
def ToolEnd.status : ToolEnd → StageStatus
  | .exited code => if code = 0 then .ok else .exited (some code.toNat)
  | .killed _ => .exited none

/-- A tool that was run: its stage, the step as it was started, and how it ended. -/
structure ToolTurn where
  stage : Stage
  step : ToolStep
  ending : ToolEnd

namespace ToolTurn

def record (r : ToolTurn) : StageRecord := ⟨r.stage, r.ending.status⟩

def launch (buildDir : Path) (r : ToolTurn) : Launch := ⟨r.step.program, r.step.args, buildDir⟩

end ToolTurn

namespace BuildPlan

variable (shop : Workshop) (toolDir : Option Path) (buildDir : Path)

/-- A step as it is started: from the tool directory if its tool is there. -/
def atHand (w : World) (s : ToolStep) : ToolStep :=
  match toolDir with
  | some dir => s.searchAt w.files dir
  | none => s

/-- A world in which a step is announced. -/
def announced (s : ToolStep) (w : World) : World :=
  w.say ⟨.info, .toolchain, "running `" ++ s.display ++ "` in " ++ buildDir.display⟩

/-- Starting a step at its turn. -/
def startOf (w : World) (s : ToolStep) : Except SpawnError (ToolEnd × FileTree) :=
  (atHand toolDir w s).start shop buildDir (announced buildDir (atHand toolDir w s) w).files

/-- A world after a tool: the files are as it leaves them, and a bad end is told. -/
def left (r : ToolTurn) (files : FileTree) (w : World) : World :=
  let v :=
    { (announced buildDir r.step w).emit (.launched (r.launch buildDir)) with files := files }
  if r.ending.isSuccess then v
  else v.say ⟨.warn, .driver, r.stage.name ++ " step `" ++ r.step.display ++ "` exited with " ++
    r.ending.display⟩

/-- Tools that are run one after the other, each to its end. -/
inductive Worked : World → List (Stage × ToolStep) → List ToolTurn → World → Prop
  | none (w : World) : Worked w [] [] w
  | tool {w v : World} {stage : Stage} {s : ToolStep} {steps : List (Stage × ToolStep)}
      {turns : List ToolTurn} {ending : ToolEnd} {files : FileTree}
      (start : startOf shop toolDir buildDir w s = .ok (ending, files))
      (rest : Worked (left buildDir ⟨stage, atHand toolDir w s, ending⟩ files w) steps turns v) :
      Worked w ((stage, s) :: steps) (⟨stage, atHand toolDir w s, ending⟩ :: turns) v

variable {shop toolDir buildDir} {w v : World} {steps : List (Stage × ToolStep)}
  {turns : List ToolTurn} {stage : Stage} {s : ToolStep} {ε : Type}

lemma run_located (w : World) (s : ToolStep) :
    (located toolDir s).run w = (.ok (atHand toolDir w s), w) := by
  unfold located atHand
  rcases toolDir with _ | dir <;> rfl

lemma run_runIn (w : World) (s : ToolStep) :
    (s.runIn shop buildDir).run w =
      match s.start shop buildDir (announced buildDir s w).files with
      | .ok (ending, files) =>
        (.ok ending, { (announced buildDir s w).emit
          (.launched ⟨s.program, s.args, buildDir⟩) with files := files })
      | .error e => (.error ⟨s.display, e⟩, announced buildDir s w) := by
  unfold ToolStep.runIn announced
  simp only [run_bind, Act.run_say, Act.run_get]
  generalize w.say ⟨.info, .toolchain, "running `" ++ s.display ++ "` in " ++ buildDir.display⟩ = v
  rcases s.start shop buildDir v.files with e | ⟨ending, files⟩
  · rfl
  · simp only [run_bind, Act.run_emit, Act.run_modify, Act.run_pure]

lemma status_eq (ending : ToolEnd) :
    ending.status = if ending.isSuccess then .ok else .exited ending.code? := by
  rcases ending with code | signal
  · by_cases h : code = 0
    · simp [ToolEnd.status, ToolEnd.isSuccess, h]
    · simp [ToolEnd.status, ToolEnd.isSuccess, ToolEnd.code?, h]
  · rfl

/-- One turn of a tool. -/
lemma run_runTool (w : World) (stage : Stage) (s : ToolStep) :
    (runTool shop toolDir buildDir (stage, s)).run w =
      match startOf shop toolDir buildDir w s with
      | .ok (ending, files) =>
        (.ok ⟨stage, ending.status⟩, left buildDir ⟨stage, atHand toolDir w s, ending⟩ files w)
      | .error e =>
        (.error ⟨(atHand toolDir w s).display, e⟩,
          announced buildDir (atHand toolDir w s) w) := by
  unfold runTool startOf
  simp only [run_bind, run_located, run_runIn]
  rcases (atHand toolDir w s).start shop buildDir
    (announced buildDir (atHand toolDir w s) w).files with e | ⟨ending, files⟩
  · rfl
  · simp only [status_eq, left, ToolTurn.launch]
    split
    · rfl
    · simp only [run_bind, Act.run_say, Act.run_pure]

/-! ### All turns -/

/-- Tools that can all be started come to their ends. -/
lemma Worked.run (h : Worked shop toolDir buildDir w steps turns v) :
    (steps.mapM (runTool shop toolDir buildDir)).run w = (.ok (turns.map ToolTurn.record), v) := by
  induction h with
  | none w => rfl
  | tool start rest ih =>
    rw [List.mapM_cons, run_bind, run_runTool, start]
    simp only
    rw [run_bind, ih]
    rfl

/-- Tools that can be started as long as something holds all come to their ends if each keeps it. -/
lemma exists_worked {P : World → Prop} (h : P w)
    (hstep : ∀ step ∈ steps, ∀ w, P w → ∃ ending files,
      startOf shop toolDir buildDir w step.2 = .ok (ending, files) ∧
        P (left buildDir ⟨step.1, atHand toolDir w step.2, ending⟩ files w)) :
    ∃ turns v, Worked shop toolDir buildDir w steps turns v := by
  induction steps generalizing w with
  | nil => exact ⟨[], w, .none w⟩
  | cons step steps ih =>
    obtain ⟨ending, files, hstart, hleft⟩ := hstep step (by simp) w h
    obtain ⟨turns, v, hw⟩ := ih hleft fun step hs => hstep step (List.mem_cons_of_mem _ hs)
    exact ⟨_, v, .tool hstart hw⟩

/-- One that cannot be started ends the run there. -/
lemma Worked.run_stuck (h : Worked shop toolDir buildDir w steps turns v) {e : SpawnError}
    (he : startOf shop toolDir buildDir v s = .error e) (rest : List (Stage × ToolStep)) :
    ((steps ++ (stage, s) :: rest).mapM (runTool shop toolDir buildDir)).run w =
      (.error ⟨(atHand toolDir v s).display, e⟩, announced buildDir (atHand toolDir v s) v) := by
  induction h with
  | none w =>
    rw [List.nil_append, List.mapM_cons, run_bind, run_runTool, he]
  | tool start _ ih =>
    rw [List.cons_append, List.mapM_cons, run_bind, run_runTool, start]
    simp only
    rw [run_bind, ih he]

/-- Either all come to their ends or there is a first that cannot be started. -/
lemma worked_or_stuck (shop : Workshop) (toolDir : Option Path) (buildDir : Path)
    (steps : List (Stage × ToolStep)) (w : World) :
    (∃ turns v, Worked shop toolDir buildDir w steps turns v) ∨
      ∃ before stage s after turns v e, steps = before ++ (stage, s) :: after ∧
        Worked shop toolDir buildDir w before turns v ∧
        startOf shop toolDir buildDir v s = .error e := by
  induction steps generalizing w with
  | nil => exact .inl ⟨[], w, .none w⟩
  | cons step steps ih =>
    obtain ⟨stage, s⟩ := step
    rcases hs : startOf shop toolDir buildDir w s with e | ⟨ending, files⟩
    · exact .inr ⟨[], stage, s, steps, [], w, e, rfl, .none w, hs⟩
    · rcases ih (left buildDir ⟨stage, atHand toolDir w s, ending⟩ files w) with
        ⟨turns, v, h⟩ | ⟨before, stage', s', after, turns, v, e, rfl, h, he⟩
      · exact .inl ⟨_, v, .tool hs h⟩
      · exact .inr ⟨_ :: before, stage', s', after, _, v, e, rfl, .tool hs h, he⟩

lemma Worked.stages (h : Worked shop toolDir buildDir w steps turns v) :
    turns.map ToolTurn.stage = steps.map Prod.fst := by
  induction h with
  | none w => rfl
  | tool _ _ ih => simp [ih]

lemma shown_announced (buildDir : Path) (s : ToolStep) (w : World) :
    w.Shown (announced buildDir s w) [] [] :=
  World.shown_say w _

lemma shown_left (r : ToolTurn) (files : FileTree) (w : World) :
    w.Shown (left buildDir r files w) [r.launch buildDir] [] := by
  have hrun := ((shown_announced buildDir r.step w).trans
    (World.shown_launched _ (r.launch buildDir))).trans
    (World.Shown.of_events_eq (v := { (announced buildDir r.step w).emit
      (.launched (r.launch buildDir)) with files := files }) rfl)
  unfold left
  split
  · exact hrun
  · exact hrun.trans (World.shown_say _ _)

/-- What is seen of tools is that each is started once. -/
lemma Worked.shown (h : Worked shop toolDir buildDir w steps turns v) :
    w.Shown v (turns.map (ToolTurn.launch buildDir)) [] := by
  induction h with
  | none w => exact .refl w
  | tool _ _ ih => exact (shown_left _ _ _).trans ih

/-! ### Entering -/

/-- What entering can come to: there is no source tree, or the build directory cannot be made, or it
is made. -/
inductive Entered (p : BuildPlan) (w : World) : Except EnterError Path × World → Prop
  | lost (hno : w.files.isDirectory p.sourceDir = false) :
    Entered p w (.error (.noSource p.sourceDir), w)
  | refused {cause : FileError} (hdir : w.files.isDirectory p.sourceDir = true)
    (hm : (FileOp.makeDirectory p.buildDir).run w.files = .error cause) :
    Entered p w (.error (.cannotCreate p.buildDir cause), w)
  | made {t : FileTree} (hdir : w.files.isDirectory p.sourceDir = true)
    (hm : (FileOp.makeDirectory p.buildDir).run w.files = .ok ((), t)) :
    Entered p w (.ok p.buildDir,
      ({ w with files := t } : World).say ⟨.info, .driver, "created " ++ p.buildDir.display⟩)

lemma entered (p : BuildPlan) (w : World) : Entered p w (p.enter.run w) := by
  unfold enter
  simp only [run_bind, Act.run_get]
  split
  · rename_i hdir
    simp only [run_bind, Act.run_op]
    rcases hm : (FileOp.makeDirectory p.buildDir).run w.files with e | ⟨y, t⟩
    · exact .refused hdir hm
    · exact .made hdir hm
  · rename_i hdir
    exact .lost (by simpa using hdir)

/-- Entering fails and changes nothing, or makes the build directory. -/
lemma run_enter (p : BuildPlan) (w : World) :
    (∃ e, p.enter.run w = (.error e, w)) ∨
      ∃ l m, w.files.node? l = none ∧
        p.enter.run w = (.ok p.buildDir, ({ w with files := w.files.put l (.directory m) }).say
          ⟨.info, .driver, "created " ++ p.buildDir.display⟩) ∧
        (w.files.put l (.directory m)).lookup true p.buildDir = .ok (l, .directory m) := by
  have h := entered p w
  generalize p.enter.run w = r at h ⊢
  cases h with
  | lost hno => exact .inl ⟨_, rfl⟩
  | refused hdir hm => exact .inl ⟨_, rfl⟩
  | made hdir hm =>
    obtain ⟨l, m, hl, rfl, hd⟩ := FileOp.makeDirectory_created hm
    exact .inr ⟨l, m, hl, rfl, hd⟩

end BuildPlan

end PinnedBuild
