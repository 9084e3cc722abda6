import Mathlib
import PinnedBuild.Proofs.Build.Tools
import PinnedBuild.Proofs.Tool.Start

/-!
The tools of a build at their turns. Each is a process in the build directory with the arguments of
its step. All of them are run whatever becomes of those before, unless there is one that cannot be
started: the error names the first such, and it is the last that is tried.
-/

namespace PinnedBuild

open Files FileTree

/-- The second step is the first, perhaps with its program taken from the tool directory. -/
def ToolStep.IsCalledAs (toolDir : Option Path) (s r : ToolStep) : Prop :=
  r.args = s.args ∧ (r.program = s.program ∨
    ∃ dir, toolDir = some dir ∧ r.program = (dir.join (.ofString s.program)).display)

/-- The tool of a turn was a process in the build directory that ended so. -/
def ToolTurn.RanIn (shop : Workshop) (buildDir : Path) (r : ToolTurn) : Prop :=
  ∃ process t u m, t.lookup true buildDir = .ok (process.cwd, .directory m) ∧
    process.args = r.step.args ∧ shop.behaviour process t = .ok (r.ending, u)

namespace BuildPlan

variable {shop : Workshop} {c : Config} {toolDir : Option Path} {buildDir : Path} {w v : World}
  {steps : List (Stage × ToolStep)} {turns : List ToolTurn}

lemma isCalledAs_atHand (toolDir : Option Path) (w : World) (s : ToolStep) :
    s.IsCalledAs toolDir (atHand toolDir w s) := by
  rcases toolDir with _ | dir
  · exact ⟨rfl, .inl rfl⟩
  · unfold atHand ToolStep.searchAt
    simp only
    split
    · exact ⟨rfl, .inr ⟨dir, rfl, rfl⟩⟩
    · exact ⟨rfl, .inl rfl⟩

/-- Turns belong to the steps one by one. -/
lemma Worked.called (h : Worked shop toolDir buildDir w steps turns v) :
    List.Forall₂ (fun step r => r.stage = step.1 ∧ step.2.IsCalledAs toolDir r.step)
      steps turns := by
  induction h with
  | none w => exact .nil
  | tool _ _ ih => exact .cons ⟨rfl, isCalledAs_atHand _ _ _⟩ ih

lemma Worked.ran (h : Worked shop toolDir buildDir w steps turns v) :
    ∀ r ∈ turns, r.RanIn shop buildDir := by
  induction h with
  | none w => simp
  | tool start _ ih =>
    rintro r (_ | ⟨_, hr⟩)
    · obtain ⟨process, hp, hb⟩ := ToolStep.start_ok start
      obtain ⟨he, hargs, -⟩ := Spawn.prepare_ok hp
      obtain ⟨m, hl, -⟩ := Spawn.enter_ok he
      exact ⟨process, _, _, m, hl, hargs, hb⟩
    · exact ih r hr

/-- What is put on record of a tool that ended. -/
structure Tells (status : StageStatus) (ending : ToolEnd) : Prop where
  ok : status = .ok ↔ ending = .exited 0
  exited n : status = .exited (some n) ↔ ∃ code, code ≠ 0 ∧ ending = .exited code ∧ n = code.toNat
  killed : status = .exited none ↔ ∃ signal, ending = .killed signal
  result m : status ≠ .failed m

lemma tells_status (ending : ToolEnd) : Tells ending.status ending := by
  rcases ending with code | signal
  · unfold ToolEnd.status
    by_cases h : code = 0
    · constructor <;> simp [h]
    · constructor <;> simp [h, eq_comm]
  · constructor <;> simp [ToolEnd.status]

/-- Either all tools came to their ends, one after the other, or there was a first that could not be
started. -/
inductive Tour (shop : Workshop) (c : Config) (toolDir : Option Path) (buildDir : Path)
    (w : World) :
    List ToolTurn → Except ToolStep.RunError (List StageRecord) × World → Prop
  | finished {turns : List ToolTurn} {v : World}
      (worked : Worked shop toolDir buildDir w (toolSteps c) turns v) :
      Tour shop c toolDir buildDir w turns (.ok (turns.map ToolTurn.record), v)
  | stuck {before after : List (Stage × ToolStep)} {stage : Stage} {s : ToolStep}
      {turns : List ToolTurn} {v : World} {e : SpawnError}
      (steps : toolSteps c = before ++ (stage, s) :: after)
      (worked : Worked shop toolDir buildDir w before turns v)
      (start : startOf shop toolDir buildDir v s = .error e) :
      Tour shop c toolDir buildDir w turns
        (.error ⟨(atHand toolDir v s).display, e⟩, announced buildDir (atHand toolDir v s) v)

/-- Every run of the tools takes one of the two ways. -/
lemma exists_tour (shop : Workshop) (c : Config) (toolDir : Option Path) (buildDir : Path)
    (w : World) :
    ∃ turns, Tour shop c toolDir buildDir w turns ((runTools shop c toolDir buildDir).run w) := by
  unfold runTools
  rcases worked_or_stuck shop toolDir buildDir (toolSteps c) w with
    ⟨turns, v, h⟩ | ⟨before, stage, s, after, turns, v, e, hs, h, he⟩
  · refine ⟨turns, ?_⟩
    rw [h.run]
    exact .finished h
  · refine ⟨turns, ?_⟩
    rw [hs, h.run_stuck he]
    exact .stuck hs h he

variable {out : Except ToolStep.RunError (List StageRecord) × World}

lemma Tour.called (h : Tour shop c toolDir buildDir w turns out) :
    List.Forall₂ (fun step r => r.stage = step.1 ∧ step.2.IsCalledAs toolDir r.step)
      ((toolSteps c).take turns.length) turns := by
  cases h with
  | finished worked =>
    rw [← worked.called.length_eq, List.take_length]
    exact worked.called
  | stuck steps worked _ =>
    rw [steps, ← worked.called.length_eq, List.take_left]
    exact worked.called

lemma Tour.ran (h : Tour shop c toolDir buildDir w turns out) :
    ∀ r ∈ turns, r.RanIn shop buildDir := by
  cases h with
  | finished worked => exact worked.ran
  | stuck _ worked _ => exact worked.ran

/-- The tool that cannot be started is not seen to start. -/
lemma Tour.launched (h : Tour shop c toolDir buildDir w turns out) :
    w.Shown out.2 (turns.map (ToolTurn.launch buildDir)) [] := by
  cases h with
  | finished worked => exact worked.shown
  | stuck _ worked _ => simpa using worked.shown.trans (shown_announced _ _ _)

/-- What holds of a run of the tools, with those that came to their ends on it. -/
structure InTurn (shop : Workshop) (c : Config) (toolDir : Option Path) (buildDir : Path)
    (w : World)
    (turns : List ToolTurn) (out : Except ToolStep.RunError (List StageRecord) × World) : Prop where
  tour : Tour shop c toolDir buildDir w turns out
  /-- It succeeds just if each tool can be started at its turn. -/
  returns : (∃ records, out.1 = .ok records) ↔
    ∃ turns v, Worked shop toolDir buildDir w (toolSteps c) turns v
  /-- It fails just if one cannot, and then names the first such. -/
  fails e : out.1 = .error e ↔ ∃ before stage s after turns v cause,
    toolSteps c = before ++ (stage, s) :: after ∧ Worked shop toolDir buildDir w before turns v ∧
      startOf shop toolDir buildDir v s = .error cause ∧ e = ⟨(atHand toolDir v s).display, cause⟩
  records rs : out.1 = .ok rs → rs = turns.map ToolTurn.record ∧
    rs.map StageRecord.stage = [.configure, .build, .install]
  statuses : ∀ r ∈ turns, Tells r.record.status r.ending
  /-- The tools that were run are those of the first steps, in their order. -/
  called : List.Forall₂ (fun step r => r.stage = step.1 ∧ step.2.IsCalledAs toolDir r.step)
    ((toolSteps c).take turns.length) turns
  ran : ∀ r ∈ turns, r.RanIn shop buildDir
  /-- Each of them was started once, and no other was. -/
  launched : w.Shown out.2 (turns.map (ToolTurn.launch buildDir)) []

/-- **The tools at their turns**: they are run in order, each once and in the build directory, and
only one that cannot be started keeps the others from running. -/
theorem runTools_inTurn (shop : Workshop) (c : Config) (toolDir : Option Path) (buildDir : Path)
    (w : World) :
    ∃ turns, InTurn shop c toolDir buildDir w turns ((runTools shop c toolDir buildDir).run w) := by
  obtain ⟨turns, h⟩ := exists_tour shop c toolDir buildDir w
  refine ⟨turns, ?_⟩
  constructor
  case tour => exact h
  case returns =>
    constructor
    · rintro ⟨records, hr⟩
      generalize (runTools shop c toolDir buildDir).run w = out at h hr
      cases h with
      | finished worked => exact ⟨turns, _, worked⟩
      | stuck _ _ _ => cases hr
    · rintro ⟨turns, v, hw⟩
      exact ⟨turns.map ToolTurn.record, by rw [runTools, hw.run]⟩
  case fails =>
    intro e
    constructor
    · intro he
      generalize (runTools shop c toolDir buildDir).run w = out at h he
      cases h with
      | finished _ => cases he
      | stuck steps worked start =>
        exact ⟨_, _, _, _, turns, _, _, steps, worked, start, (Except.error.inj he).symm⟩
    · rintro ⟨before, stage, s, after, turns, v, cause, hs, hw, hc, rfl⟩
      rw [runTools, hs, hw.run_stuck hc]
  case records =>
    intro rs hr
    generalize (runTools shop c toolDir buildDir).run w = out at h hr
    cases h with
    | finished worked =>
      obtain rfl := Except.ok.inj hr
      refine ⟨rfl, ?_⟩
      rw [List.map_map, show StageRecord.stage ∘ ToolTurn.record = ToolTurn.stage from rfl,
        worked.stages]
      rfl
    | stuck _ _ _ => cases hr
  case statuses => exact fun r _ => tells_status r.ending
  case called => exact h.called
  case ran => exact h.ran
  case launched => exact h.launched

end BuildPlan

end PinnedBuild
