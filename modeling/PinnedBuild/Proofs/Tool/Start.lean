import Mathlib
import PinnedBuild.Proofs.Action
import PinnedBuild.Tool.Spawn

/-!
What a tool is started as: the process that is prepared for it, in the directory that it is to run
in, and what becomes of that process.
-/

namespace PinnedBuild

open Files FileTree

variable {t u : FileTree} {searchPath : List Path} {s : ToolStep} {cwd : Path} {process : Process}

namespace Spawn

lemma enter_ok {place : Location} (h : enter t cwd = .ok place) :
    ∃ m, t.lookup true cwd = .ok (place, .directory m) ∧ t.user.maySearch m = true := by
  unfold enter at h
  rcases hl : t.lookup true cwd with e | ⟨l, m | p | i | d⟩ <;> rw [hl] at h
  · simp at h
  · simp only [Except.ok_bind] at h
    split_ifs at h with hm
    obtain rfl := Except.ok.inj h
    exact ⟨m, rfl, hm⟩
  all_goals simp at h

/-- A process runs in the directory that the path leads to and is given the arguments of the step.
Its program is found from there. -/
lemma prepare_ok (h : prepare t searchPath s cwd = .ok process) :
    enter t cwd = .ok process.cwd ∧ process.args = s.args ∧
      find { t with cwd := process.cwd } searchPath (.ofString s.program) =
        .ok (process.path, process.place, process.content) := by
  unfold prepare at h
  simp only at h
  split at h
  · cases h
  rcases he : enter t cwd with e | place <;> rw [he] at h
  · cases h
  simp only [Except.ok_bind] at h
  rcases hf : find { t with cwd := place } searchPath (.ofString s.program) with
    e | ⟨path, found, content⟩ <;> rw [hf] at h
  · cases h
  obtain rfl := Except.ok.inj h
  exact ⟨rfl, rfl, hf⟩

end Spawn

namespace ToolStep

variable {shop : Workshop} {ending : ToolEnd}

/-- A tool that is started is a process that was prepared for it, run to its end. -/
lemma start_ok (h : s.start shop cwd t = .ok (ending, u)) :
    ∃ process, Spawn.prepare t shop.searchPath s cwd = .ok process ∧
      shop.behaviour process t = .ok (ending, u) := by
  unfold start at h
  rcases hp : Spawn.prepare t shop.searchPath s cwd with e | process <;> rw [hp] at h
  · cases h
  refine ⟨process, rfl, ?_⟩
  simp only [Except.ok_bind] at h
  rcases hb : shop.behaviour process t with e | r <;> rw [hb] at h
  · cases h
  · exact congrArg _ (Except.ok.inj h)

end ToolStep

end PinnedBuild
