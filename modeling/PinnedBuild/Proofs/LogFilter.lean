import Mathlib
import PinnedBuild.LogFilter

/-!
Which directive of a filter decides on a speaker, and what the standard filter keeps.
-/

namespace PinnedBuild.LogFilter

variable {f : LogFilter} {s : Speaker} {l l' : Level} {d : Directive}

/-- The directive is about the speaker. None in front of it has a longer target, and none behind it
one that is as long. -/
structure Decides (f : LogFilter) (s : Speaker) (d : Directive) : Prop where
  isAbout : d.isAbout s = true
  place : ∃ front back, f = front ++ d :: back ∧
    (∀ b ∈ front, b.isAbout s = true → b.weight ≤ d.weight) ∧
    ∀ b ∈ back, b.isAbout s = true → b.weight < d.weight

lemma deciding?_snoc (f : LogFilter) (d : Directive) (s : Speaker) :
    (f ++ [d]).deciding? s =
      if d.isAbout s then
        if (f.deciding? s).any fun b => d.weight < b.weight then f.deciding? s else some d
      else f.deciding? s := by
  unfold deciding?
  rw [List.filter_append, List.foldl_append, List.filter_singleton]
  by_cases h : d.isAbout s = true
  · rw [if_pos h, h]
    rfl
  · rw [if_neg h, Bool.eq_false_of_not_eq_true h]
    rfl

lemma Decides.snoc_of_not (h : f.Decides s d) {b : Directive}
    (hb : b.isAbout s = true → b.weight < d.weight) : LogFilter.Decides (f ++ [b]) s d := by
  obtain ⟨front, back, rfl, hfront, hback⟩ := h.place
  refine ⟨h.isAbout, front, back ++ [b], by simp, hfront, fun x hx => ?_⟩
  rcases List.mem_append.mp hx with hx | hx
  · exact hback x hx
  · obtain rfl := List.mem_singleton.mp hx
    exact hb

/-- Without a directive that decides there is none about the speaker. -/
lemma isAbout_of_none (h : f.deciding? s = none) : ∀ b ∈ f, b.isAbout s = false := by
  induction f using List.reverseRecOn with
  | nil => simp
  | append_singleton f d ih =>
    rw [deciding?_snoc] at h
    by_cases hd : d.isAbout s = true
    · rw [if_pos hd] at h
      split at h
      · rename_i hany
        rw [h] at hany
        simp at hany
      · cases h
    · rw [if_neg hd] at h
      intro b hb
      rcases List.mem_append.mp hb with hb | hb
      · exact ih h b hb
      · obtain rfl := List.mem_singleton.mp hb
        simpa using hd

/-- The longest target decides, and of several such the last. -/
theorem decides_of_deciding? (h : f.deciding? s = some d) : f.Decides s d := by
  induction f using List.reverseRecOn generalizing d with
  | nil => cases h
  | append_singleton f b ih =>
    rw [deciding?_snoc] at h
    by_cases hb : b.isAbout s = true
    · rw [if_pos hb] at h
      split at h
      · rename_i hany
        rw [h] at hany
        exact (ih h).snoc_of_not fun _ => by simpa using hany
      · rename_i hany
        obtain rfl := Option.some.inj h
        refine ⟨hb, f, [], rfl, fun x hx hs => ?_, by simp⟩
        rcases hf : LogFilter.deciding? f s with _ | e
        · rw [isAbout_of_none hf x hx] at hs
          cases hs
        · -- what decided before has a target that is at least as long as that of any other
          rw [hf] at hany
          have hle : e.weight ≤ b.weight := by simpa using hany
          obtain ⟨front, back, rfl, hfront, hback⟩ := (ih hf).place
          rcases List.mem_append.mp hx with hx | hx
          · exact (hfront x hx hs).trans hle
          · rcases List.mem_cons.mp hx with rfl | hx
            · exact hle
            · exact (hback x hx hs).le.trans hle
    · rw [if_neg hb] at h
      exact (ih h).snoc_of_not fun hs => absurd hs hb

/-- Where a filter keeps what is said at a level, it keeps what is more urgent. -/
theorem admits_of_rank_le (h : f.admits s l = true) (hl : l'.rank ≤ l.rank) :
    f.admits s l' = true := by
  unfold admits at h ⊢
  rcases hd : f.deciding? s with _ | d <;> rw [hd] at h
  · cases h
  · have hrank : l.rank ≤ d.rank := by simpa using h
    simpa using hl.trans hrank

/-- The standard filter keeps all lines. -/
@[simp] lemma standard_keeps (line : LogLine) : standard.keeps line = true := by
  obtain ⟨level, speaker, text⟩ := line
  show standard.admits speaker level = true
  cases speaker <;> cases level <;> decide

example : read? "info,llvm_prep_core=debug" = some standard := by decide

/-- What one part of the program says may be kept and what another says dropped. -/
example : (read? "llvm_prep_core=debug").map (fun f => (f.admits .driver .warn,
    f.admits .buildCommand .warn)) = some (true, false) := by decide

end PinnedBuild.LogFilter
