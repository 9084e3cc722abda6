import Mathlib
import PinnedBuild.Proofs.Action

/-!
Two runs side by side: from two states that are alike in some way, both come to the same and leave
states that are alike again.
-/

namespace PinnedBuild

variable {ε σ α β γ : Type} {R : σ → σ → Prop} {a b : ExceptT ε (StateM σ) α} {s t : σ}

/-- Both actions come to the same value or error, and their states stay in the relation. -/
def Twin (R : σ → σ → Prop) (a b : ExceptT ε (StateM σ) α) (s t : σ) : Prop :=
  (a.run s).1 = (b.run t).1 ∧ R (a.run s).2 (b.run t).2

lemma twin_pure (x : α) (h : R s t) : Twin R (pure x : ExceptT ε (StateM σ) α) (pure x) s t :=
  ⟨rfl, h⟩

lemma twin_throw (e : ε) (h : R s t) : Twin R (throw e : ExceptT ε (StateM σ) α) (throw e) s t :=
  ⟨rfl, h⟩

lemma twin_modify {f g : σ → σ} (h : R (f s) (g t)) :
    Twin R (modify f : ExceptT ε (StateM σ) Unit) (modify g) s t := ⟨rfl, h⟩

/-- Reading the state is where the two may part. -/
lemma twin_get_bind {f g : σ → ExceptT ε (StateM σ) β} (h : Twin R (f s) (g t) s t) :
    Twin R (get >>= f) (get >>= g) s t := h

lemma Twin.cases (h : Twin R a b s t) :
    (∃ x s' t', a.run s = (.ok x, s') ∧ b.run t = (.ok x, t') ∧ R s' t') ∨
      ∃ e s' t', a.run s = (.error e, s') ∧ b.run t = (.error e, t') ∧ R s' t' := by
  obtain ⟨hval, hR⟩ := h
  rcases ha : a.run s with ⟨e | x, s'⟩ <;> rw [ha] at hval hR
  · exact .inr ⟨e, s', (b.run t).2, rfl, Prod.ext hval.symm rfl, hR⟩
  · exact .inl ⟨x, s', (b.run t).2, rfl, Prod.ext hval.symm rfl, hR⟩

lemma Twin.bind {f g : α → ExceptT ε (StateM σ) β} (h : Twin R a b s t)
    (hf : ∀ x s t, R s t → Twin R (f x) (g x) s t) : Twin R (a >>= f) (b >>= g) s t := by
  unfold Twin
  rw [run_bind, run_bind]
  obtain ⟨x, s', t', ha, hb, hR⟩ | ⟨e, s', t', ha, hb, hR⟩ := h.cases <;> rw [ha, hb]
  · exact hf x s' t' hR
  · exact ⟨rfl, hR⟩

lemma Twin.tryCatch {f g : ε → ExceptT ε (StateM σ) α} (h : Twin R a b s t)
    (hf : ∀ e s t, R s t → Twin R (f e) (g e) s t) : Twin R (tryCatch a f) (tryCatch b g) s t := by
  unfold Twin
  rw [run_tryCatch, run_tryCatch]
  obtain ⟨x, s', t', ha, hb, hR⟩ | ⟨e, s', t', ha, hb, hR⟩ := h.cases <;> rw [ha, hb]
  · exact ⟨rfl, hR⟩
  · exact hf e s' t' hR

lemma twin_foldlM {f : β → γ → ExceptT ε (StateM σ) β}
    (hf : ∀ b c s t, R s t → Twin R (f b c) (f b c) s t) (l : List γ) (b : β) (h : R s t) :
    Twin R (l.foldlM f b) (l.foldlM f b) s t := by
  induction l generalizing b s t with
  | nil => exact twin_pure b h
  | cons c l ih =>
    rw [List.foldlM_cons]
    exact (hf b c s t h).bind fun b' _ _ h' => ih b' h'

lemma twin_forM {f : γ → ExceptT ε (StateM σ) PUnit}
    (hf : ∀ c s t, R s t → Twin R (f c) (f c) s t) (l : List γ) (h : R s t) :
    Twin R (l.forM f) (l.forM f) s t := by
  induction l generalizing s t with
  | nil => exact twin_pure _ h
  | cons c l ih => exact (hf c s t h).bind fun _ _ _ h' => ih h'

lemma twin_mapM {f : γ → ExceptT ε (StateM σ) β}
    (hf : ∀ c s t, R s t → Twin R (f c) (f c) s t) (l : List γ) (h : R s t) :
    Twin R (l.mapM f) (l.mapM f) s t := by
  induction l generalizing s t with
  | nil => exact twin_pure _ h
  | cons c l ih =>
    rw [List.mapM_cons]
    exact (hf c s t h).bind fun b _ _ h' => (ih h').bind fun bs _ _ h' => twin_pure _ h'

/-- Where one succeeds, so does the other. -/
lemma Twin.ok {x : α} {s' : σ} (h : Twin R a b s t) (ha : a.run s = (.ok x, s')) :
    ∃ t', b.run t = (.ok x, t') ∧ R s' t' := by
  unfold Twin at h
  rw [ha] at h
  exact ⟨(b.run t).2, Prod.ext h.1.symm rfl, h.2⟩

/-- An action beside itself: what the state has to be like is like that afterwards. -/
lemma Twin.after {P : σ → Prop} (h : Twin (fun s t => t = s ∧ P s) a a s s) :
    After a s (fun _ => P) (fun _ => P) := by
  obtain ⟨-, -, hP⟩ := h
  unfold After
  rcases ha : a.run s with ⟨e | x, s'⟩ <;> rw [ha] at hP <;> exact hP

end PinnedBuild
