import Mathlib

/-!
What an action that may fail leaves behind, told by what has to hold after success and after
failure. An action that fails keeps what it has done, so both speak of a state.
-/

namespace PinnedBuild

variable {ε δ σ α β : Type}

@[simp] lemma Except.ok_bind (x : α) (f : α → Except ε β) : (Except.ok x >>= f) = f x := rfl

@[simp] lemma Except.error_bind (e : ε) (f : α → Except ε β) :
    (Except.error e >>= f) = Except.error e := rfl

@[simp] lemma Except.bind_ok (x : α) (f : α → Except ε β) : (Except.ok x).bind f = f x := rfl

@[simp] lemma Except.bind_error (e : ε) (f : α → Except ε β) :
    (Except.error e).bind f = Except.error e := rfl

lemma run_bind (a : ExceptT ε (StateM σ) α) (f : α → ExceptT ε (StateM σ) β) (s : σ) :
    (a >>= f).run s = match a.run s with
      | (.ok x, s') => (f x).run s'
      | (.error e, s') => (.error e, s') := by
  unfold ExceptT.run
  simp only [bind, ExceptT.bind, ExceptT.mk, StateT.bind, ExceptT.bindCont]
  rcases a s with ⟨e | x, s'⟩ <;> rfl

lemma run_tryCatch (a : ExceptT ε (StateM σ) α) (f : ε → ExceptT ε (StateM σ) α) (s : σ) :
    (tryCatch a f).run s = match a.run s with
      | (.ok x, s') => (.ok x, s')
      | (.error e, s') => (f e).run s' := by
  unfold ExceptT.run
  simp only [tryCatch, tryCatchThe, MonadExceptOf.tryCatch, ExceptT.tryCatch, ExceptT.mk, bind,
    StateT.bind]
  rcases a s with ⟨e | x, s'⟩ <;> rfl

/-- After success `Q` holds of the value and the state, after failure `E` of the error and the
state. -/
def After (a : ExceptT ε (StateM σ) α) (s : σ) (Q : α → σ → Prop) (E : ε → σ → Prop) : Prop :=
  match a.run s with
  | (.ok x, s') => Q x s'
  | (.error e, s') => E e s'

section

variable {a : ExceptT ε (StateM σ) α} {s : σ} {Q : α → σ → Prop} {E : ε → σ → Prop}

lemma After.mono {Q' : α → σ → Prop} {E' : ε → σ → Prop} (h : After a s Q E)
    (hQ : ∀ x s', Q x s' → Q' x s') (hE : ∀ e s', E e s' → E' e s') : After a s Q' E' := by
  unfold After at h ⊢
  split at h
  · exact hQ _ _ h
  · exact hE _ _ h

lemma After.and {Q' : α → σ → Prop} {E' : ε → σ → Prop} (h : After a s Q E)
    (h' : After a s Q' E') :
    After a s (fun x s' => Q x s' ∧ Q' x s') fun e s' => E e s' ∧ E' e s' := by
  unfold After at h h' ⊢
  rcases ha : a.run s with ⟨e | x, s'⟩ <;> rw [ha] at h h' <;> exact ⟨h, h'⟩

/-- What holds of the state however the action ends. -/
lemma After.state {P : σ → Prop} (h : After a s (fun _ => P) (fun _ => P)) : P (a.run s).2 := by
  unfold After at h
  split at h
  · simp [*]
  · simp [*]

lemma after_of_forall (hQ : ∀ x s', Q x s') (hE : ∀ e s', E e s') : After a s Q E := by
  unfold After
  split
  · exact hQ _ _
  · exact hE _ _

lemma after_pure {x : α} (h : Q x s) : After (pure x : ExceptT ε (StateM σ) α) s Q E := h

lemma after_throw {e : ε} (h : E e s) : After (throw e : ExceptT ε (StateM σ) α) s Q E := h

lemma after_get {Q : σ → σ → Prop} (h : Q s s) : After (get : ExceptT ε (StateM σ) σ) s Q E := h

lemma after_modify {f : σ → σ} {Q : Unit → σ → Prop} (h : Q () (f s)) :
    After (modify f : ExceptT ε (StateM σ) Unit) s Q E := h

lemma after_bind {f : α → ExceptT ε (StateM σ) β} {Q : β → σ → Prop}
    (h : After a s (fun x s' => After (f x) s' Q E) E) : After (a >>= f) s Q E := by
  unfold After at h ⊢
  rw [run_bind]
  rcases ha : a.run s with ⟨e | x, s'⟩ <;> rw [ha] at h <;> exact h

lemma after_tryCatch {f : ε → ExceptT ε (StateM σ) α}
    (h : After a s Q fun e s' => After (f e) s' Q E) : After (tryCatch a f) s Q E := by
  unfold After at h ⊢
  rw [run_tryCatch]
  rcases ha : a.run s with ⟨e | x, s'⟩ <;> rw [ha] at h <;> exact h

/-- An invariant of every round holds after all of them. -/
lemma after_foldlM {γ : Type} {f : β → γ → ExceptT ε (StateM σ) β} {P : σ → Prop}
    (hf : ∀ b c s, P s → After (f b c) s (fun _ => P) (fun _ => P)) (l : List γ) (b : β) (s : σ)
    (h : P s) : After (l.foldlM f b) s (fun _ => P) (fun _ => P) := by
  induction l generalizing b s with
  | nil => exact after_pure h
  | cons c l ih =>
    rw [List.foldlM_cons]
    exact after_bind ((hf b c s h).mono (fun b' s' h' => ih b' s' h') fun _ _ h' => h')

lemma after_forM {γ : Type} {f : γ → ExceptT ε (StateM σ) PUnit} {P : σ → Prop}
    (hf : ∀ c s, P s → After (f c) s (fun _ => P) (fun _ => P)) (l : List γ) (s : σ)
    (h : P s) : After (l.forM f) s (fun _ => P) (fun _ => P) := by
  induction l generalizing s with
  | nil => exact after_pure h
  | cons c l ih =>
    exact after_bind ((hf c s h).mono (fun _ s' h' => ih s' h') fun _ _ h' => h')

end

/-- Rounds that fail do so in one of them, after those in front of it. -/
lemma run_foldlM_error {γ : Type} {f : β → γ → ExceptT ε (StateM σ) β} {l : List γ} {b : β}
    {s s' : σ} {e : ε} (h : (l.foldlM f b).run s = (.error e, s')) :
    ∃ done c rest b' s₁, l = done ++ c :: rest ∧ (done.foldlM f b).run s = (.ok b', s₁) ∧
      (f b' c).run s₁ = (.error e, s') := by
  induction l generalizing b s with
  | nil => cases h
  | cons c l ih =>
    rw [List.foldlM_cons, run_bind] at h
    rcases hc : (f b c).run s with ⟨e' | b₁, s₁⟩ <;> rw [hc] at h
    · exact ⟨[], c, l, b, s, rfl, rfl, hc.trans h⟩
    · obtain ⟨done, d, rest, b', s₂, rfl, hdone, hd⟩ := ih h
      refine ⟨c :: done, d, rest, b', s₂, rfl, ?_, hd⟩
      rw [List.foldlM_cons, run_bind, hc]
      exact hdone

end PinnedBuild
