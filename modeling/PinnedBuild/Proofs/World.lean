import Mathlib
import PinnedBuild.Proofs.Files.Lasting
import PinnedBuild.Proofs.LogFilter
import PinnedBuild.World

/-!
Actions on a world: what each does to the files, and what is seen of it.
-/

namespace PinnedBuild

open Files

variable {ε δ α : Type} {w : World}

namespace World

/-- A world in which lines are logged and nothing else happens. -/
def logged (w : World) (lines : List LogLine) : World :=
  lines.foldl (fun v line => (v.record line).emit (.logged line)) w

lemma logged_append (w : World) (lines more : List LogLine) :
    w.logged (lines ++ more) = (w.logged lines).logged more := List.foldl_append ..

lemma logged_snoc (w : World) (lines : List LogLine) (line : LogLine) :
    w.logged (lines ++ [line]) = ((w.logged lines).record line).emit (.logged line) :=
  logged_append w lines [line]

lemma say_eq (w : World) (line : LogLine) :
    w.say line = w.logged (if w.filter.keeps line then [line] else []) := by
  unfold say
  split <;> rfl

@[simp] lemma events_record (w : World) (line : LogLine) : (w.record line).events = w.events := by
  unfold record
  split <;> rfl

@[simp] lemma sink_record (w : World) (line : LogLine) : (w.record line).sink = w.sink := by
  unfold record
  split <;> rfl

@[simp] lemma filter_record (w : World) (line : LogLine) :
    (w.record line).filter = w.filter := by
  unfold record
  split <;> rfl

lemma events_logged (w : World) (lines : List LogLine) :
    (w.logged lines).events = w.events ++ lines.map .logged := by
  induction lines generalizing w with
  | nil => simp [logged]
  | cons line lines ih =>
    show (((w.record line).emit (.logged line)).logged lines).events = _
    rw [ih]
    simp [emit]

/-- Logging leaves every file but the log file as it is. -/
lemma files_logged {P : FileTree → Prop} (lines : List LogLine) (h : P w.files)
    (hf : ∀ id b t, w.sink = .file id → P t → P (t.append id b)) : P (w.logged lines).files := by
  induction lines generalizing w with
  | nil => exact h
  | cons line lines ih =>
    refine ih (w := (w.record line).emit (.logged line)) ?_ fun id b t hs ht => hf id b t ?_ ht
    · show P (w.record line).files
      unfold record
      split
      · rename_i id hs
        exact hf id _ _ hs h
      · exact h
    · simpa [emit] using hs

end World

/-! ### What is seen -/

def Event.launch? : Event → Option Launch
  | .launched l => some l
  | _ => none

def Event.request? : Event → Option String
  | .requested r => some r
  | _ => none

def Event.line? : Event → Option LogLine
  | .logged l => some l
  | _ => none

lemma filterMap_line?_logged (lines : List LogLine) :
    (lines.map Event.logged).filterMap Event.line? = lines := by
  induction lines with
  | nil => rfl
  | cons l lines ih => exact congrArg (l :: ·) ih

/-- Between two worlds these tools are seen to start and these requests to be sent. -/
def World.Shown (w v : World) (launches : List Launch) (requests : List String) : Prop :=
  ∃ es, v.events = w.events ++ es ∧ es.filterMap Event.launch? = launches ∧
    es.filterMap Event.request? = requests

namespace World

variable {v u : World} {ls ls' : List Launch} {rs rs' : List String}

lemma Shown.of_events_eq (h : v.events = w.events) : w.Shown v [] [] := ⟨[], by simp [h], rfl, rfl⟩

lemma Shown.refl (w : World) : w.Shown w [] [] := .of_events_eq rfl

lemma Shown.trans (h : w.Shown v ls rs) (h' : v.Shown u ls' rs') :
    w.Shown u (ls ++ ls') (rs ++ rs') := by
  obtain ⟨es, he, rfl, rfl⟩ := h
  obtain ⟨es', he', rfl, rfl⟩ := h'
  exact ⟨es ++ es', by rw [he', he, List.append_assoc], by simp, by simp⟩

lemma shown_logged (w : World) (lines : List LogLine) : w.Shown (w.logged lines) [] [] := by
  refine ⟨_, events_logged w lines, ?_, ?_⟩ <;> simp [Event.launch?, Event.request?]

lemma shown_say (w : World) (line : LogLine) : w.Shown (w.say line) [] [] := by
  rw [say_eq]
  exact shown_logged w _

/-- Saying something leaves every file but the log file as it is. -/
lemma files_say {P : FileTree → Prop} (line : LogLine) (h : P w.files)
    (hf : ∀ id b t, w.sink = .file id → P t → P (t.append id b)) : P (w.say line).files := by
  rw [say_eq]
  exact files_logged _ h hf

lemma files_say_unlogged (line : LogLine) (hsink : ∀ id, w.sink ≠ .file id) :
    (w.say line).files = w.files :=
  files_say (P := fun t => t = w.files) line rfl fun id _ _ hid _ => absurd hid (hsink id)

@[simp] lemma user_logged (w : World) (lines : List LogLine) :
    (w.logged lines).files.user = w.files.user :=
  files_logged (P := fun t => t.user = w.files.user) lines rfl fun _ _ _ _ h => h

/-- What is found in the files is found after a line is logged. -/
lemma lookup_say {follow : Bool} {p : Path} {l : Location} {n : Node} (line : LogLine)
    (h : w.files.lookup follow p = .ok (l, n)) :
    (w.say line).files.lookup follow p = .ok (l, n) := by
  refine files_say (P := fun t => t.lookup follow p = .ok (l, n)) line h fun id b t _ ht => ?_
  exact FileTree.lookup_extends (t := t) ⟨rfl, fun _ _ hn => hn⟩ rfl ht

lemma shown_launched (w : World) (l : Launch) : w.Shown (w.emit (.launched l)) [l] [] :=
  ⟨[.launched l], rfl, rfl, rfl⟩

lemma shown_requested (w : World) (r : String) : w.Shown (w.emit (.requested r)) [] [r] :=
  ⟨[.requested r], rfl, rfl, rfl⟩

end World

/-! ### Running an action -/

namespace Act

@[simp] lemma run_onFiles (wrap : δ → ε) (a : ExceptT δ (StateM FileTree) α) (w : World) :
    (onFiles wrap a).run w = match a.run w.files with
      | (.ok x, t) => (.ok x, { w with files := t })
      | (.error e, t) => (.error (wrap e), { w with files := t }) := rfl

@[simp] lemma run_op (wrap : FileError → ε) (o : FileOp α) (w : World) :
    (op wrap o).run w = match o.run w.files with
      | .ok (x, t) => (.ok x, { w with files := t })
      | .error e => (.error (wrap e), w) := by
  rw [op, run_onFiles, FileOp.run_toAct]
  rcases o.run w.files with e | ⟨x, t⟩ <;> rfl

@[simp] lemma run_say (level : Level) (speaker : Speaker) (text : String) (w : World) :
    (say level speaker text : Act ε Unit).run w = (.ok (), w.say ⟨level, speaker, text⟩) := rfl

@[simp] lemma run_emit (e : Event) (w : World) :
    (emit e : Act ε Unit).run w = (.ok (), w.emit e) := rfl

@[simp] lemma run_fail (e : ε) (w : World) : (fail e : Act ε α).run w = (.error e, w) := rfl

@[simp] lemma run_ofExcept (r : Except ε α) (w : World) :
    (ofExcept r : Act ε α).run w = (r, w) := rfl

@[simp] lemma run_outcome (a : Act ε α) (w : World) :
    (outcome a : Act δ (Except ε α)).run w = (.ok (a.run w).1, (a.run w).2) := rfl

@[simp] lemma run_withError (f : ε → δ) (a : Act ε α) (w : World) :
    (withError f a).run w = ((a.run w).1.mapError f, (a.run w).2) := rfl

@[simp] lemma run_pure (x : α) (w : World) : (pure x : Act ε α).run w = (.ok x, w) := rfl

@[simp] lemma run_get (w : World) : (get : Act ε World).run w = (.ok w, w) := rfl

@[simp] lemma run_modify (f : World → World) (w : World) :
    (modify f : Act ε PUnit).run w = (.ok ⟨⟩, f w) := rfl

/-- Events that are seen one after the other. -/
lemma run_emits (f : α → Event) (l : List α) (w : World) :
    (l.forM fun x => (emit (f x) : Act ε Unit)).run w =
      (.ok (), { w with events := w.events ++ l.map f }) := by
  induction l generalizing w with
  | nil => simp [List.forM]
  | cons x l ih =>
    show ((emit (f x) : Act ε Unit) >>= fun _ => l.forM fun x => emit (f x)).run w = _
    rw [run_bind, run_emit]
    simp only [ih, World.emit, List.map_cons, List.append_assoc, List.singleton_append]

lemma after_onFiles {wrap : δ → ε} {a : ExceptT δ (StateM FileTree) α} {Q : α → World → Prop}
    {E : ε → World → Prop}
    (h : After a w.files (fun x t => Q x { w with files := t })
      fun e t => E (wrap e) { w with files := t }) : After (onFiles wrap a) w Q E := by
  unfold After at h ⊢
  rw [run_onFiles]
  rcases ha : a.run w.files with ⟨e | x, t⟩ <;> rw [ha] at h <;> exact h

/-- Operations on the files are not seen. -/
lemma after_onFiles_of_shown {wrap : δ → ε} {a : ExceptT δ (StateM FileTree) α}
    {P : World → Prop} (h : ∀ v, w.Shown v [] [] → P v) :
    After (onFiles wrap a) w (fun _ => P) (fun _ => P) :=
  after_onFiles (after_of_forall (fun _ _ => h _ (.of_events_eq rfl))
    fun _ _ => h _ (.of_events_eq rfl))

lemma after_withError {f : ε → δ} {a : Act ε α} {Q : α → World → Prop} {E : δ → World → Prop}
    (h : After a w Q fun e => E (f e)) : After (withError f a) w Q E := by
  unfold After at h ⊢
  rw [run_withError]
  rcases ha : a.run w with ⟨e | x, v⟩ <;> rw [ha] at h <;> exact h

end Act

/-! ### Worlds side by side -/

/-- A relation of worlds that says of their files what `R` says, and lasts through what is logged
in both. -/
structure World.Lifts (R : FileTree → FileTree → Prop) (S : World → World → Prop) : Prop where
  files : ∀ {w v}, S w v → R w.files v.files
  exchange : ∀ {w v t u}, S w v → R t u → S { w with files := t } { v with files := u }
  say : ∀ {w v} line, S w v → S (w.say line) (v.say line)

variable {v : World} {R : FileTree → FileTree → Prop} {S : World → World → Prop}

lemma Act.twin_onFiles (hS : World.Lifts R S) (h : S w v) {wrap : δ → ε}
    {a b : ExceptT δ (StateM FileTree) α} (hab : Twin R a b w.files v.files) :
    Twin S (onFiles wrap a) (onFiles wrap b) w v := by
  unfold Twin
  rw [run_onFiles, run_onFiles]
  obtain ⟨x, t, u, ha, hb, hR⟩ | ⟨e, t, u, ha, hb, hR⟩ := hab.cases <;> rw [ha, hb]
  · exact ⟨rfl, hS.exchange h hR⟩
  · exact ⟨rfl, hS.exchange h hR⟩

lemma Act.twin_say (hS : World.Lifts R S) (h : S w v) (level : Level) (speaker : Speaker)
    (text : String) :
    Twin S (say level speaker text : Act ε Unit) (say level speaker text) w v :=
  twin_modify (hS.say _ h)

/-- The worlds are the same but for what one file holds. -/
def World.SameBut (id : Nat) (w v : World) : Prop :=
  ∃ u, FileTree.SameBut id w.files u ∧ v = { w with files := u }

lemma World.lifts_sameBut (id : Nat) : Lifts (FileTree.SameBut id) (SameBut id) where
  files := by
    rintro w _ ⟨u, hu, rfl⟩
    exact hu
  exchange := by
    rintro w _ t u ⟨_, -, rfl⟩ h
    exact ⟨u, h, rfl⟩
  say := by
    rintro w _ line ⟨u, hu, rfl⟩
    obtain ⟨t, events, sink, filter, time⟩ := w
    unfold World.say
    split
    · rcases sink with _ | j | _
      · exact ⟨u, hu, rfl⟩
      · exact ⟨_, (FileTree.enduring_sameBut id).append hu j _, rfl⟩
      · exact ⟨u, hu, rfl⟩
    · exact ⟨u, hu, rfl⟩

end PinnedBuild
