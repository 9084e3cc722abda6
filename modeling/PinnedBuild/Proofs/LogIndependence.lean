import Mathlib
import PinnedBuild.Proofs.World

/-!
Two worlds that have been told different things by their logs. If the log is a file, then their
trees differ in what it holds; else they do not differ at all. Whatever is done in both without
reading the log leaves them so, and what is seen of it is the same.
-/

namespace PinnedBuild

open Files FileTree

variable {ε α : Type} {s : Sink} {t u : FileTree} {w v : World} {front back : List Event}

/-- The trees are the same but for what the log holds, if it is a file. -/
structure Sink.Alike (s : Sink) (t u : FileTree) : Prop extends SameShape t u where
  others : ∀ j, s ≠ .file j → u.file? j = t.file? j
  modes : ∀ j, (u.file? j).map File.mode = (t.file? j).map File.mode

namespace Sink.Alike

lemma refl (s : Sink) (t : FileTree) : s.Alike t t := ⟨.refl t, fun _ _ => rfl, fun _ => rfl⟩

/-- A file is there in both, with the same permissions, or in neither. -/
lemma file?_cases (h : s.Alike t u) (j : Nat) :
    (t.file? j = Option.none ∧ u.file? j = Option.none) ∨
      ∃ f f', t.file? j = some f ∧ u.file? j = some f' ∧ f'.mode = f.mode := by
  have hm := h.modes j
  rcases ht : t.file? j with _ | f <;> rcases hu : u.file? j with _ | f' <;> rw [ht, hu] at hm
  · exact .inl ⟨rfl, rfl⟩
  · simp at hm
  · simp at hm
  · exact .inr ⟨f, f', rfl, rfl, by simpa using hm⟩

/-- Where no file is the log, nothing is left to differ. -/
lemma eq (h : s.Alike t u) (hs : ∀ id, s ≠ .file id) : u = t := by
  have hfiles : u.files = t.files := List.ext_getElem? fun j => h.others j (hs j)
  obtain ⟨nodes, files, cwd, user⟩ := t
  obtain ⟨nodes', files', cwd', user'⟩ := u
  obtain rfl : nodes' = nodes := h.nodes
  obtain rfl : cwd' = cwd := h.cwd
  obtain rfl : user' = user := h.user
  obtain rfl : files' = files := hfiles
  rfl

lemma cd (h : s.Alike t u) (cwd : Location) :
    s.Alike { t with cwd := cwd } { u with cwd := cwd } where
  nodes := h.nodes
  cwd := rfl
  count := h.count
  user := h.user
  others := h.others
  modes := h.modes

lemma put (h : s.Alike t u) (at_ : Location) (n : Node) : s.Alike (t.put at_ n) (u.put at_ n) where
  nodes := by simp [FileTree.put, FileTree.erase, h.nodes]
  cwd := h.cwd
  count := h.count
  user := h.user
  others := h.others
  modes := h.modes

lemma modifyFile (h : s.Alike t u) (id : Nat) {f : File → File} (hf : Steady f) :
    s.Alike (t.modifyFile id f) (u.modifyFile id f) where
  nodes := h.nodes
  cwd := h.cwd
  count := by simp [FileTree.modifyFile, h.count]
  user := h.user
  others j hj := by
    have ho := h.others j hj
    simp only [file?, FileTree.modifyFile, List.getElem?_modify] at ho ⊢
    rw [ho]
  modes j := by
    have hf' := h.file?_cases j
    simp only [file?, FileTree.modifyFile, List.getElem?_modify] at hf' ⊢
    rcases hf' with ⟨ht, hu⟩ | ⟨g, g', ht, hu, hg⟩
    · rw [ht, hu]
    · rw [ht, hu]
      by_cases hid : id = j
      · simpa [hid] using hf _ _ hg
      · simpa [hid] using hg

lemma enduring (s : Sink) : Enduring s.Alike where
  shape h := h.toSameShape
  put h _ := h.put _ _
  place h := h.put _ _
  erase h :=
    { nodes := by simp [FileTree.erase, h.nodes]
      cwd := h.cwd
      count := h.count
      user := h.user
      others := h.others
      modes := h.modes }
  modifyFile h hf := h.modifyFile _ hf
  putFile {t u at_ mode} h := by
    have hfile : ∀ (x : FileTree) (j : Nat), (x.putFile at_ mode).2.file? j =
        if j < x.files.length then x.file? j else [⟨[], mode⟩][j - x.files.length]? :=
      fun x j => List.getElem?_append
    refine ⟨⟨?_, h.cwd, ?_, h.user⟩, fun j hj => ?_, fun j => ?_⟩
    · simp [FileTree.putFile, FileTree.put, FileTree.erase, h.nodes, h.count]
    · simp [FileTree.putFile, h.count]
    · rw [hfile, hfile, h.count, h.others j hj]
    · rw [hfile, hfile, h.count]
      split
      · exact h.modes j
      · rfl

/-- A line more in the log of one of the two. -/
lemma append_right {id : Nat} (h : s.Alike t u) (hs : s = .file id) (b : Bytes) :
    s.Alike t (u.append id b) where
  nodes := h.nodes
  cwd := h.cwd
  count := by simp [FileTree.append, FileTree.modifyFile, h.count]
  user := h.user
  others j hj := by
    have hne : id ≠ j := by
      rintro rfl
      exact hj hs
    rw [FileTree.append, file?_modifyFile_of_ne hne, h.others j hj]
  modes j := by
    rw [← h.modes j]
    simp only [file?, FileTree.append, FileTree.modifyFile, List.getElem?_modify]
    rcases u.files[j]? with _ | g
    · rfl
    · by_cases hid : id = j <;> simp [hid]

lemma symm (h : s.Alike t u) : s.Alike u t where
  nodes := h.nodes.symm
  cwd := h.cwd.symm
  count := h.count.symm
  user := h.user.symm
  others j hj := (h.others j hj).symm
  modes j := (h.modes j).symm

end Sink.Alike

namespace World

/-- Both worlds have the same log. They have seen one the events `front` and the other the events
`back`, and then the same. -/
structure Beside (s : Sink) (front back : List Event) (w v : World) : Prop where
  sink : w.sink = s ∧ v.sink = s
  filter : v.filter = w.filter
  time : v.time = w.time
  files : s.Alike w.files v.files
  events : ∃ after, w.events = front ++ after ∧ v.events = back ++ after

lemma Beside.refl (w : World) : Beside w.sink w.events w.events w w where
  sink := ⟨rfl, rfl⟩
  filter := rfl
  time := rfl
  files := .refl _ _
  events := ⟨[], by simp, by simp⟩

lemma Beside.emit (h : Beside s front back w v) (e : Event) :
    Beside s front back (w.emit e) (v.emit e) where
  sink := h.sink
  filter := h.filter
  time := h.time
  files := h.files
  events := by
    obtain ⟨after, hw, hv⟩ := h.events
    exact ⟨after ++ [e], by simp [World.emit, hw], by simp [World.emit, hv]⟩

lemma Beside.exchange (h : Beside s front back w v) (ht : s.Alike t u) :
    Beside s front back { w with files := t } { v with files := u } where
  sink := h.sink
  filter := h.filter
  time := h.time
  files := ht
  events := h.events

lemma Beside.record (h : Beside s front back w v) (line : LogLine) :
    Beside s front back (w.record line) (v.record line) := by
  obtain ⟨t, events, sink, filter, time⟩ := w
  obtain ⟨u, events', sink', filter', time'⟩ := v
  obtain ⟨hw, hv⟩ : sink = s ∧ sink' = s := h.sink
  obtain rfl : time' = time := h.time
  rcases s with _ | id | _ <;> subst hw hv
  · exact h
  · exact h.exchange ((Sink.Alike.enduring _).append h.files id _)
  · exact h

lemma lifts_beside (s : Sink) (front back : List Event) :
    Lifts s.Alike (Beside s front back) where
  files h := h.files
  exchange h ht := h.exchange ht
  say {w v} line h := by
    unfold World.say
    rw [h.filter]
    split
    · exact (h.record line).emit _
    · exact h

lemma sink_logged (w : World) (lines : List LogLine) : (w.logged lines).sink = w.sink := by
  induction lines generalizing w with
  | nil => rfl
  | cons line lines ih => exact (ih _).trans (sink_record w line)

lemma sink_say (w : World) (line : LogLine) : (w.say line).sink = w.sink := by
  rw [say_eq, sink_logged]

lemma alike_logged (w : World) (lines : List LogLine) (h : w.sink.Alike t w.files) :
    w.sink.Alike t (w.logged lines).files :=
  files_logged (P := fun x => w.sink.Alike t x) lines h fun _ b _ hs hx => hx.append_right hs b

lemma steady_logged (w : World) (lines : List LogLine) :
    (w.logged lines).filter = w.filter ∧ (w.logged lines).time = w.time := by
  induction lines generalizing w with
  | nil => exact ⟨rfl, rfl⟩
  | cons line lines ih =>
    have htime : (w.record line).time = w.time := by
      unfold World.record
      split <;> rfl
    obtain ⟨hr, ht⟩ := ih ((w.record line).emit (.logged line))
    exact ⟨hr.trans (filter_record w line), ht.trans htime⟩

lemma filter_say (w : World) (line : LogLine) : (w.say line).filter = w.filter := by
  rw [say_eq]
  exact (steady_logged w _).1

lemma events_say (w : World) (line : LogLine) : (w.say line).events =
    w.events ++ ([line].filter w.filter.keeps).map .logged := by
  rw [say_eq, events_logged]
  by_cases h : w.filter.keeps line = true <;> simp [h]

/-- One world that is told two things. -/
lemma beside_logged (w : World) (mine yours : List LogLine) :
    Beside w.sink (w.events ++ mine.map .logged) (w.events ++ yours.map .logged)
      (w.logged mine) (w.logged yours) where
  sink := ⟨sink_logged w mine, sink_logged w yours⟩
  filter := (steady_logged w yours).1.trans (steady_logged w mine).1.symm
  time := (steady_logged w yours).2.trans (steady_logged w mine).2.symm
  files := (alike_logged w mine (alike_logged w yours (.refl _ _)).symm).symm
  events := ⟨[], by simp [events_logged], by simp [events_logged]⟩

end World

end PinnedBuild
