import Mathlib
import PinnedBuild.Proofs.Files.Operations

/-!
Trees that only grow: what stands somewhere goes on standing there, and files only get longer.
-/

namespace PinnedBuild.Files

namespace FileTree

variable {s t u : FileTree} {ps : List Path} {p : Path} {loc : Location} {follow : Bool}

/-- All that the second tree has and the first has not is directories that some of the paths lead
to. -/
structure Grown (ps : List Path) (t u : FileTree) : Prop where
  keeps : t.Extends u
  cwd : u.cwd = t.cwd
  files : u.files = t.files
  added : ∀ loc, t.node? loc = none → u.node? loc = none ∨
    ∃ q ∈ ps, ∃ m, u.lookup true q = .ok (loc, .directory m)

/-- All that the first tree has the second has too, but that files may be longer in it. -/
structure Lengthens (t u : FileTree) : Prop where
  keeps : t.Extends u
  cwd : u.cwd = t.cwd
  files : ∀ id f, t.file? id = some f →
    ∃ more, u.file? id = some { f with content := f.content ++ more }

lemma Extends.trans (h : s.Extends t) (h' : t.Extends u) : s.Extends u :=
  ⟨h'.user.trans h.user, fun loc n hn => h'.node loc n (h.node loc n hn)⟩

lemma Extends.missing (h : t.Extends u) (hn : u.node? loc = none) : t.node? loc = none := by
  rcases ht : t.node? loc with _ | n
  · rfl
  · exact absurd (h.node loc n ht) (by simp [hn])

lemma Grown.refl (ps : List Path) (t : FileTree) : Grown ps t t :=
  ⟨.refl t, rfl, rfl, fun _ h => .inl h⟩

lemma Grown.trans (h : Grown ps s t) (h' : Grown ps t u) : Grown ps s u where
  keeps := h.keeps.trans h'.keeps
  cwd := h'.cwd.trans h.cwd
  files := h'.files.trans h.files
  added loc hn := by
    rcases h.added loc hn with ht | ⟨q, hq, m, hl⟩
    · exact h'.added loc ht
    · exact .inr ⟨q, hq, m, lookup_extends h'.keeps h'.cwd hl⟩

/-- No file has come to stand anywhere. -/
lemma Grown.file {id : Nat} (h : Grown ps t u) (hn : u.node? loc = some (.file id)) :
    t.node? loc = some (.file id) := by
  rcases ht : t.node? loc with _ | n
  · rcases h.added loc ht with hu | ⟨q, -, m, hl⟩
    · rw [hu] at hn
      cases hn
    · rw [lookup_node hl] at hn
      cases hn
  · rwa [h.keeps.node loc n ht] at hn

lemma Grown.sound (h : Grown ps t u) (hs : t.Sound) : u.Sound := by
  intro loc id hn
  rw [h.files]
  exact hs loc id (h.file hn)

lemma Lengthens.refl (t : FileTree) : t.Lengthens t :=
  ⟨.refl t, rfl, fun _ f h => ⟨[], by simpa using h⟩⟩

lemma Lengthens.trans (h : s.Lengthens t) (h' : t.Lengthens u) : s.Lengthens u where
  keeps := h.keeps.trans h'.keeps
  cwd := h'.cwd.trans h.cwd
  files id f hf := by
    obtain ⟨more, hm⟩ := h.files id f hf
    obtain ⟨more', hm'⟩ := h'.files id _ hm
    exact ⟨more ++ more', by simpa using hm'⟩

lemma Lengthens.lookup {l : Location} {n : Node} (h : t.Lengthens u)
    (hl : t.lookup follow p = .ok (l, n)) : u.lookup follow p = .ok (l, n) :=
  lookup_extends h.keeps h.cwd hl

lemma Grown.lengthens (h : Grown ps t u) : t.Lengthens u :=
  ⟨h.keeps, h.cwd, fun id f hf => ⟨[], by simpa [file?, h.files] using hf⟩⟩

lemma lengthens_putFile (h : t.node? loc = none) (mode : Mode) :
    t.Lengthens (t.putFile loc mode).2 where
  keeps := extends_putFile h mode
  cwd := rfl
  files id f hf := by
    have hid : id < t.files.length := (List.getElem?_eq_some_iff.mp hf).1
    refine ⟨[], ?_⟩
    rw [file?_putFile_of_lt hid, List.append_nil]
    exact hf

lemma lengthens_append (t : FileTree) (id : Nat) (bytes : Bytes) :
    t.Lengthens (t.append id bytes) where
  keeps := ⟨rfl, fun _ _ h => h⟩
  cwd := rfl
  files id' f hf := by
    by_cases hid : id = id'
    · subst hid
      exact ⟨bytes, FileOp.file?_modifyFile hf _⟩
    · refine ⟨[], ?_⟩
      rw [append, file?_modifyFile_of_ne hid, hf, List.append_nil]

/-! ### What is made on the way to a directory -/

/-- A directory that was not there before, on the way to the path. -/
def MadeFor (p : Path) (t u : FileTree) (loc : Location) : Prop :=
  t.node? loc = none ∧
    ∃ q ∈ FileAct.ancestors p.length p, ∃ m, u.lookup true q = .ok (loc, .directory m)

lemma MadeFor.lengthens (h : MadeFor p s t loc) (hu : t.Lengthens u) : MadeFor p s u loc := by
  obtain ⟨hn, q, hq, m, hl⟩ := h
  exact ⟨hn, q, hq, m, hu.lookup hl⟩

lemma MadeFor.of_lengthens (hs : s.Lengthens t) (h : MadeFor p t u loc) : MadeFor p s u loc :=
  ⟨hs.keeps.missing h.1, h.2⟩

/-- A place that was not there and is a directory now. -/
lemma Grown.object? (h : Grown (FileAct.ancestors p.length p) t u) (loc : Location) :
    u.object? loc = t.object? loc ∨ MadeFor p t u loc := by
  rcases ht : t.node? loc with _ | n
  · rcases h.added loc ht with hu | hmade
    · exact .inl (by simp [FileTree.object?, ht, hu])
    · exact .inr ⟨ht, hmade⟩
  · refine .inl ?_
    unfold FileTree.object? file?
    rw [ht, h.keeps.node loc n ht, h.files]

end FileTree

namespace FileOp

open FileTree

variable {t u : FileTree} {p : Path}

lemma makeDirectory_grown {ps : List Path} {q : Path} (hq : q ∈ ps) {y : Unit}
    (h : (makeDirectory q).run t = .ok (y, u)) : Grown ps t u := by
  obtain ⟨l, m, hn, rfl, hl⟩ := makeDirectory_created h
  refine ⟨extends_put hn, rfl, rfl, fun loc hloc => ?_⟩
  by_cases hll : loc = l
  · subst hll
    exact .inr ⟨q, hq, m, hl⟩
  · exact .inl (by rwa [node?_put, if_neg hll])

/-- All that comes of making sure of a directory is directories on the way to it. -/
lemma ensureDirectory_grown (p : Path) (t : FileTree) :
    Grown (FileAct.ancestors p.length p) t ((FileAct.ensureDirectory p).run t).2 :=
  After.state (ensureChain_keeps _ (fun _ hq {_ _ _} hs hm => hs.trans (makeDirectory_grown hq hm))
    (.refl _ t))

end FileOp

end PinnedBuild.Files
