import Mathlib
import PinnedBuild.Files.Tree

/-!
What stands at a place after a tree is changed, and trees in which every place of a file has one.
-/

namespace PinnedBuild.Files.FileTree

variable {t : FileTree} {at_ loc : Location} {n : Node}

lemma node?_erase (t : FileTree) (at_ loc : Location) :
    (t.erase at_).node? loc = if loc = at_ then none else t.node? loc := by
  unfold node? erase
  simp only
  induction t.nodes with
  | nil => simp
  | cons e es ih =>
    rcases e with ⟨l, n⟩
    by_cases hl : l = at_
    · subst hl
      rw [List.filter_cons_of_neg (by simp), ih]
      split
      · rfl
      · rw [List.lookup_cons, beq_false_of_ne (by assumption)]
    · rw [List.filter_cons_of_pos (by simpa using hl), List.lookup_cons, List.lookup_cons, ih]
      by_cases h : loc = l
      · subst h
        simp only [beq_self_eq_true, if_neg hl]
      · rw [beq_false_of_ne h]

lemma node?_put (t : FileTree) (at_ loc : Location) (n : Node) :
    (t.put at_ n).node? loc = if loc = at_ then some n else t.node? loc := by
  have h := node?_erase t at_ loc
  unfold node? at h ⊢
  unfold put
  simp only [List.lookup_cons]
  by_cases hl : loc = at_
  · subst hl
    simp
  · rw [if_neg hl] at h ⊢
    rw [beq_false_of_ne hl]
    exact h

@[simp] lemma user_erase (t : FileTree) (at_ : Location) : (t.erase at_).user = t.user := rfl

@[simp] lemma user_put (t : FileTree) (at_ : Location) (n : Node) : (t.put at_ n).user = t.user :=
    rfl

@[simp] lemma user_putFile (t : FileTree) (at_ : Location) (mode : Mode) :
    (t.putFile at_ mode).2.user = t.user := rfl

@[simp] lemma user_modifyFile (t : FileTree) (id : Nat) (f : File → File) :
    (t.modifyFile id f).user = t.user := rfl

@[simp] lemma user_append (t : FileTree) (id : Nat) (bytes : Bytes) :
    (t.append id bytes).user = t.user := rfl

@[simp] lemma node?_modifyFile (id : Nat) (f : File → File) :
    (t.modifyFile id f).node? loc = t.node? loc := rfl

lemma erase_put (t : FileTree) (at_ : Location) (n : Node) :
    (t.erase at_).put at_ n = t.put at_ n := by
  unfold put erase
  simp [List.filter_filter]

lemma put_put (t : FileTree) (at_ : Location) (n n' : Node) :
    (t.put at_ n).put at_ n' = t.put at_ n' := by
  unfold put erase
  simp [List.filter_filter]

lemma node?_putFile (mode : Mode) :
    (t.putFile at_ mode).2.node? loc =
      if loc = at_ then some (.file t.files.length) else t.node? loc :=
  node?_put t at_ loc _

lemma erase_putFile (t : FileTree) (at_ : Location) (mode : Mode) :
    (t.erase at_).putFile at_ mode = t.putFile at_ mode := by
  have hput := erase_put t at_ (.file t.files.length)
  unfold putFile
  simp only [show (t.erase at_).files = t.files from rfl, hput]

/-- The files that are there are not touched when one is made. -/
lemma file?_putFile_of_lt {id : Nat} {mode : Mode} (h : id < t.files.length) :
    (t.putFile at_ mode).2.file? id = t.file? id := by
  show (t.files ++ [_])[id]? = t.files[id]?
  exact List.getElem?_append_left h

/-- Every place of a file has a file. -/
def Sound (t : FileTree) : Prop := ∀ loc id, t.node? loc = some (.file id) → id < t.files.length

lemma sound_empty : FileTree.empty.Sound := by
  intro loc id h
  by_cases hl : loc = []
  · subst hl
    simp [FileTree.empty, node?] at h
  · simp [FileTree.empty, node?, List.lookup_cons, beq_false_of_ne hl] at h

lemma Sound.erase (h : t.Sound) (at_ : Location) : (t.erase at_).Sound := by
  intro loc id hn
  rw [node?_erase] at hn
  split at hn
  · simp at hn
  · exact h loc id hn

lemma Sound.put (h : t.Sound) (hn : ∀ id, n = .file id → id < t.files.length) :
    (t.put at_ n).Sound := by
  intro loc id hl
  rw [node?_put] at hl
  split at hl
  · exact hn id (Option.some.inj hl)
  · exact h loc id hl

lemma Sound.putFile (h : t.Sound) (mode : Mode) : (t.putFile at_ mode).2.Sound := by
  intro loc id hl
  rw [node?_putFile] at hl
  have hlen : (t.putFile at_ mode).2.files.length = t.files.length + 1 := by simp [FileTree.putFile]
  split at hl
  · obtain rfl : t.files.length = id := by simpa using hl
    omega
  · have := h loc id hl
    omega

lemma Sound.modifyFile (h : t.Sound) (id : Nat) (f : File → File) : (t.modifyFile id f).Sound := by
  intro loc id' hl
  have := h loc id' hl
  simpa [FileTree.modifyFile] using this

/-- What is seen of a place: what stands there, and of a file all that it holds. -/
inductive Object where
  | directory (mode : Mode)
  | link (target : Path)
  | file (f : File)
  | device (d : Device)
  deriving DecidableEq, Repr

def object? (t : FileTree) (loc : Location) : Option Object :=
  match t.node? loc with
  | none => none
  | some (.directory m) => some (.directory m)
  | some (.link target) => some (.link target)
  | some (.file id) => (t.file? id).map .file
  | some (.device d) => some (.device d)

/-- What is seen of a place rests on what stands there and, of a file, on that file alone. -/
lemma object?_congr {u : FileTree} (hn : u.node? loc = t.node? loc)
    (hf : ∀ id, t.node? loc = some (.file id) → u.file? id = t.file? id) :
    u.object? loc = t.object? loc := by
  unfold object?
  rw [hn]
  rcases hl : t.node? loc with _ | (m | target | id | d)
  · rfl
  · rfl
  · rfl
  · simp only
    rw [hf id hl]
  · rfl

lemma node?_of_object?_eq_none (hs : t.Sound) (h : t.object? loc = none) : t.node? loc = none := by
  unfold object? at h
  rcases hn : t.node? loc with _ | (m | target | id | d)
  · rfl
  all_goals
    rw [hn] at h
    simp only at h
  · cases h
  · cases h
  · have hid : t.files.length ≤ id := List.getElem?_eq_none_iff.mp (Option.map_eq_none_iff.mp h)
    have := hs loc id hn
    omega
  · cases h

lemma node?_of_object?_directory {m : Mode} (h : t.object? loc = some (.directory m)) :
    t.node? loc = some (.directory m) := by
  unfold object? at h
  rcases hn : t.node? loc with _ | (m | target | id | d) <;> rw [hn] at h <;> simp_all

lemma node?_of_object?_file {f : File} (h : t.object? loc = some (.file f)) :
    ∃ id, t.node? loc = some (.file id) ∧ t.file? id = some f := by
  unfold object? at h
  rcases hn : t.node? loc with _ | (m | target | id | d) <;> rw [hn] at h <;> simp_all

lemma object?_of_node?_directory {m : Mode} (h : t.node? loc = some (.directory m)) :
    t.object? loc = some (.directory m) := by
  unfold object?
  rw [h]

lemma object?_of_node?_none (h : t.node? loc = none) : t.object? loc = none := by
  unfold object?
  rw [h]

lemma object?_put_directory (t : FileTree) (at_ loc : Location) (m : Mode) :
    (t.put at_ (.directory m)).object? loc =
      if loc = at_ then some (.directory m) else t.object? loc := by
  split
  · exact object?_of_node?_directory (by rw [node?_put, if_pos (by assumption)])
  · exact object?_congr (by rw [node?_put, if_neg (by assumption)]) fun _ _ => rfl

lemma object?_erase (t : FileTree) (at_ loc : Location) :
    (t.erase at_).object? loc = if loc = at_ then none else t.object? loc := by
  split
  · exact object?_of_node?_none (by rw [node?_erase, if_pos (by assumption)])
  · exact object?_congr (by rw [node?_erase, if_neg (by assumption)]) fun _ _ => rfl

lemma file?_modifyFile_of_ne {id id' : Nat} (h : id ≠ id') (f : File → File) :
    (t.modifyFile id f).file? id' = t.file? id' := by
  simp only [file?, modifyFile, List.getElem?_modify]
  rcases t.files[id']? with _ | g
  · rfl
  · simp [h]

/-- Only where a file stands is it seen to change. -/
lemma object?_modifyFile_of_ne {id : Nat} (h : t.node? loc ≠ some (.file id)) (f : File → File) :
    (t.modifyFile id f).object? loc = t.object? loc := by
  refine object?_congr rfl fun id' hn => file?_modifyFile_of_ne ?_ f
  rintro rfl
  exact h hn

/-- A new file is seen at its place only. -/
lemma object?_putFile_of_ne {at_ : Location} (hs : t.Sound) (mode : Mode) (h : loc ≠ at_) :
    (t.putFile at_ mode).2.object? loc = t.object? loc :=
  object?_congr (by rw [node?_putFile, if_neg h]) fun id hn => file?_putFile_of_lt (hs loc id hn)

lemma append_nil (t : FileTree) (id : Nat) : t.append id [] = t := by
  have hsame : (fun f : File => { f with content := f.content ++ [] }) = fun f => f := by
    funext f
    simp
  show { t with files := t.files.modify id _ } = t
  rw [hsame, show t.files.modify id (fun f => f) = t.files from List.modify_id id t.files]

lemma append_append (t : FileTree) (id : Nat) (a b : Bytes) :
    (t.append id a).append id b = t.append id (a ++ b) := by
  unfold append modifyFile
  simp [List.modify_modify_eq, Function.comp_def]

end PinnedBuild.Files.FileTree
