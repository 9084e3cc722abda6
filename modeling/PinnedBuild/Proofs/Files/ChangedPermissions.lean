import Mathlib
import PinnedBuild.Proofs.Files.Operations

/-!
A tree that has all that another one has, but for the permissions of directories and for what its
files hold. Where a path leads in the one it leads in the other, unless it passes a directory there
that the user may not search.
-/

namespace PinnedBuild.Files

/-- Both are directories, or files, or the same link or device. -/
inductive Node.Resembles : Node → Node → Prop
  | directory (k k' : Mode) : Resembles (.directory k) (.directory k')
  | link (target : Path) : Resembles (.link target) (.link target)
  | file (id id' : Nat) : Resembles (.file id) (.file id')
  | device (d : Device) : Resembles (.device d) (.device d)

lemma Node.Resembles.refl (n : Node) : n.Resembles n := by
  cases n
  · exact .directory ..
  · exact .link _
  · exact .file ..
  · exact .device _

/-- What is seen of something that stands somewhere. -/
inductive Node.SeenAs : Node → FileTree.Object → Prop
  | directory (k : Mode) : SeenAs (.directory k) (.directory k)
  | link (target : Path) : SeenAs (.link target) (.link target)
  | file (id : Nat) (f : File) : SeenAs (.file id) (.file f)
  | device (d : Device) : SeenAs (.device d) (.device d)

namespace Node.SeenAs

variable {n n' : Node} {o : FileTree.Object}

lemma resembles (h : n.SeenAs o) (h' : n'.SeenAs o) : n.Resembles n' := by
  cases h <;> cases h'
  · exact .directory ..
  · exact .link _
  · exact .file ..
  · exact .device _

lemma directory_iff (h : n.SeenAs o) : (∃ k, n = .directory k) ↔ ∃ k, o = .directory k := by
  cases h <;> simp

end Node.SeenAs

namespace FileTree

/-- All that stands in the first tree stands in the second, and the user is the same. -/
structure EchoedBy (t s : FileTree) : Prop where
  user : s.user = t.user
  cwd : s.cwd = t.cwd
  nodes loc n : t.node? loc = some n → ∃ n', s.node? loc = some n' ∧ n.Resembles n'

/-- The user may search some directory or write to it in the first tree and not in the second. -/
def Tightened (t s : FileTree) : Prop :=
  ∃ loc k k', t.node? loc = some (.directory k) ∧ s.node? loc = some (.directory k') ∧
    (t.user.maySearch k = true ∧ s.user.maySearch k' = false ∨
      t.user.mayWrite k = true ∧ s.user.mayWrite k' = false)

/-- What a walk comes to in the second tree that comes to a place in the first. -/
def Echoes (t s : FileTree) (l : Location) (n : Node) (r : Except FileError Found) : Prop :=
  (∃ n', r = .ok (.node l n') ∧ n.Resembles n') ∨ r = .error .accessDenied ∧ t.Tightened s

variable {t s : FileTree} {follow : Bool} {f g : List Name → Location → Except FileError Found}
  {p q : Path} {x : Name} {at_ l dir : Location} {n : Node} {name : Name} {k : Mode}

/-! ### What is seen -/

lemma seen_of_node? (ht : t.Sound) (hn : t.node? l = some n) :
    ∃ o, t.object? l = some o ∧ n.SeenAs o := by
  unfold object?
  rw [hn]
  rcases n with k | target | id | d
  · exact ⟨_, rfl, .directory k⟩
  · exact ⟨_, rfl, .link target⟩
  · have hfile : t.file? id = some _ := List.getElem?_eq_getElem (ht l id hn)
    simp only [hfile]
    exact ⟨_, rfl, .file id _⟩
  · exact ⟨_, rfl, .device d⟩

lemma seen_of_object? {o : Object} (ho : t.object? l = some o) :
    ∃ n, t.node? l = some n ∧ n.SeenAs o := by
  unfold object? at ho
  rcases hn : t.node? l with _ | (k | target | id | d) <;> rw [hn] at ho <;> simp only at ho
  · cases ho
  · obtain rfl := Option.some.inj ho
    exact ⟨_, rfl, .directory k⟩
  · obtain rfl := Option.some.inj ho
    exact ⟨_, rfl, .link target⟩
  · obtain ⟨f, -, rfl⟩ := Option.map_eq_some_iff.mp ho
    exact ⟨_, rfl, .file id f⟩
  · obtain rfl := Option.some.inj ho
    exact ⟨_, rfl, .device d⟩

/-! ### Walks -/

lemma EchoedBy.directory (h : t.EchoedBy s) (hn : t.node? l = some (.directory k)) :
    ∃ k', s.node? l = some (.directory k') := by
  obtain ⟨n', hn', hlike⟩ := h.nodes l _ hn
  cases hlike with
  | directory _ k' => exact ⟨k', hn'⟩

lemma searchable_echo (h : t.EchoedBy s) (hs : t.searchable dir = .ok ()) :
    s.searchable dir = .ok () ∨ s.searchable dir = .error .accessDenied ∧ t.Tightened s := by
  obtain ⟨k, hk, hruns⟩ := searchable_ok hs
  obtain ⟨k', hk'⟩ := h.directory hk
  rcases hr : s.user.maySearch k' with _ | _
  · refine .inr ⟨?_, dir, k, k', hk, hk', .inl ⟨hruns, hr⟩⟩
    unfold searchable
    rw [hk']
    exact if_neg (by simp [hr])
  · exact .inl (searchable_of_node hk' hr)

/-- A name leads the same way. -/
lemma turn_echo (h : t.EchoedBy s) {r : Turn} (ht : t.turn name dir = .ok r) (hr : r ≠ .gap) :
    s.turn name dir = .ok r ∨
      (∃ at_ n n', r = .leaf at_ n ∧ s.turn name dir = .ok (.leaf at_ n') ∧ n.Resembles n') ∨
      s.turn name dir = .error .accessDenied ∧ t.Tightened s := by
  obtain ⟨hs, hc⟩ := turn_ok ht
  rcases searchable_echo h hs with hs' | ⟨hs', htight⟩
  · rcases hc with ⟨rfl, rfl⟩ | ⟨rfl, rfl⟩ | ⟨hn, hlen, rfl⟩
    · exact .inl (by simp [turn, hs'])
    · exact .inl (by simp [turn, hs'])
    · rw [turn_entry hn hs' hlen]
      rcases hm : t.node? (dir ++ [name]) with _ | m
      · rw [hm] at hr
        exact absurd rfl hr
      · obtain ⟨m', hm', hlike⟩ := h.nodes _ _ hm
        rw [hm']
        cases hlike with
        | directory _ _ => exact .inl rfl
        | link _ => exact .inl rfl
        | file id id' => exact .inr (.inl ⟨_, .file id, .file id', rfl, rfl, .file id id'⟩)
        | device _ => exact .inl rfl
  · refine .inr (.inr ⟨?_, htight⟩)
    unfold turn
    rw [hs']
    rfl

lemma walkNames_echo (h : t.EchoedBy s)
    (hfg : ∀ ss here l n, f ss here = .ok (.node l n) → t.Echoes s l n (g ss here))
    {ss : List Name} {here : Location}
    (hw : t.walkNames f follow ss here = .ok (.node l n)) :
    t.Echoes s l n (s.walkNames g follow ss here) := by
  induction ss generalizing here with
  | nil =>
    obtain ⟨m, hm, he⟩ := walkNames_nil_ok hw
    obtain ⟨rfl, rfl⟩ := Found.node.inj he
    obtain ⟨n', hn', hlike⟩ := h.nodes _ _ hm
    exact .inl ⟨n', by simp [walkNames, hn'], hlike⟩
  | cons name rest ih =>
    rw [walkNames_cons] at hw ⊢
    rcases ht : t.turn name here with e | r <;> rw [ht] at hw
    · cases hw
    have hgap : r ≠ .gap := by
      rintro rfl
      simp only [Except.bind_ok, onTurn] at hw
      split at hw <;> cases hw
    rcases turn_echo h ht hgap with hs | ⟨at_, m, m', rfl, hs, hlike⟩ | ⟨hs, htight⟩ <;> rw [hs]
    · simp only [Except.bind_ok] at hw ⊢
      rcases r with at_ | _ | ⟨at_, target⟩ | ⟨at_, m⟩
      · exact ih hw
      · exact absurd rfl hgap
      · simp only [onTurn] at hw ⊢
        split at hw
        · rw [if_pos (by assumption)]
          exact .inl ⟨n, hw, .refl n⟩
        · rw [if_neg (by assumption)]
          exact hfg _ _ _ _ hw
      · exact .inl ⟨n, hw, .refl n⟩
    · simp only [Except.bind_ok, onTurn] at hw ⊢
      split at hw
      · obtain ⟨rfl, rfl⟩ := Found.node.inj (Except.ok.inj hw)
        rw [if_pos (by assumption)]
        exact .inl ⟨m', rfl, hlike⟩
      · cases hw
    · exact .inr ⟨rfl, htight⟩

lemma walkLinks_echo (h : t.EchoedBy s) (k : Nat) {ss : List Name} {here : Location}
    (hw : t.walkLinks follow k ss here = .ok (.node l n)) :
    t.Echoes s l n (s.walkLinks follow k ss here) := by
  induction k generalizing ss here l n with
  | zero => exact walkNames_echo h (fun _ _ _ _ hf => by cases hf) hw
  | succ k ih => exact walkNames_echo h (fun _ _ _ _ hf => ih hf) hw

lemma walk_echo (h : t.EchoedBy s) (hl : t.lookup follow p = .ok (l, n)) :
    t.Echoes s l n (s.walk follow p) := by
  obtain ⟨hp, hw⟩ := walk_ok (lookup_ok.mp hl)
  rw [walk_eq hp, h.cwd]
  exact walkLinks_echo h _ hw

lemma lookup_echo (h : t.EchoedBy s) (hl : t.lookup follow p = .ok (l, n)) :
    (∃ n', s.lookup follow p = .ok (l, n') ∧ n.Resembles n') ∨
      s.lookup follow p = .error .accessDenied ∧ t.Tightened s := by
  rcases walk_echo h hl with ⟨n', hw, hlike⟩ | ⟨hw, htight⟩
  · exact .inl ⟨n', lookup_ok.mpr hw, hlike⟩
  · refine .inr ⟨?_, htight⟩
    unfold lookup
    rw [hw]
    rfl

/-! ### Changes -/

lemma EchoedBy.erase (h : t.EchoedBy s) (at_ : Location) :
    (t.erase at_).EchoedBy (s.erase at_) where
  user := h.user
  cwd := h.cwd
  nodes loc n hn := by
    rw [node?_erase] at hn ⊢
    split at hn
    · cases hn
    · rw [if_neg (by assumption)]
      exact h.nodes loc n hn

lemma Tightened.of_erase (h : (t.erase at_).Tightened (s.erase at_)) : t.Tightened s := by
  obtain ⟨loc, k, k', hk, hk', hdiff⟩ := h
  rw [node?_erase] at hk hk'
  split at hk
  · cases hk
  · rw [if_neg (by assumption)] at hk'
    exact ⟨loc, k, k', hk, hk', hdiff⟩

end FileTree

namespace FileOp

open FileTree

variable {t s u : FileTree} {p q : Path} {x : Name} {n : Node} {dir loc : Location} {y : Unit}

/-- A directory that takes new names can be searched too. -/
lemma needWritable_lets (h : (needWritable dir).run t = .ok (y, u)) :
    ∃ k, t.node? dir = some (.directory k) ∧ t.user.maySearch k = true ∧
      t.user.mayWrite k = true := by
  rw [run_needWritable] at h
  split at h
  · rename_i k hk
    rcases hs : t.searchable dir with e | _ <;> rw [hs] at h
    · cases h
    · simp only [Except.bind_ok] at h
      split at h
      · obtain ⟨k', hk', hruns⟩ := searchable_ok hs
        obtain rfl := Node.directory.inj (Option.some.inj (hk.symm.trans hk'))
        exact ⟨k, hk, hruns, by assumption⟩
      · cases h
  · cases h

lemma needWritable_echo (h : t.EchoedBy s) (ho : (needWritable dir).run t = .ok (y, u)) :
    (needWritable dir).run s = .ok ((), s) ∨
      (needWritable dir).run s = .error .accessDenied ∧ t.Tightened s := by
  obtain ⟨k, hk, hruns, hwrites⟩ := needWritable_lets ho
  obtain ⟨k', hk'⟩ := h.directory hk
  rcases searchable_echo h (searchable_of_node hk hruns) with hs | ⟨hs, htight⟩
  · rcases hw : s.user.mayWrite k' with _ | _
    · refine .inr ⟨?_, dir, k, k', hk, hk', .inr ⟨hwrites, hw⟩⟩
      rw [run_needWritable, hk']
      simp [hs, hw]
    · refine .inl ?_
      rw [run_needWritable, hk']
      simp [hs, hw]
  · refine .inr ⟨?_, htight⟩
    rw [run_needWritable, hk']
    simp [hs]

end FileOp

end PinnedBuild.Files
