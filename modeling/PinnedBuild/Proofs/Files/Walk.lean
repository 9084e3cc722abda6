import Mathlib
import PinnedBuild.Proofs.Action
import PinnedBuild.Proofs.Path

/-!
What a walk depends on. Its last step can be taken off, it goes on where the tree grows, and two
trees that differ only by what one of them lacks lead to the same place.
-/

namespace PinnedBuild.Files

/-- Both are directories, or the two are the same. -/
def Node.Alike : Node → Node → Prop
  | .directory _, .directory _ => True
  | a, b => a = b

lemma Node.Alike.refl (a : Node) : a.Alike a := by cases a <;> simp [Node.Alike]

/-- What a name in a directory leads to. -/
inductive Turn where
  | on (at_ : Location)
  | gap
  | link (at_ : Location) (target : Path)
  | leaf (at_ : Location) (n : Node)

def Turn.of (at_ : Location) : Option Node → Turn
  | none => .gap
  | some (.directory _) => .on at_
  | some (.link target) => .link at_ target
  | some n => .leaf at_ n

lemma Turn.of_alike {m n : Node} (h : m.Alike n) (at_ : Location) :
    Turn.of at_ (some m) = Turn.of at_ (some n) := by
  rcases m with m | p | i | d <;> rcases n with n | q | j | d' <;> simp_all [Node.Alike, Turn.of]

/-- A name that is looked up among what stands in a directory. -/
def IsEntry (x : Name) : Prop := x ≠ [Path.dot] ∧ x ≠ [Path.dot, Path.dot]

namespace FileTree

/-- Where both trees have something, it is the same up to the permissions of directories. -/
def Agrees (t u : FileTree) : Prop :=
  ∀ loc m n, t.node? loc = some m → u.node? loc = some n → m.Alike n

/-- All that stands in the first tree stands in the second, and the user is the same. -/
structure Extends (t u : FileTree) : Prop where
  user : u.user = t.user
  node : ∀ loc n, t.node? loc = some n → u.node? loc = some n

variable {t u : FileTree} {follow : Bool} {f g : List Name → Location → Except FileError Found}

lemma Extends.refl (t : FileTree) : t.Extends t := ⟨rfl, fun _ _ h => h⟩

lemma searchable_ok {at_ : Location} (h : t.searchable at_ = .ok ()) :
    ∃ m, t.node? at_ = some (.directory m) ∧ t.user.maySearch m = true := by
  unfold searchable at h
  split at h
  · rename_i m hm
    split at h
    · exact ⟨m, hm, by assumption⟩
    · simp at h
  · simp at h
  · simp at h

lemma searchable_of_node {at_ : Location} {m : Mode} (h : t.node? at_ = some (.directory m))
    (hm : t.user.maySearch m = true) : t.searchable at_ = .ok () := by
  unfold searchable
  rw [h]
  exact if_pos hm

lemma Extends.searchable (h : t.Extends u) {at_ : Location} (hs : t.searchable at_ = .ok ()) :
    u.searchable at_ = .ok () := by
  obtain ⟨m, hm, hr⟩ := searchable_ok hs
  exact searchable_of_node (h.node _ _ hm) (h.user ▸ hr)

/-! ### One name of a walk -/

def turn (t : FileTree) (name : Name) (here : Location) : Except FileError Turn := do
  t.searchable here
  if name = [Path.dot] then .ok (.on here)
  else if name = [Path.dot, Path.dot] then .ok (.on here.dropLast)
  else if maxName < name.length then .error .nameTooLong
  else .ok (.of (here ++ [name]) (t.node? (here ++ [name])))

/-- How a walk goes on from a name. -/
def onTurn (f : List Name → Location → Except FileError Found) (follow : Bool) (t : FileTree)
    (name : Name) (rest : List Name) (here : Location) : Turn → Except FileError Found
  | .on at_ => t.walkNames f follow rest at_
  | .gap => if rest.isEmpty then .ok (.missing here name) else .error .notFound
  | .link at_ target =>
    if rest.isEmpty && !follow then .ok (.node at_ (.link target))
    else f (steps target ++ rest) (origin here target)
  | .leaf at_ n => if rest.isEmpty then .ok (.node at_ n) else .error .notDirectory

lemma walkNames_cons (name : Name) (rest : List Name) (here : Location) :
    t.walkNames f follow (name :: rest) here =
      (t.turn name here).bind (onTurn f follow t name rest here) := by
  unfold turn
  simp only [walkNames]
  rcases t.searchable here with e | _
  · rfl
  · simp only [Except.ok_bind]
    split
    · rfl
    · split
      · rfl
      · split
        · rfl
        · rcases t.node? (here ++ [name]) with _ | (m | p | i | d) <;> rfl

lemma turn_ok {name : Name} {here : Location} {r : Turn} (h : t.turn name here = .ok r) :
    t.searchable here = .ok () ∧
      (name = [Path.dot] ∧ r = .on here ∨
       name = [Path.dot, Path.dot] ∧ r = .on here.dropLast ∨
       IsEntry name ∧ name.length ≤ maxName ∧
        r = .of (here ++ [name]) (t.node? (here ++ [name]))) := by
  unfold turn at h
  rcases hs : t.searchable here with e | _
  · simp [hs] at h
  refine ⟨rfl, ?_⟩
  simp only [hs, Except.ok_bind] at h
  by_cases h1 : name = [Path.dot]
  · simp only [h1, if_true, Except.ok.injEq] at h
    exact .inl ⟨h1, h.symm⟩
  by_cases h2 : name = [Path.dot, Path.dot]
  · rw [if_neg h1, if_pos h2] at h
    exact .inr (.inl ⟨h2, (Except.ok.inj h).symm⟩)
  by_cases h3 : maxName < name.length
  · simp [h1, h2, h3] at h
  rw [if_neg h1, if_neg h2, if_neg h3] at h
  exact .inr (.inr ⟨⟨h1, h2⟩, by omega, (Except.ok.inj h).symm⟩)

lemma turn_entry {name : Name} {here : Location} (hn : IsEntry name)
    (hs : t.searchable here = .ok ()) (hl : name.length ≤ maxName) :
    t.turn name here = .ok (.of (here ++ [name]) (t.node? (here ++ [name]))) := by
  unfold turn
  rw [hs, Except.ok_bind, if_neg hn.1, if_neg hn.2, if_neg (by omega)]

/-- A name leads the same way in a tree that holds more, unless it was missing. -/
lemma turn_extends (hu : t.Extends u) {name : Name} {here : Location} {r : Turn}
    (h : t.turn name here = .ok r) (hr : r ≠ .gap) : u.turn name here = .ok r := by
  obtain ⟨hs, hc⟩ := turn_ok h
  have hs' := hu.searchable hs
  rcases hc with ⟨rfl, rfl⟩ | ⟨rfl, rfl⟩ | ⟨hn, hl, rfl⟩
  · simp [turn, hs']
  · simp [turn, hs']
  · rw [turn_entry hn hs' hl]
    rcases hm : t.node? (here ++ [name]) with _ | m
    · rw [hm] at hr
      exact absurd rfl hr
    · rw [hu.node _ _ hm]

lemma turn_agrees (hu : t.Agrees u) {name : Name} {here : Location} {r r' : Turn}
    (h : t.turn name here = .ok r) (h' : u.turn name here = .ok r') (hr : r ≠ .gap)
    (hr' : r' ≠ .gap) : r = r' := by
  obtain ⟨-, hc⟩ := turn_ok h
  obtain ⟨-, hc'⟩ := turn_ok h'
  have hdots : [Path.dot] ≠ [Path.dot, Path.dot] := by decide
  rcases hc with ⟨rfl, rfl⟩ | ⟨rfl, rfl⟩ | ⟨hn, -, rfl⟩
  · rcases hc' with ⟨-, rfl⟩ | ⟨h2, -⟩ | ⟨hn', -⟩
    · rfl
    · exact absurd h2 hdots
    · exact absurd rfl hn'.1
  · rcases hc' with ⟨h1, -⟩ | ⟨-, rfl⟩ | ⟨hn', -⟩
    · exact absurd h1.symm hdots
    · rfl
    · exact absurd rfl hn'.2
  · rcases hc' with ⟨h1, -⟩ | ⟨h2, -⟩ | ⟨-, -, rfl⟩
    · exact absurd h1 hn.1
    · exact absurd h2 hn.2
    · rcases hm : t.node? (here ++ [name]) with _ | m
      · rw [hm] at hr
        exact absurd rfl hr
      · rcases hm' : u.node? (here ++ [name]) with _ | m'
        · rw [hm'] at hr'
          exact absurd rfl hr'
        · exact Turn.of_alike (hu _ _ _ hm hm') _

/-- A leaf is nothing that a walk goes through. -/
lemma turn_leaf {name : Name} {here at_ : Location} {n : Node}
    (h : t.turn name here = .ok (.leaf at_ n)) :
    t.searchable at_ = .error .notDirectory ∧ ∀ p, n ≠ .link p := by
  obtain ⟨-, ⟨-, h⟩ | ⟨-, h⟩ | ⟨-, -, h⟩⟩ := turn_ok h
  · simp at h
  · simp at h
  · rcases hm : t.node? (here ++ [name]) with _ | (m | p | i | d) <;> rw [hm] at h <;>
      simp only [Turn.of, Turn.leaf.injEq, reduceCtorEq] at h
    all_goals
      obtain ⟨rfl, rfl⟩ := h
      simp [searchable, hm]

/-! ### The last step -/

/-- The step to a name in a directory, where links are not followed. -/
def last (t : FileTree) (dir : Location) (x : Name) : Except FileError Found := do
  t.searchable dir
  if maxName < x.length then .error .nameTooLong
  else
    match t.node? (dir ++ [x]) with
    | none => .ok (.missing dir x)
    | some n => .ok (.node (dir ++ [x]) n)

/-- The step that stays in a directory. -/
def stay (t : FileTree) (dir : Location) : Except FileError Found := do
  t.searchable dir
  match t.node? dir with
  | none => .error .notFound
  | some n => .ok (.node dir n)

/-- Goes on from a place that a walk has led to. -/
def goOn (k : Location → Except FileError Found) : Found → Except FileError Found
  | .node at_ _ => k at_
  | .missing _ _ => .error .notFound

lemma walkNames_entry {x : Name} (hx : IsEntry x) (here : Location) :
    t.walkNames f false [x] here = t.last here x := by
  simp only [walkNames_cons, turn, if_neg hx.1, if_neg hx.2]
  unfold last
  rcases t.searchable here with e | _
  · rfl
  · simp only [Except.ok_bind]
    split
    · rfl
    · rcases hl : t.node? (here ++ [x]) with _ | (m | p | i | d) <;>
        simp [Turn.of, onTurn, walkNames, hl]

lemma walkNames_dot (here : Location) :
    t.walkNames f follow [[Path.dot]] here = t.stay here := by
  simp only [walkNames, stay]
  rcases t.searchable here with e | _
  · rfl
  · rcases t.node? here <;> rfl

lemma walkNames_snoc {x : Name} {k : Location → Except FileError Found}
    (hx : ∀ here, t.walkNames f follow [x] here = k here)
    (hk : ∀ here e, t.searchable here = .error e → k here = .error e)
    (hfg : ∀ ss here, f (ss ++ [x]) here = (g ss here).bind (goOn k))
    (ss : List Name) (here : Location) :
    t.walkNames f follow (ss ++ [x]) here = (t.walkNames g true ss here).bind (goOn k) := by
  induction ss generalizing here with
  | nil =>
    rw [List.nil_append, hx]
    simp only [walkNames]
    rcases hn : t.node? here with _ | n
    · exact hk here _ (by simp [searchable, hn])
    · rfl
  | cons name rest ih =>
    rw [List.cons_append, walkNames_cons, walkNames_cons]
    rcases ht : t.turn name here with e | (at_ | _ | ⟨at_, target⟩ | ⟨at_, n⟩)
    · rfl
    · exact ih at_
    · rcases rest with _ | ⟨y, rest⟩ <;> simp [onTurn, goOn]
    · simpa [onTurn] using hfg (steps target ++ rest) (origin here target)
    · have hs := hk at_ _ (turn_leaf ht).1
      rcases rest with _ | ⟨y, rest⟩ <;> simp [onTurn, goOn, hs]

lemma last_error {here : Location} {e : FileError} (x : Name) (h : t.searchable here = .error e) :
    t.last here x = .error e := by
  unfold last
  rw [h]
  rfl

lemma stay_error {here : Location} {e : FileError} (h : t.searchable here = .error e) :
    t.stay here = .error e := by
  unfold stay
  rw [h]
  rfl

/-- The last name of a walk can be taken off: it is looked up where the names before it lead. -/
lemma walkLinks_snoc {x : Name} (hx : IsEntry x) (n : Nat) (ss : List Name) (here : Location) :
    t.walkLinks false n (ss ++ [x]) here =
      (t.walkLinks true n ss here).bind (goOn fun at_ => t.last at_ x) := by
  induction n generalizing ss here with
  | zero =>
    exact walkNames_snoc (walkNames_entry hx) (fun _ _ => last_error x) (fun _ _ => rfl) ss here
  | succ n ih => exact walkNames_snoc (walkNames_entry hx) (fun _ _ => last_error x) ih ss here

lemma walkLinks_snoc_dot (n : Nat) (ss : List Name) (here : Location) :
    t.walkLinks follow n (ss ++ [[Path.dot]]) here =
      (t.walkLinks true n ss here).bind (goOn t.stay) := by
  induction n generalizing ss here with
  | zero => exact walkNames_snoc walkNames_dot (fun _ _ => stay_error) (fun _ _ => rfl) ss here
  | succ n ih => exact walkNames_snoc walkNames_dot (fun _ _ => stay_error) ih ss here

lemma last_ok {dir : Location} {x : Name} {r : Found} (h : t.last dir x = .ok r) :
    t.searchable dir = .ok () ∧ x.length ≤ maxName ∧
      (r = .missing dir x ∧ t.node? (dir ++ [x]) = none ∨
        ∃ n, r = .node (dir ++ [x]) n ∧ t.node? (dir ++ [x]) = some n) := by
  unfold last at h
  rcases hs : t.searchable dir with e | _
  · simp [hs] at h
  · simp only [hs, Except.ok_bind] at h
    split at h
    · simp at h
    · refine ⟨rfl, by omega, ?_⟩
      rcases hn : t.node? (dir ++ [x]) with _ | n
      · simp only [hn, Except.ok.injEq] at h
        exact .inl ⟨h.symm, rfl⟩
      · simp only [hn, Except.ok.injEq] at h
        exact .inr ⟨n, h.symm, rfl⟩

lemma last_missing (hs : t.searchable dir = .ok ()) (hx : x.length ≤ maxName)
    (hn : t.node? (dir ++ [x]) = none) : t.last dir x = .ok (.missing dir x) := by
  unfold last
  rw [hs, Except.ok_bind, if_neg (by omega), hn]

lemma last_node (hs : t.searchable dir = .ok ()) (hx : x.length ≤ maxName)
    (hn : t.node? (dir ++ [x]) = some n) : t.last dir x = .ok (.node (dir ++ [x]) n) := by
  unfold last
  rw [hs, Except.ok_bind, if_neg (by omega), hn]

/-- Before a walk takes its last step it has come to a directory. -/
lemma walkNames_init {x : Name}
    (hfg : ∀ ss here r, f (ss ++ [x]) here = .ok r →
      ∃ dir m, g ss here = .ok (.node dir m) ∧ t.searchable dir = .ok ())
    {ss : List Name} {here : Location} {r : Found}
    (h : t.walkNames f follow (ss ++ [x]) here = .ok r) :
    ∃ dir m, t.walkNames g true ss here = .ok (.node dir m) ∧ t.searchable dir = .ok () := by
  induction ss generalizing here with
  | nil =>
    rw [List.nil_append, walkNames_cons] at h
    rcases ht : t.turn x here with e | r'
    · simp [ht] at h
    · have hs := (turn_ok ht).1
      obtain ⟨m, hm, -⟩ := searchable_ok hs
      exact ⟨here, .directory m, by simp [walkNames, hm], hs⟩
  | cons name rest ih =>
    rw [List.cons_append, walkNames_cons] at h
    rw [walkNames_cons]
    rcases ht : t.turn name here with e | (at_ | _ | ⟨at_, target⟩ | ⟨at_, n⟩) <;> rw [ht] at h
    · simp at h
    · exact ih h
    · simp [onTurn] at h
    · simp only [Except.bind_ok, onTurn] at h ⊢
      rw [if_neg (by simp)] at h
      rw [if_neg (by simp)]
      rw [← List.append_assoc] at h
      exact hfg _ _ _ h
    · simp [onTurn] at h

lemma walkLinks_init {x : Name} (k : Nat) {ss : List Name} {here : Location} {r : Found}
    (h : t.walkLinks follow k (ss ++ [x]) here = .ok r) :
    ∃ dir m, t.walkLinks true k ss here = .ok (.node dir m) ∧ t.searchable dir = .ok () := by
  induction k generalizing ss here r with
  | zero => exact walkNames_init (fun _ _ _ h => by simp at h) h
  | succ k ih => exact walkNames_init (fun _ _ _ h => ih h) h

/-! ### Walks in two trees -/

lemma walkNames_nil_ok {here : Location} {r : Found} (h : t.walkNames f follow [] here = .ok r) :
    ∃ n, t.node? here = some n ∧ r = .node here n := by
  simp only [walkNames] at h
  split at h
  · exact ⟨_, by assumption, (Except.ok.inj h).symm⟩
  · simp at h

/-- A walk in a tree goes the same way in a tree that holds more. -/
lemma walkNames_extends (hu : t.Extends u)
    (hfg : ∀ ss here l n, f ss here = .ok (.node l n) → g ss here = .ok (.node l n))
    {ss : List Name} {here l : Location} {n : Node}
    (h : t.walkNames f follow ss here = .ok (.node l n)) :
    u.walkNames g follow ss here = .ok (.node l n) := by
  induction ss generalizing here with
  | nil =>
    obtain ⟨n', hn, he⟩ := walkNames_nil_ok h
    obtain ⟨rfl, rfl⟩ := Found.node.inj he
    simp [walkNames, hu.node _ _ hn]
  | cons name rest ih =>
    rw [walkNames_cons] at h ⊢
    rcases ht : t.turn name here with e | (at_ | _ | ⟨at_, target⟩ | ⟨at_, m⟩) <;> rw [ht] at h
    · simp at h
    · rw [turn_extends hu ht (by simp)]
      exact ih h
    · simp only [Except.bind_ok, onTurn] at h
      split at h <;> simp at h
    · rw [turn_extends hu ht (by simp)]
      simp only [Except.bind_ok, onTurn] at h ⊢
      split at h
      · rwa [if_pos (by assumption)]
      · rw [if_neg (by assumption)]
        exact hfg _ _ _ _ h
    · rw [turn_extends hu ht (by simp)]
      exact h

lemma walkLinks_extends (hu : t.Extends u) (k : Nat) {ss : List Name} {here l : Location} {n : Node}
    (h : t.walkLinks follow k ss here = .ok (.node l n)) :
    u.walkLinks follow k ss here = .ok (.node l n) := by
  induction k generalizing ss here l n with
  | zero => exact walkNames_extends hu (fun _ _ _ _ h => by simp at h) h
  | succ k ih => exact walkNames_extends hu (fun _ _ _ _ h => ih h) h

/-- A name that is missing at the end of a walk is found there once it is added. -/
lemma walkNames_added (hu : t.Extends u) {dir : Location} {x : Name} {n : Node}
    (hn : u.node? (dir ++ [x]) = some n) (hl : ∀ p, n ≠ .link p)
    (hfg : ∀ ss here, f ss here = .ok (.missing dir x) → g ss here = .ok (.node (dir ++ [x]) n))
    {ss : List Name} {here : Location}
    (h : t.walkNames f follow ss here = .ok (.missing dir x)) :
    u.walkNames g follow ss here = .ok (.node (dir ++ [x]) n) := by
  induction ss generalizing here with
  | nil =>
    obtain ⟨_, -, he⟩ := walkNames_nil_ok h
    simp at he
  | cons name rest ih =>
    rw [walkNames_cons] at h ⊢
    rcases ht : t.turn name here with e | (at_ | _ | ⟨at_, target⟩ | ⟨at_, m⟩) <;> rw [ht] at h
    · simp at h
    · rw [turn_extends hu ht (by simp)]
      exact ih h
    · -- the missing name itself
      rcases rest with _ | ⟨y, rest⟩
      · simp only [Except.bind_ok, onTurn, List.isEmpty_nil, if_true, Except.ok.injEq,
          Found.missing.injEq] at h
        obtain ⟨rfl, rfl⟩ := h
        obtain ⟨hs, ⟨-, hr⟩ | ⟨-, hr⟩ | ⟨he, hlen, -⟩⟩ := turn_ok ht
        · simp at hr
        · simp at hr
        · rw [turn_entry he (hu.searchable hs) hlen, hn]
          rcases n with m | p | i | d
          · simp [Turn.of, onTurn, walkNames, hn]
          · exact absurd rfl (hl p)
          all_goals simp [Turn.of, onTurn]
      · simp [onTurn] at h
    · rw [turn_extends hu ht (by simp)]
      simp only [Except.bind_ok, onTurn] at h ⊢
      split at h
      · simp at h
      · rw [if_neg (by assumption)]
        exact hfg _ _ h
    · simp only [Except.bind_ok, onTurn] at h
      split at h <;> simp at h

lemma walkLinks_added (hu : t.Extends u) {dir : Location} {x : Name} {n : Node}
    (hn : u.node? (dir ++ [x]) = some n) (hl : ∀ p, n ≠ .link p) (k : Nat)
    {ss : List Name} {here : Location}
    (h : t.walkLinks follow k ss here = .ok (.missing dir x)) :
    u.walkLinks follow k ss here = .ok (.node (dir ++ [x]) n) := by
  induction k generalizing ss here with
  | zero => exact walkNames_added hu hn hl (fun _ _ h => by simp at h) h
  | succ k ih => exact walkNames_added hu hn hl (fun _ _ h => ih h) h

/-- Walks that come to a place in both of two trees that agree come to the same place. -/
lemma walkNames_agrees (hu : t.Agrees u)
    (hfg : ∀ ss here l l' n n', f ss here = .ok (.node l n) →
      g ss here = .ok (.node l' n') → l = l')
    {ss : List Name} {here l l' : Location} {n n' : Node}
    (h : t.walkNames f follow ss here = .ok (.node l n))
    (h' : u.walkNames g follow ss here = .ok (.node l' n')) : l = l' := by
  induction ss generalizing here with
  | nil =>
    obtain ⟨_, -, he⟩ := walkNames_nil_ok h
    obtain ⟨_, -, he'⟩ := walkNames_nil_ok h'
    rw [(Found.node.inj he).1, (Found.node.inj he').1]
  | cons name rest ih =>
    have hgap : ∀ {v : FileTree} {k : List Name → Location → Except FileError Found} {l n},
        onTurn k follow v name rest here .gap ≠ .ok (.node l n) := by
      intro v k l n hg
      simp only [onTurn] at hg
      split at hg <;> simp at hg
    rw [walkNames_cons] at h h'
    rcases ht : t.turn name here with e | r <;> rw [ht] at h
    · simp at h
    rcases ht' : u.turn name here with e | r' <;> rw [ht'] at h'
    · simp at h'
    simp only [Except.bind_ok] at h h'
    obtain rfl : r = r' :=
      turn_agrees hu ht ht' (fun hr => hgap (hr ▸ h)) (fun hr => hgap (hr ▸ h'))
    rcases r with at_ | _ | ⟨at_, target⟩ | ⟨at_, m⟩
    · exact ih h h'
    · exact absurd h hgap
    · simp only [onTurn] at h h'
      split at h
      · rw [if_pos (by assumption)] at h'
        rw [← (Found.node.inj (Except.ok.inj h)).1, ← (Found.node.inj (Except.ok.inj h')).1]
      · rw [if_neg (by assumption)] at h'
        exact hfg _ _ _ _ _ _ h h'
    · have he := h.symm.trans h'
      exact (Found.node.inj (Except.ok.inj he)).1

lemma walkLinks_agrees (hu : t.Agrees u) (k : Nat) {ss : List Name} {here l l' : Location}
    {n n' : Node} (h : t.walkLinks follow k ss here = .ok (.node l n))
    (h' : u.walkLinks follow k ss here = .ok (.node l' n')) : l = l' := by
  induction k generalizing ss here l l' n n' with
  | zero => exact walkNames_agrees hu (fun _ _ _ _ _ _ h => by simp at h) h h'
  | succ k ih => exact walkNames_agrees hu (fun _ _ _ _ _ _ h h' => ih h h') h h'

/-- What a walk comes to without following its last link is where it leads, if it is no link. -/
lemma walkNames_follow
    (hfg : ∀ ss here l n, (∀ p, n ≠ .link p) → f ss here = .ok (.node l n) →
      g ss here = .ok (.node l n))
    {ss : List Name} {here l : Location} {n : Node} (hl : ∀ p, n ≠ .link p)
    (h : t.walkNames f false ss here = .ok (.node l n)) :
    t.walkNames g true ss here = .ok (.node l n) := by
  induction ss generalizing here with
  | nil => exact h
  | cons name rest ih =>
    rw [walkNames_cons] at h ⊢
    rcases ht : t.turn name here with e | (at_ | _ | ⟨at_, target⟩ | ⟨at_, m⟩) <;> rw [ht] at h
    · simp at h
    · exact ih h
    · exact h
    · simp only [Except.bind_ok, onTurn] at h ⊢
      rw [if_neg (by simp)]
      split at h
      · exact absurd (Found.node.inj (Except.ok.inj h)).2.symm (hl target)
      · exact hfg _ _ _ _ hl h
    · exact h

lemma walkLinks_follow (k : Nat) {ss : List Name} {here l : Location} {n : Node}
    (hl : ∀ p, n ≠ .link p) (h : t.walkLinks false k ss here = .ok (.node l n)) :
    t.walkLinks true k ss here = .ok (.node l n) := by
  induction k generalizing ss here l n with
  | zero => exact walkNames_follow (fun _ _ _ _ _ h => by simp at h) hl h
  | succ k ih => exact walkNames_follow (fun _ _ _ _ hl h => ih hl h) hl h

/-- Where a walk leads somewhere, it also does if its last link is not followed. -/
lemma walkNames_unfollowed
    (hfg : ∀ ss here l n, f ss here = .ok (.node l n) → ∃ l' n', g ss here = .ok (.node l' n'))
    {ss : List Name} {here l : Location} {n : Node}
    (h : t.walkNames f true ss here = .ok (.node l n)) :
    ∃ l' n', t.walkNames g false ss here = .ok (.node l' n') := by
  induction ss generalizing here with
  | nil => exact ⟨l, n, h⟩
  | cons name rest ih =>
    rw [walkNames_cons] at h ⊢
    rcases ht : t.turn name here with e | (at_ | _ | ⟨at_, target⟩ | ⟨at_, m⟩) <;> rw [ht] at h
    · simp at h
    · exact ih h
    · simp only [Except.bind_ok, onTurn] at h
      split at h <;> simp at h
    · rcases rest with _ | ⟨y, rest⟩
      · exact ⟨at_, .link target, rfl⟩
      · exact hfg _ _ _ _ h
    · exact ⟨l, n, h⟩

lemma walkLinks_unfollowed (k : Nat) {ss : List Name} {here l : Location} {n : Node}
    (h : t.walkLinks true k ss here = .ok (.node l n)) :
    ∃ l' n', t.walkLinks false k ss here = .ok (.node l' n') := by
  induction k generalizing ss here l n with
  | zero => exact walkNames_unfollowed (fun _ _ _ _ h => by simp at h) h
  | succ k ih => exact walkNames_unfollowed (fun _ _ _ _ h => ih h) h

end FileTree

end PinnedBuild.Files
