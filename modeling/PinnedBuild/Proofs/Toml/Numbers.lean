import Mathlib
import PinnedBuild.Proofs.Toml.Order

/-!
A document that gives a number.

No path leads into a number and nothing else is read from it. So a document with another number
under the same key is the same but for that number, and it is none if no integer of 64 bits is
written there.
-/

namespace PinnedBuild.Toml

variable {k key : String} {n : Int} {es es' c body : Entries} {v : Value} {o : Origin}
  {path : List String}

/-! ### Another number in a table -/

/-- A number is under a key. -/
def Numbered (key : String) (es : Entries) : Prop := ∃ m, es.lookup key = some (.integer m)

/-- The entries with another number under a key. -/
def renumber (key : String) (n : Int) (es : Entries) : Entries :=
  es.map fun e => if e.1 = key then (key, .integer n) else e

lemma lookup_renumber_of_ne (hk : k ≠ key) (n : Int) (es : Entries) :
    (renumber key n es).lookup k = es.lookup k := by
  rw [renumber, lookup_replace, if_neg hk]

lemma isSome_lookup_renumber (key : String) (n : Int) (k : String) (es : Entries) :
    ((renumber key n es).lookup k).isSome = (es.lookup k).isSome := by
  by_cases hk : k = key
  · subst hk
    rw [renumber, lookup_replace, if_pos rfl, Option.isSome_map]
  · rw [lookup_renumber_of_ne hk]

lemma Numbered.lookup_renumber (h : Numbered key es) (n : Int) :
    (renumber key n es).lookup key = some (.integer n) := by
  obtain ⟨m, hm⟩ := h
  rw [renumber, lookup_replace, if_pos rfl, hm]
  rfl

lemma Numbered.ne (h : Numbered key es) (hl : ∀ m, es.lookup k ≠ some (.integer m)) :
    k ≠ key := by
  rintro rfl
  obtain ⟨m, hm⟩ := h
  exact hl m hm

lemma renumber_snoc (hk : k ≠ key) (n : Int) (es : Entries) (v : Value) :
    renumber key n es ++ [(k, v)] = renumber key n (es ++ [(k, v)]) := by
  simp [renumber, hk]

lemma renumber_new (hl : es.lookup key = none) (m n : Int) :
    renumber key n (es ++ [(key, .integer m)]) = es ++ [(key, .integer n)] := by
  have hsame : renumber key n es = es := by
    refine (List.map_congr_left fun e he => if_neg ?_).trans (List.map_id es)
    rintro rfl
    exact notMem_of_lookup hl (List.mem_map.mpr ⟨e, he, rfl⟩)
  rw [renumber, List.map_append, ← renumber, hsame]
  simp

lemma renumber_put (hk : k ≠ key) (n : Int) (v : Value) (es : Entries) :
    put k v (renumber key n es) = renumber key n (put k v es) := by
  rcases h : es.lookup k with _ | w
  · rw [put_new h, put_new (by rw [lookup_renumber_of_ne hk, h]), renumber_snoc hk]
  · have h' : (renumber key n es).lookup k = some w := by rw [lookup_renumber_of_ne hk, h]
    rw [put, put, if_pos (by rw [h']; rfl), if_pos (by rw [h]; rfl), renumber, renumber,
      List.map_map, List.map_map]
    refine List.map_congr_left fun e _ => ?_
    by_cases he : e.1 = key
    · simp [he, Ne.symm hk]
    · by_cases he' : e.1 = k
      · simp [he', hk]
      · simp [he, he']

lemma renumber_filter (k key : String) (n : Int) (es : Entries) :
    (renumber key n es).filter (fun e => e.1 ≠ k) =
      renumber key n (es.filter fun e => e.1 ≠ k) := by
  rw [renumber, renumber, List.filter_map]
  congr 1
  refine List.filter_congr fun e _ => ?_
  by_cases he : e.1 = key
  · simp [he]
  · simp [he]

lemma Numbered.snoc (h : Numbered key es) (hk : k ≠ key) (v : Value) :
    Numbered key (es ++ [(k, v)]) := by
  obtain ⟨m, hm⟩ := h
  exact ⟨m, by rw [lookup_snoc_of_ne (Ne.symm hk), hm]⟩

lemma Numbered.put (h : Numbered key es) (hk : k ≠ key) (v : Value) :
    Numbered key (put k v es) := by
  obtain ⟨m, hm⟩ := h
  exact ⟨m, by rw [lookup_put_of_ne (Ne.symm hk), hm]⟩

lemma Numbered.filter (h : Numbered key es) (hk : k ≠ key) :
    Numbered key (es.filter fun e => e.1 ≠ k) := by
  obtain ⟨m, hm⟩ := h
  exact ⟨m, by rw [lookup_filter_of_ne (Ne.symm hk), hm]⟩

/-! ### Changes beside the number -/

/-- A change that leaves the number alone and does not depend on it. -/
structure Beside {α : Type} (key : String) (n : Int) (f : Entries → Option (α × Entries)) :
    Prop where
  eq : ∀ es, Numbered key es →
    f (renumber key n es) = (f es).map fun (a, t) => (a, renumber key n t)
  keeps : ∀ es a t, Numbered key es → f es = some (a, t) → Numbered key t

lemma Beside.snd {α : Type} {f : Entries → Option (α × Entries)} (hf : Beside key n f)
    (h : Numbered key es) :
    (f (renumber key n es)).map Prod.snd = ((f es).map Prod.snd).map (renumber key n) := by
  rw [hf.eq es h]
  rcases f es with _ | ⟨a, t⟩ <;> rfl

/-- No path leads into the number. -/
lemma beside_alter {α : Type} {way : Origin} {f : Origin → Entries → Option (α × Entries)}
    (hf : Beside key n (f o)) : Beside key n (alter way f path o) := by
  rcases path with _ | ⟨k, path⟩
  · exact hf
  · refine ⟨fun es h => ?_, fun es a t h ha => ?_⟩
    · rw [alter, alter]
      by_cases hk : k = key
      · subst hk
        obtain ⟨m, hm⟩ := h
        rw [Numbered.lookup_renumber ⟨m, hm⟩, hm]
        rfl
      · rw [lookup_renumber_of_ne hk]
        rcases hl : es.lookup k with _ | w
        · simp only [renumber_snoc hk, Option.map_map]
          rfl
        · split
          · rename_i heq
            simp at heq
          · split_ifs
            · simp only [renumber_put hk, Option.map_map]
              rfl
            · rfl
          · split
            · simp only [renumber_put hk, Option.map_map]
              rfl
            · rfl
          · rfl
    · rw [alter] at ha
      split at ha
      · rename_i hl
        obtain ⟨⟨a', t'⟩, -, he⟩ := Option.map_eq_some_iff.mp ha
        obtain ⟨rfl, rfl⟩ := Prod.mk.inj he
        exact h.snoc (h.ne fun m => by simp [hl]) _
      · rename_i o' t' hl
        have hk : k ≠ key := h.ne fun m => by simp [hl]
        split_ifs at ha
        obtain ⟨⟨a', t''⟩, -, he⟩ := Option.map_eq_some_iff.mp ha
        obtain ⟨rfl, rfl⟩ := Prod.mk.inj he
        exact h.put hk _
      · rename_i ts hl
        have hk : k ≠ key := h.ne fun m => by simp [hl]
        split at ha
        · obtain ⟨⟨a', t''⟩, -, he⟩ := Option.map_eq_some_iff.mp ha
          obtain ⟨rfl, rfl⟩ := Prod.mk.inj he
          exact h.put hk _
        · simp at ha
      · simp at ha

lemma beside_insertHere (key : String) (n : Int) (path : List String) (k : String) (v : Value)
    (o : Origin) : Beside key n (insertHere path k v o) where
  eq es h := by
    unfold insertHere
    rw [isSome_lookup_renumber]
    split_ifs with _ hk
    · rfl
    · rfl
    · have hne : k ≠ key := h.ne fun m hm => hk (by rw [hm]; rfl)
      rw [renumber_snoc hne]
      rfl
  keeps es u t h ht := by
    obtain ⟨hl, rfl⟩ := insertHere_some ht
    exact h.snoc (h.ne fun m => by simp [hl]) v

lemma beside_takeOut (key : String) (n : Int) (k : String) : Beside key n (takeOut k) where
  eq es h := by
    unfold takeOut
    by_cases hk : k = key
    · subst hk
      obtain ⟨m, hm⟩ := h
      rw [Numbered.lookup_renumber ⟨m, hm⟩, hm]
      rfl
    · rw [lookup_renumber_of_ne hk, renumber_filter]
      split <;> rfl
  keeps es body t h ht := by
    unfold takeOut at ht
    split at ht
    · obtain ⟨rfl, rfl⟩ := Prod.mk.inj (Option.some.inj ht)
      exact h
    · rename_i hl
      obtain ⟨rfl, rfl⟩ := Prod.mk.inj (Option.some.inj ht)
      exact h.filter (h.ne fun m => by simp [hl])
    · simp at ht

lemma beside_putBack (key : String) (n : Int) (k : String) (body : Entries) :
    Beside key n (putBack k body) where
  eq es h := by
    unfold putBack
    rw [isSome_lookup_renumber]
    split_ifs with hk
    · rfl
    · have hne : k ≠ key := h.ne fun m hm => hk (by rw [hm]; rfl)
      rw [renumber_snoc hne]
      rfl
  keeps es u t h ht := by
    unfold putBack at ht
    split_ifs at ht with hk
    obtain ⟨-, rfl⟩ := Prod.mk.inj (Option.some.inj ht)
    exact h.snoc (h.ne fun m hm => hk (by rw [hm]; rfl)) _

lemma beside_openArray (key : String) (n : Int) (k : String) : Beside key n (openArray k) where
  eq es h := by
    unfold openArray
    by_cases hk : k = key
    · subst hk
      obtain ⟨m, hm⟩ := h
      rw [Numbered.lookup_renumber ⟨m, hm⟩, hm]
      rfl
    · rw [lookup_renumber_of_ne hk, renumber_snoc hk]
      split <;> rfl
  keeps es u t h ht := by
    unfold openArray at ht
    split at ht
    · rename_i hl
      obtain ⟨-, rfl⟩ := Prod.mk.inj (Option.some.inj ht)
      exact h.snoc (h.ne fun m => by simp [hl]) _
    · obtain ⟨-, rfl⟩ := Prod.mk.inj (Option.some.inj ht)
      exact h
    · simp at ht

lemma beside_pushTable (key : String) (n : Int) (k : String) (body : Entries) :
    Beside key n (pushTable k body) where
  eq es h := by
    unfold pushTable
    by_cases hk : k = key
    · subst hk
      obtain ⟨m, hm⟩ := h
      rw [Numbered.lookup_renumber ⟨m, hm⟩, hm]
      rfl
    · rw [lookup_renumber_of_ne hk]
      split
      · rw [renumber_put hk]
        rfl
      · rfl
  keeps es u t h ht := by
    unfold pushTable at ht
    split at ht
    · rename_i hl
      obtain ⟨-, rfl⟩ := Prod.mk.inj (Option.some.inj ht)
      exact h.put (h.ne fun m => by simp [hl]) _
    · simp at ht

/-! ### Another number in a document -/

namespace Draft

variable {d d' : Draft}

/-- A number is under a key of the document. -/
def Numbered (key : String) (d : Draft) : Prop :=
  match d.place with
  | .root => Toml.Numbered key d.body
  | _ => Toml.Numbered key d.closed

def renumber (key : String) (n : Int) (d : Draft) : Draft :=
  match d.place with
  | .root => { d with body := Toml.renumber key n d.body }
  | _ => { d with closed := Toml.renumber key n d.closed }

lemma close_renumber (h : d.Numbered key) :
    (d.renumber key n).close = d.close.map (Toml.renumber key n) ∧
      ∀ es, d.close = some es → Toml.Numbered key es := by
  rcases d with ⟨closed, _ | ⟨path, k⟩ | ⟨path, k⟩, body⟩
  · refine ⟨rfl, fun es hes => ?_⟩
    obtain rfl := Option.some.inj hes
    exact h
  · have hb : Beside key n (along path (putBack k body)) :=
      beside_alter (beside_putBack key n k body)
    refine ⟨hb.snd h, fun es hes => ?_⟩
    obtain ⟨⟨u, t⟩, ha, rfl⟩ := Option.map_eq_some_iff.mp hes
    exact hb.keeps closed u t h ha
  · have hb : Beside key n (along path (pushTable k body)) :=
      beside_alter (beside_pushTable key n k body)
    refine ⟨hb.snd h, fun es hes => ?_⟩
    obtain ⟨⟨u, t⟩, ha, rfl⟩ := Option.map_eq_some_iff.mp hes
    exact hb.keeps closed u t h ha

/-- Where a header leads after the sections in front of it. -/
lemma header_renumber {α : Type} {f : Entries → Option (α × Entries)} (hf : Beside key n f)
    (h : d.Numbered key) {path : List String} (place : α → Entries → Draft)
    (hp : ∀ a t, place a (Toml.renumber key n t) = (place a t).renumber key n)
    (hn : ∀ a t, Toml.Numbered key t → (place a t).Numbered key) :
    ((d.renumber key n).close.bind fun es => (along path f es).bind fun (a, t) =>
        some (place a t)) =
      ((d.close.bind fun es => (along path f es).bind fun (a, t) => some (place a t)).map
        (renumber key n)) ∧
      ∀ d', (d.close.bind fun es => (along path f es).bind fun (a, t) => some (place a t)) =
        some d' →
        d'.Numbered key := by
  have hb : Beside key n (along path f) := beside_alter hf
  obtain ⟨hclose, hkeeps⟩ := close_renumber (n := n) h
  rw [hclose]
  rcases hc : d.close with _ | es
  · exact ⟨rfl, by simp⟩
  · have hes := hkeeps es hc
    simp only [Option.map_some, Option.bind_some, hb.eq es hes]
    rcases ha : along path f es with _ | ⟨a, t⟩
    · exact ⟨rfl, by simp⟩
    · refine ⟨congrArg some (hp a t), fun d' hd => ?_⟩
      obtain rfl := Option.some.inj hd
      exact hn a t (hb.keeps es a t hes ha)

/-- A line does to a document with another number what it does to the document. -/
lemma step_renumber (h : d.Numbered key) (l : Line) :
    (d.renumber key n).step l = (d.step l).map (renumber key n) ∧
      ∀ d', d.step l = some d' → d'.Numbered key := by
  rcases l with _ | ⟨path, k⟩ | ⟨path, k⟩ | ⟨path, k, v⟩
  · refine ⟨rfl, fun d' hd => ?_⟩
    obtain rfl := Option.some.inj hd
    exact h
  · exact header_renumber (beside_takeOut key n k) h
      (fun body closed => ⟨closed, .table path k, body⟩) (fun _ _ => rfl) fun _ _ ht => ht
  · exact header_renumber (beside_openArray key n k) h
      (fun _ closed => ⟨closed, .arrayTable path k, []⟩) (fun _ _ => rfl) fun _ _ ht => ht
  · rcases d with ⟨closed, _ | ⟨p, q⟩ | ⟨p, q⟩, body⟩
    · have hb : Beside key n (alter .dotted (insertHere path k v) path .header) :=
        beside_alter (beside_insertHere key n path k v _)
      refine ⟨?_, fun d' hd => ?_⟩
      · show ((alter _ _ _ _ (Toml.renumber key n body)).map Prod.snd).map _ =
          (((alter _ _ _ _ body).map Prod.snd).map _).map _
        rw [hb.snd h]
        rcases (alter .dotted (insertHere path k v) path .header body).map Prod.snd with _ | t <;>
          rfl
      · obtain ⟨body', hi, rfl⟩ := Option.map_eq_some_iff.mp hd
        obtain ⟨⟨u, t⟩, ha, rfl⟩ := Option.map_eq_some_iff.mp hi
        exact hb.keeps body u t h ha
    · refine ⟨?_, fun d' hd => ?_⟩
      · show (insertDotted _ _ _ _ body).map _ = ((insertDotted _ _ _ _ body).map _).map _
        rcases insertDotted .header path k v body with _ | t <;> rfl
      · obtain ⟨body', -, rfl⟩ := Option.map_eq_some_iff.mp hd
        exact h
    · refine ⟨?_, fun d' hd => ?_⟩
      · show (insertDotted _ _ _ _ body).map _ = ((insertDotted _ _ _ _ body).map _).map _
        rcases insertDotted .header path k v body with _ | t <;> rfl
      · obtain ⟨body', -, rfl⟩ := Option.map_eq_some_iff.mp hd
        exact h

lemma foldlM_renumber (h : d.Numbered key) (n : Int) (ls : List Line) :
    ls.foldlM step (d.renumber key n) = (ls.foldlM step d).map (renumber key n) ∧
      ∀ d', ls.foldlM step d = some d' → d'.Numbered key := by
  induction ls generalizing d with
  | nil =>
    refine ⟨rfl, fun d' hd => ?_⟩
    obtain rfl := Option.some.inj hd
    exact h
  | cons l ls ih =>
    obtain ⟨heq, hkeeps⟩ := step_renumber (n := n) h l
    rw [List.foldlM_cons, List.foldlM_cons, heq]
    rcases hs : d.step l with _ | d₁
    · exact ⟨rfl, by simp⟩
    · exact ih (hkeeps d₁ hs)

end Draft

/-- A line that begins no section. -/
def Line.Within : Line → Prop
  | .header _ _ | .arrayHeader _ _ => False
  | _ => True

lemma Draft.root_foldlM {d d' : Draft} {ls : List Line} (hd : d.place = .root)
    (hl : ∀ l ∈ ls, l.Within) (hs : ls.foldlM Draft.step d = some d') : d'.place = .root := by
  induction ls generalizing d with
  | nil =>
    obtain rfl := Option.some.inj hs
    exact hd
  | cons l ls ih =>
    rw [List.foldlM_cons] at hs
    obtain ⟨d₁, h₁, hs⟩ := Option.bind_eq_some_iff.mp hs
    obtain ⟨hl₁, hrest⟩ := List.forall_mem_cons.mp hl
    refine ih ?_ hrest hs
    rcases l with _ | ⟨path, k⟩ | ⟨path, k⟩ | ⟨path, k, v⟩
    · obtain rfl := Option.some.inj h₁
      exact hd
    · exact hl₁.elim
    · exact hl₁.elim
    · obtain ⟨body, -, rfl⟩ := Option.map_eq_some_iff.mp h₁
      exact hd

/-- Lines that give a number in the first section, and the same lines with another number. -/
lemma assemble?_renumber {before : List Line} (hl : ∀ l ∈ before, l.Within) (key : String)
    (m n : Int) (after : List Line) :
    assemble? (before ++ .assign [] key (.integer n) :: after) =
      (assemble? (before ++ .assign [] key (.integer m) :: after)).map (renumber key n) := by
  unfold assemble?
  rw [List.foldlM_append, List.foldlM_append]
  rcases hb : before.foldlM Draft.step .empty with _ | d
  · rfl
  · have hplace : d.place = .root := Draft.root_foldlM rfl hl hb
    obtain ⟨closed, place, body⟩ := d
    obtain rfl : place = .root := hplace
    show (((Draft.step ⟨closed, .root, body⟩ (.assign [] key (.integer n))).bind fun d =>
        after.foldlM Draft.step d).bind Draft.close) =
      ((((Draft.step ⟨closed, .root, body⟩ (.assign [] key (.integer m))).bind fun d =>
        after.foldlM Draft.step d).bind Draft.close).map (renumber key n))
    have hstep : ∀ x : Int, Draft.step ⟨closed, .root, body⟩ (.assign [] key (.integer x)) =
        if (body.lookup key).isSome then none
        else some ⟨closed, .root, body ++ [(key, .integer x)]⟩ := by
      intro x
      by_cases hk : (body.lookup key).isSome
      · simp [Draft.step, insertDotted, alter, insertHere, hk]
      · simp [Draft.step, insertDotted, alter, insertHere, hk]
    rw [hstep, hstep]
    split_ifs with hk
    · rfl
    · have hl : body.lookup key = none := Option.not_isSome_iff_eq_none.mp hk
      have hnum : Draft.Numbered key ⟨closed, .root, body ++ [(key, .integer m)]⟩ :=
        ⟨m, lookup_snoc_new hl _⟩
      have hsame : (⟨closed, .root, body ++ [(key, .integer n)]⟩ : Draft) =
          Draft.renumber key n ⟨closed, .root, body ++ [(key, .integer m)]⟩ := by
        show (⟨closed, .root, body ++ [(key, .integer n)]⟩ : Draft) =
          ⟨closed, .root, renumber key n (body ++ [(key, .integer m)])⟩
        rw [renumber_new hl]
      obtain ⟨heq, hkeeps⟩ := Draft.foldlM_renumber hnum n after
      rw [hsame, Option.bind_some, Option.bind_some, heq]
      rcases ha : after.foldlM Draft.step ⟨closed, .root, body ++ [(key, .integer m)]⟩ with
        _ | d <;> rw [ha]
      · rfl
      · exact (Draft.close_renumber (hkeeps d ha)).1

/-! ### Lines that give a number -/

lemma length_basicBody_le {s cs r : List Char} (h : basicBody s = some (cs, r)) :
    r.length ≤ s.length := by
  induction hn : s.length using Nat.strong_induction_on generalizing s cs with
  | _ N ih =>
    subst hn
    rw [basicBody.eq_def] at h
    split at h
    · simp at h
    · rename_i c t
      rw [List.length_cons]
      split_ifs at h
      · obtain ⟨-, rfl⟩ := Prod.mk.inj (Option.some.inj h)
        omega
      · split at h
        · rename_i d q hq
          obtain ⟨⟨cs', r'⟩, hb, he⟩ := Option.map_eq_some_iff.mp h
          obtain ⟨-, rfl⟩ := Prod.mk.inj he
          have hlt := length_escape?_lt hq
          have hle := ih q.length (by rw [List.length_cons]; omega) hb rfl
          omega
        · simp at h
      · obtain ⟨⟨cs', r'⟩, hb, he⟩ := Option.map_eq_some_iff.mp h
        obtain ⟨-, rfl⟩ := Prod.mk.inj he
        have hle := ih t.length (by rw [List.length_cons]; omega) hb rfl
        omega

lemma length_literalBody_le {s cs r : List Char} (h : literalBody s = some (cs, r)) :
    r.length ≤ s.length := by
  induction s generalizing cs with
  | nil => simp [literalBody] at h
  | cons c t ih =>
    rw [literalBody] at h
    rw [List.length_cons]
    split_ifs at h
    · obtain ⟨-, rfl⟩ := Prod.mk.inj (Option.some.inj h)
      omega
    · obtain ⟨⟨cs', r'⟩, hb, he⟩ := Option.map_eq_some_iff.mp h
      obtain ⟨-, rfl⟩ := Prod.mk.inj he
      have hle := ih hb
      omega

/-- A part of a key begins with a letter, a digit or the like, or with a quote. -/
lemma keyPart?_head {s r : List Char} {part : String} (h : keyPart? s = some (part, r)) :
    r.length ≤ s.length ∧ ∃ c t, s = c :: t ∧ (isBare c = true ∨ c = '"' ∨ c = '\'') := by
  unfold keyPart? at h
  split at h
  · unfold lineString? at h
    split at h
    · obtain ⟨⟨cs, q⟩, hb, he⟩ := Option.map_eq_some_iff.mp h
      obtain ⟨-, rfl⟩ := Prod.mk.inj he
      exact ⟨Nat.le_succ_of_le (length_basicBody_le hb), _, _, rfl, .inr (.inl rfl)⟩
    · obtain ⟨⟨cs, q⟩, hb, he⟩ := Option.map_eq_some_iff.mp h
      obtain ⟨-, rfl⟩ := Prod.mk.inj he
      exact ⟨Nat.le_succ_of_le (length_literalBody_le hb), _, _, rfl, .inr (.inr rfl)⟩
    · simp at h
  · rename_i hname
    obtain ⟨-, rfl⟩ := Prod.mk.inj (Option.some.inj h)
    refine ⟨(List.dropWhile_suffix isBare).length_le, ?_⟩
    rcases s with _ | ⟨c, t⟩
    · exact absurd rfl hname
    · refine ⟨c, t, rfl, .inl ?_⟩
      by_contra hc
      exact hname (List.takeWhile_cons_of_neg hc)

lemma keyParts?_head {s r : List Char} {parts : List String} (h : keyParts? s = some (parts, r)) :
    r.length ≤ s.length ∧
      ∃ c t, skipBlanks s = c :: t ∧ (isBare c = true ∨ c = '"' ∨ c = '\'') := by
  induction hn : s.length using Nat.strong_induction_on generalizing s parts with
  | _ N ih =>
    subst hn
    rw [keyParts?.eq_def] at h
    split at h
    · simp at h
    · rename_i part q hq
      obtain ⟨hle, hhead⟩ := keyPart?_head hq
      have hs := length_skipBlanks_le s
      have hb := length_skipBlanks_le q
      refine ⟨?_, hhead⟩
      split at h
      · rename_i q' hdot
        split_ifs at h with hlt
        obtain ⟨⟨more, r'⟩, hm, he⟩ := Option.map_eq_some_iff.mp h
        obtain ⟨-, rfl⟩ := Prod.mk.inj he
        have hmore := (ih q'.length hlt hm rfl).1
        omega
      · obtain ⟨-, rfl⟩ := Prod.mk.inj (Option.some.inj h)
        omega

lemma key?_head {s r : List Char} {k : String} (h : key? s = some (path, k, r)) :
    r.length ≤ s.length ∧
      ∃ c t, skipBlanks s = c :: t ∧ (isBare c = true ∨ c = '"' ∨ c = '\'') := by
  unfold key? at h
  obtain ⟨⟨parts, q⟩, hp, h⟩ := Option.bind_eq_some_iff.mp h
  simp only at h
  split_ifs at h
  obtain ⟨last, -, h⟩ := Option.bind_eq_some_iff.mp h
  obtain ⟨-, hr⟩ := Prod.mk.inj (Option.some.inj h)
  obtain ⟨-, rfl⟩ := Prod.mk.inj hr
  exact keyParts?_head hp

/-- Lines that are read one after the other from the front of a text. -/
inductive Reads : List Char → List Line → List Char → Prop
  | nil (s : List Char) : Reads s [] s
  | cons {s r q : List Char} {l : Line} {ls : List Line} (h : line? s = some (l, r))
      (hl : r.length < s.length) (rest : Reads r ls q) : Reads s (l :: ls) q

/-- A text that gives a number to a key on a line of its first section: what is written as the
number, and the lines before and after this one. -/
structure Gives (key : String) (cs text : List Char) (before after : List Line) : Prop where
  line : ∃ line afterKey afterSign back rest : List Char, Reads text before line ∧
    key? (skipBlanks line) = some ([], key, afterKey) ∧ expect '=' afterKey = some afterSign ∧
    skipBlanks afterSign = cs ++ back ∧ lineEnd? (skipComment (skipBlanks back)) = some rest ∧
    lines? rest = some after
  first : ∀ l ∈ before, l.Within

lemma Reads.lines? {s q : List Char} {ls : List Line} (h : Reads s ls q) :
    lines? s = (lines? q).map fun more => ls ++ more := by
  induction h with
  | nil s => simp
  | cons h hl _ ih =>
    rw [lines?_cons h hl, ih, Option.map_map]
    rfl

/-- Fields are read line by line, whatever stands after them. -/
lemma reads_fields {fs : List Field} (hf : ∀ f ∈ fs, f.Good) (rest : List Char) :
    Reads (fs.flatMap Field.write ++ rest) (fs.map Field.line) rest := by
  induction fs with
  | nil => exact .nil rest
  | cons f fs ih =>
    obtain ⟨hgood, hmore⟩ := List.forall_mem_cons.mp hf
    rw [List.flatMap_cons, List.append_assoc, List.map_cons]
    refine .cons (line?_field hgood _) ?_ (ih hmore)
    have hpos : 0 < f.write.length := by simp [Field.write, Writer.entry]
    have hsum : (f.write ++ (fs.flatMap Field.write ++ rest)).length =
        f.write.length + (fs.flatMap Field.write ++ rest).length := List.length_append
    omega

lemma skipBlanks_skipBlanks (s : List Char) : skipBlanks (skipBlanks s) = skipBlanks s :=
  List.dropWhile_idempotent isBlank s

lemma expect_some {c : Char} {s r : List Char} (h : expect c s = some r) : s = c :: r := by
  unfold expect at h
  split at h
  · split_ifs at h with hc
    rw [hc, Option.some.inj h]
  · simp at h

lemma length_lineEnd?_le {s r : List Char} (h : lineEnd? s = some r) : r.length ≤ s.length := by
  rcases s with _ | ⟨c, t⟩
  · obtain rfl := Option.some.inj h
    exact Nat.le_refl _
  · exact Nat.le_of_lt (length_newline?_lt h)

/-- No number goes on where only blanks and a comment follow on the line. -/
lemma endsNumber_of_lineEnd {back rest : List Char}
    (h : lineEnd? (skipComment (skipBlanks back)) = some rest) : EndsNumber back := by
  intro c hc
  obtain ⟨r, rfl⟩ : ∃ r, back = c :: r := by
    rcases back with _ | ⟨d, r⟩
    · simp at hc
    · obtain rfl := Option.some.inj hc
      exact ⟨r, rfl⟩
  by_cases hb : isBlank c = true
  · rw [isBlank, Bool.or_eq_true, decide_eq_true_eq, decide_eq_true_eq] at hb
    rcases hb with rfl | rfl <;> decide
  · by_cases hcomment : c = '#'
    · subst hcomment
      decide
    · rw [skipBlanks_cons (by simpa using hb), skipComment_cons hcomment] at h
      have hnewline : newline? (c :: r) = some rest := h
      unfold newline? at hnewline
      split at hnewline
      · rename_i heq
        obtain ⟨rfl, -⟩ := List.cons.inj heq
        decide
      · rename_i heq
        obtain ⟨rfl, -⟩ := List.cons.inj heq
        decide
      · simp at hnewline

/-- The line of a number. -/
lemma line?_number {line afterKey afterSign back rest cs : List Char}
    (hkey : key? (skipBlanks line) = some ([], key, afterKey))
    (hsign : expect '=' afterKey = some afterSign) (hvalue : skipBlanks afterSign = cs ++ back)
    (hend : lineEnd? (skipComment (skipBlanks back)) = some rest) (hn : Decimal n cs) :
    line? line = (inRange? n).map fun n => (.assign [] key (.integer n), rest) := by
  obtain ⟨-, c, t, hc, hhead⟩ := key?_head hkey
  rw [skipBlanks_skipBlanks] at hc
  have hpair : pair? (value? depthLimit) (c :: t) =
      (inRange? n).map fun n => (([], key, .integer n), skipBlanks back) := by
    rw [← hc, pair?, hkey]
    simp only [Option.bind_eq_bind, Option.bind_some, hsign, hvalue,
      hn.value? (endsNumber_of_lineEnd hend)]
    rcases inRange? n with _ | m <;> rfl
  have hplain : isPlain c = true := by
    rcases hhead with hb | rfl | rfl
    · exact isPlain_of_isBare hb
    · decide
    · decide
  have hne : c ≠ '[' ∧ c ≠ '#' := by
    rcases hhead with hb | rfl | rfl
    · exact ⟨ne_of_isBare hb (by decide), ne_of_isBare hb (by decide)⟩
    · decide
    · decide
  have hbody : lineBody? (c :: t) =
      (inRange? n).map fun n => (.assign [] key (.integer n), skipBlanks back) := by
    unfold lineBody?
    split
    · rename_i h
      exact absurd (List.cons.inj h).1 hne.1
    · rename_i h
      exact absurd (List.cons.inj h).1 hne.1
    · rename_i h
      exact absurd (List.cons.inj h).1 hne.2
    · have hmore : lineEnd? (c :: t) = none := newline?_of_isPlain hplain t
      rw [hmore, if_neg (by simp), hpair, Option.map_map]
      rfl
  rw [line?, hc, hbody]
  rcases inRange? n with _ | m
  · rfl
  · show (lineEnd? (skipComment (skipBlanks (skipBlanks back)))).bind _ = _
    rw [skipBlanks_skipBlanks, hend]
    rfl

/-- A text that gives a number is read with this number, or not at all if it is none of 64 bits. -/
lemma Gives.lines? {cs text : List Char} {before after : List Line}
    (h : Gives key cs text before after) (hn : Decimal n cs) :
    lines? text = (inRange? n).map fun n => before ++ .assign [] key (.integer n) :: after := by
  obtain ⟨line, afterKey, afterSign, back, rest, hreads, hkey, hsign, hvalue, hend, hafter⟩ :=
    h.line
  have hshort : rest.length < line.length := by
    have hrest := length_lineEnd?_le hend
    have hcomment := length_skipComment_le (skipBlanks back)
    have hback := length_skipBlanks_le back
    have hspace := length_skipBlanks_le afterSign
    have hkeyed := (key?_head hkey).1
    have hfront := length_skipBlanks_le line
    rw [hvalue, List.length_append] at hspace
    rw [expect_some hsign, List.length_cons] at hkeyed
    omega
  have hline := line?_number hkey hsign hvalue hend hn
  rw [hreads.lines?]
  rcases hr : inRange? n with _ | m <;> rw [hr] at hline
  · have hnone : Toml.lines? line = none := by
      have hne : line.isEmpty = false := by
        rcases line with _ | ⟨c, t⟩
        · simp at hshort
        · rfl
      rw [lines?.eq_def, hne, hline]
      rfl
    rw [hnone]
    rfl
  · rw [lines?_cons hline hshort, hafter]
    rfl

end PinnedBuild.Toml
