import Mathlib
import PinnedBuild.Proofs.Toml.Distinct

/-!
Where the keys of a document stand.

A key stands where it is first written, be it only on the way to another. Only a table with a header
of its own stands at that header, also if headers of tables in it come before. So the order of the
keys can be told from the lines alone, for the document and for each table in it.
-/

namespace PinnedBuild.Toml

/-! ### What lines write -/

/-- A path of keys that a line writes, and whether it is the header of a table of its own. -/
structure Mark where
  path : List String
  own : Bool
  deriving DecidableEq

/-- A mark as it is seen from the table under a key. -/
def Mark.below (k : String) (m : Mark) : Option Mark :=
  match m.path with
  | a :: path => if a = k then some ⟨path, m.own⟩ else none
  | [] => none

/-- A key takes the last place unless it has one. -/
def enlist (k : String) (ks : List String) : List String := if k ∈ ks then ks else ks ++ [k]

/-- Keys in their order, with one more mark. -/
def stand (ks : List String) (m : Mark) : List String :=
  match m.path with
  | [] => ks
  | [k] => if m.own then ks.filter (· ≠ k) ++ [k] else enlist k ks
  | k :: _ :: _ => enlist k ks

/-- The keys of a table in the order in which marks place them. -/
def keyOrder (ms : List Mark) : List String := ms.foldl stand []

def Value.keys : Value → List String
  | .table _ es => es.map Prod.fst
  | _ => []

/-- A key with its value: the path of the key, and behind it the keys of a table between braces. -/
def keyMarks (path ks : List String) : List Mark :=
  ⟨path, false⟩ :: ks.map fun k => ⟨path ++ [k], false⟩

/-- What a line writes in a section. -/
def Line.marks (place : List String) : Line → List Mark
  | .blank => []
  | .header path key => [⟨path ++ [key], true⟩]
  | .arrayHeader path key => [⟨path ++ [key], false⟩]
  | .assign path key v => keyMarks (place ++ (path ++ [key])) v.keys

/-- The path of the header that began a section. -/
def Place.path : Place → List String
  | .root => []
  | .table path key | .arrayTable path key => path ++ [key]

/-- The section after a line. -/
def Line.place (place : List String) : Line → List String
  | .header path key | .arrayHeader path key => path ++ [key]
  | _ => place

/-- What lines write from a section on. -/
def marks : List String → List Line → List Mark
  | _, [] => []
  | place, l :: ls => l.marks place ++ marks (l.place place) ls

variable {es es' c body body' : Entries} {k k' key : String} {v : Value} {o : Origin}
  {path P Q F : List String} {m : Mark} {ms ms' : List Mark} {ks : List String} {b : Bool}

/-! ### Keys in their order -/

lemma enlist_of_mem (h : k ∈ ks) : enlist k ks = ks := if_pos h

lemma mem_enlist (k : String) (ks : List String) : k ∈ enlist k ks := by
  unfold enlist
  split_ifs with h
  · exact h
  · simp

lemma mem_enlist_of_mem (h : k' ∈ ks) (k : String) : k' ∈ enlist k ks := by
  unfold enlist
  split_ifs
  · exact h
  · simp [h]

/-- The mark of a path that goes on only lists its first key. -/
lemma stand_long (ks : List String) (k : String) (h : path ≠ []) (own : Bool) :
    stand ks ⟨k :: path, own⟩ = enlist k ks := by
  obtain ⟨a, rest, rfl⟩ := List.exists_cons_of_ne_nil h
  rfl

/-- So does any mark but that of a header. -/
lemma stand_cons (ks : List String) (k : String) (path : List String) :
    stand ks ⟨k :: path, false⟩ = enlist k ks := by
  rcases path with _ | ⟨a, rest⟩ <;> rfl

lemma mem_stand (ks : List String) (k : String) (path : List String) (own : Bool) :
    k ∈ stand ks ⟨k :: path, own⟩ := by
  rcases path with _ | ⟨a, rest⟩
  · rcases own
    · exact mem_enlist k ks
    · simp [stand]
  · exact mem_enlist k ks

lemma mem_stand_of_mem (h : k ∈ ks) (m : Mark) : k ∈ stand ks m := by
  rcases m with ⟨_ | ⟨a, _ | ⟨b, rest⟩⟩, _ | _⟩
  · exact h
  · exact h
  · exact mem_enlist_of_mem h a
  · by_cases ha : k = a
    · simp [stand, ha]
    · simp [stand, h, ha]
  · exact mem_enlist_of_mem h a
  · exact mem_enlist_of_mem h a

lemma mem_foldl_stand_of_mem (h : k ∈ ks) (ms : List Mark) : k ∈ ms.foldl stand ks := by
  induction ms generalizing ks with
  | nil => exact h
  | cons m ms ih => exact ih (mem_stand_of_mem h m)

/-- Every key that is written has a place. -/
lemma mem_foldl_stand (hm : ⟨k :: path, b⟩ ∈ ms) (ks : List String) : k ∈ ms.foldl stand ks := by
  induction ms generalizing ks with
  | nil => simp at hm
  | cons m ms ih =>
    rcases List.mem_cons.mp hm with rfl | hm
    · exact mem_foldl_stand_of_mem (mem_stand ks k path b) ms
    · exact ih hm _

/-- Where a key has no place nothing is written under it. -/
lemma below_eq_nil (h : k ∉ keyOrder ms) : ms.filterMap (Mark.below k) = [] := by
  rw [List.filterMap_eq_nil_iff]
  rintro ⟨_ | ⟨a, path⟩, own⟩ hm
  · rfl
  · have hne : a ≠ k := by
      rintro rfl
      exact h (mem_foldl_stand hm [])
    simp [Mark.below, hne]

lemma below_self (k : String) (path : List String) (b : Bool) :
    Mark.below k ⟨k :: path, b⟩ = some ⟨path, b⟩ := if_pos rfl

lemma below_other (h : k ≠ k') (path : List String) (b : Bool) :
    Mark.below k' ⟨k :: path, b⟩ = none := if_neg h

lemma keyMarks_below_self (k : String) (path new : List String) :
    (keyMarks (k :: path) new).filterMap (Mark.below k) = keyMarks path new := by
  rw [keyMarks, List.filterMap_cons_some (below_self k path false), List.filterMap_map, keyMarks]
  congr 1
  exact List.filterMap_eq_map_iff_forall_eq_some.mpr fun x _ => below_self k (path ++ [x]) false

lemma keyMarks_below_other (h : k ≠ k') (path new : List String) :
    (keyMarks (k :: path) new).filterMap (Mark.below k') = [] := by
  rw [keyMarks, List.filterMap_cons_none (below_other h path false), List.filterMap_eq_nil_iff]
  intro m hm
  obtain ⟨x, -, rfl⟩ := List.mem_map.mp hm
  exact below_other h (path ++ [x]) false

/-- What is behind a key does not stand beside it. -/
lemma foldl_stand_keyMarks (k : String) (path new ks : List String) :
    (keyMarks (k :: path) new).foldl stand ks = enlist k ks := by
  have hsettled : ∀ ks : List String, k ∈ ks →
      (new.map fun x => (⟨k :: path ++ [x], false⟩ : Mark)).foldl stand ks = ks := by
    intro ks hk
    induction new with
    | nil => rfl
    | cons x new ih =>
      rw [List.map_cons, List.foldl_cons, List.cons_append, stand_cons, enlist_of_mem hk]
      exact ih
  rw [keyMarks, List.foldl_cons, stand_cons, hsettled _ (mem_enlist k ks)]

/-- New keys are listed as they come. -/
lemma foldl_stand_new {new : List String} (h : (ks ++ new).Nodup) :
    (new.map fun k => (⟨[k], false⟩ : Mark)).foldl stand ks = ks ++ new := by
  induction new generalizing ks with
  | nil => simp
  | cons k new ih =>
    have hk : k ∉ ks := fun hm => (List.nodup_append.mp h).2.2 k hm k (by simp) rfl
    have hstand : stand ks ⟨[k], false⟩ = ks ++ [k] := if_neg hk
    rw [List.map_cons, List.foldl_cons, hstand, ih (by simpa using h)]
    simp

/-! ### One change in a table -/

lemma keys_snoc (es : Entries) (k : String) (v : Value) :
    (es ++ [(k, v)]).map Prod.fst = es.map Prod.fst ++ [k] := by simp

lemma keys_snoc_new (h : es.lookup k = none) (v : Value) :
    (es ++ [(k, v)]).map Prod.fst = enlist k (es.map Prod.fst) := by
  rw [keys_snoc, enlist, if_neg (notMem_of_lookup h)]

lemma lookup_snoc_new (h : es.lookup k = none) (v : Value) :
    (es ++ [(k, v)]).lookup k = some v := by
  rw [List.lookup_append, h]
  simp

lemma lookup_snoc_of_ne (h : k' ≠ k) (es : Entries) (v : Value) :
    (es ++ [(k, v)]).lookup k' = es.lookup k' := by
  rw [List.lookup_append]
  simp [List.lookup_cons, beq_false_of_ne h]

lemma mem_keys (h : es.lookup k = some v) : k ∈ es.map Prod.fst :=
  List.mem_map.mpr ⟨(k, v), mem_of_lookup h, rfl⟩

lemma put_new (h : es.lookup k = none) (v : Value) : put k v es = es ++ [(k, v)] := by
  rw [put, if_neg (by simp [h])]

lemma keys_put (k : String) (v : Value) (es : Entries) :
    (put k v es).map Prod.fst = enlist k (es.map Prod.fst) := by
  rcases h : es.lookup k with _ | w
  · rw [put_new h, keys_snoc_new h]
  · rw [put, if_pos (by simp [h]), List.map_map, enlist_of_mem (mem_keys h)]
    refine List.map_congr_left fun e _ => ?_
    by_cases he : e.1 = k
    · simp [he]
    · simp [he]

lemma lookup_replace (k k' : String) (v : Value) (es : Entries) :
    (es.map fun e => if e.1 = k then (k, v) else e).lookup k' =
      if k' = k then (es.lookup k).map fun _ => v else es.lookup k' := by
  induction es with
  | nil => simp
  | cons e es ih =>
    rcases e with ⟨a, w⟩
    rw [List.map_cons, List.lookup_cons, List.lookup_cons, List.lookup_cons, ih]
    by_cases ha : a = k
    · by_cases hk : k' = k
      · simp [ha, hk]
      · simp [ha, hk, beq_false_of_ne hk]
    · by_cases hk : k' = k
      · subst hk
        simp [ha, beq_false_of_ne (Ne.symm ha)]
      · simp [ha, hk]

lemma lookup_put (k : String) (v : Value) (es : Entries) : (put k v es).lookup k = some v := by
  rcases h : es.lookup k with _ | w
  · rw [put_new h, lookup_snoc_new h]
  · rw [put, if_pos (by simp [h]), lookup_replace]
    simp [h]

lemma lookup_put_of_ne (hne : k' ≠ k) (v : Value) (es : Entries) :
    (put k v es).lookup k' = es.lookup k' := by
  rcases h : es.lookup k with _ | w
  · rw [put_new h, lookup_snoc_of_ne hne]
  · rw [put, if_pos (by simp [h]), lookup_replace, if_neg hne]

lemma lookup_filter_of_ne (hne : k' ≠ k) (es : Entries) :
    (es.filter fun e => e.1 ≠ k).lookup k' = es.lookup k' := by
  induction es with
  | nil => rfl
  | cons e es ih =>
    rcases e with ⟨a, w⟩
    by_cases ha : a = k
    · rw [List.filter_cons_of_neg (by simp [ha]), ih, List.lookup_cons,
        beq_false_of_ne (by rw [ha]; exact hne)]
    · rw [List.filter_cons_of_pos (by simp [ha]), List.lookup_cons, List.lookup_cons, ih]

lemma lookup_filter_self (k : String) (es : Entries) :
    (es.filter fun e => e.1 ≠ k).lookup k = none := by
  refine lookup_of_notMem fun hm => ?_
  obtain ⟨e, he, rfl⟩ := List.mem_map.mp hm
  simp at he

/-- The table under a key, empty if nothing is there. -/
def Under (es : Entries) (k : String) (t : Entries) : Prop :=
  (es.lookup k = none ∧ t = []) ∨ ∃ o, es.lookup k = some (.table o t)

/-- Entries that differ in the table under one key, or in an array that headers fill there. -/
structure ChangedAt (k : String) (R : Entries → Entries → Prop) (es es' : Entries) : Prop where
  keys : es'.map Prod.fst = enlist k (es.map Prod.fst)
  others : ∀ k', k' ≠ k → es'.lookup k' = es.lookup k'
  inner : (∃ o t t', Under es k t ∧ es'.lookup k = some (.table o t') ∧ R t t') ∨
    ∃ ts, es'.lookup k = some (.array true ts)

/-- Entries that differ in the table that a path leads to. -/
def ChangedAlong (R : Entries → Entries → Prop) : List String → Entries → Entries → Prop
  | [] => R
  | k :: path => ChangedAt k (ChangedAlong R path)

variable {R S : Entries → Entries → Prop}

lemma ChangedAt.mono (hRS : ∀ t t', R t t' → S t t') (h : ChangedAt k R es es') :
    ChangedAt k S es es' where
  keys := h.keys
  others := h.others
  inner := h.inner.imp_left fun ⟨o, t, t', hu, hl, hr⟩ => ⟨o, t, t', hu, hl, hRS t t' hr⟩

/-- One change after another under the same key. -/
lemma ChangedAt.comp (h : ChangedAt k R es c) (h' : ChangedAt k S c es') :
    ChangedAt k (fun t t' => ∃ u, R t u ∧ S u t') es es' where
  keys := by rw [h'.keys, h.keys, enlist_of_mem (mem_enlist k _)]
  others k' hk := (h'.others k' hk).trans (h.others k' hk)
  inner := by
    refine h'.inner.imp_left fun ⟨o, u, t', hu, hl, hs⟩ => ?_
    rcases h.inner with ⟨o₁, t, u₁, ht, hl₁, hr⟩ | ⟨ts, hl₁⟩
    · rcases hu with ⟨hnone, -⟩ | ⟨o₂, hl₂⟩
      · simp [hl₁] at hnone
      · obtain ⟨-, rfl⟩ := Value.table.inj (Option.some.inj (hl₁.symm.trans hl₂))
        exact ⟨o, t, t', ht, hl, u₁, hr, hs⟩
    · rcases hu with ⟨hnone, -⟩ | ⟨o₂, hl₂⟩
      · simp [hl₁] at hnone
      · simp [hl₁] at hl₂

lemma ChangedAlong.mono (hRS : ∀ t t', R t t' → S t t') (h : ChangedAlong R path es es') :
    ChangedAlong S path es es' := by
  induction path generalizing es es' with
  | nil => exact hRS es es' h
  | cons k path ih => exact ChangedAt.mono (fun _ _ => ih) h

lemma ChangedAlong.comp (h : ChangedAlong R path es c) (h' : ChangedAlong S path c es') :
    ChangedAlong (fun t t' => ∃ u, R t u ∧ S u t') path es es' := by
  induction path generalizing es c es' with
  | nil => exact ⟨c, h, h'⟩
  | cons k path ih => exact (ChangedAt.comp h h').mono fun _ _ ⟨_, hr, hs⟩ => ih hr hs

/-- A table put under a key. -/
lemma changedAt_put {t t' : Entries} (hu : Under es k t) (h : R t t') (o : Origin) :
    ChangedAt k R es (put k (.table o t') es) where
  keys := keys_put k _ es
  others _ hk := lookup_put_of_ne hk _ es
  inner := .inl ⟨o, t, t', hu, lookup_put k _ es, h⟩

/-- An array put under a key. -/
lemma changedAt_array (k : String) (ts : List Value) (es : Entries) :
    ChangedAt k R es (put k (.array true ts) es) where
  keys := keys_put k _ es
  others _ hk := lookup_put_of_ne hk _ es
  inner := .inr ⟨ts, lookup_put k _ es⟩

/-- Two values that may be put under a key. -/
lemma changedAt_either (k : String) {v v' : Value} (es : Entries)
    (h : (∃ o t t', v = .table o t ∧ v' = .table o t' ∧ R t t') ∨ ∃ ts, v' = .array true ts) :
    ChangedAt k R (put k v es) (put k v' es) where
  keys := by rw [keys_put, keys_put, enlist_of_mem (mem_enlist k _)]
  others k' hk := by rw [lookup_put_of_ne hk, lookup_put_of_ne hk]
  inner := by
    rcases h with ⟨o, t, t', rfl, rfl, hr⟩ | ⟨ts, rfl⟩
    · exact .inl ⟨o, t, t', .inr ⟨o, lookup_put k _ es⟩, lookup_put k _ es, hr⟩
    · exact .inr ⟨ts, lookup_put k _ es⟩

lemma changedAlong_append : ∀ P : List String,
    ChangedAlong R (P ++ Q) es es' ↔ ChangedAlong (ChangedAlong R Q) P es es' := by
  intro P
  induction P generalizing es es' with
  | nil => rfl
  | cons k P ih => exact ⟨ChangedAt.mono fun _ _ => ih.mp, ChangedAt.mono fun _ _ => ih.mpr⟩

/-- What is changed along a path is changed at its end. -/
lemma changedAlong_alter {α : Type} {way : Origin} {f : Origin → Entries → Option (α × Entries)}
    {a : α} (h : alter way f path o es = some (a, es')) :
    ChangedAlong (fun t t' => ∃ o, f o t = some (a, t')) path es es' := by
  induction path generalizing o es es' with
  | nil => exact ⟨o, h⟩
  | cons k path ih =>
    rw [alter] at h
    split at h
    · rename_i hl
      obtain ⟨⟨a', t⟩, ht, he⟩ := Option.map_eq_some_iff.mp h
      obtain ⟨rfl, rfl⟩ := Prod.mk.inj he
      rw [← put_new hl]
      exact changedAt_put (.inl ⟨hl, rfl⟩) (ih ht) way
    · rename_i o' t hl
      split_ifs at h
      obtain ⟨⟨a', t'⟩, ht, he⟩ := Option.map_eq_some_iff.mp h
      obtain ⟨rfl, rfl⟩ := Prod.mk.inj he
      exact changedAt_put (.inr ⟨o', hl⟩) (ih ht) o'
    · rename_i ts hl
      split at h
      · obtain ⟨⟨a', t'⟩, -, he⟩ := Option.map_eq_some_iff.mp h
        obtain ⟨rfl, rfl⟩ := Prod.mk.inj he
        exact changedAt_array k _ es
      · simp at h
    · simp at h

/-! ### What marks tell of a change -/

/-- The keys that come about by a change, here and in the tables below, stand as marks say. -/
structure Moves (ms : List Mark) (es es' : Entries) : Prop where
  keys : es'.map Prod.fst = ms.foldl stand (es.map Prod.fst)
  inner : ∀ k o t', es'.lookup k = some (.table o t') → ∃ t, Under es k t ∧
    t'.map Prod.fst = (ms.filterMap (Mark.below k)).foldl stand (t.map Prod.fst)

lemma moves_nil (es : Entries) : Moves [] es es where
  keys := rfl
  inner _ o t' hl := ⟨t', .inr ⟨o, hl⟩, rfl⟩

/-- A change at the end of a path is told by the mark of the path and of what follows there. -/
lemma ChangedAlong.keys (hR : ∀ t t', R t t' → t'.map Prod.fst = stand (t.map Prod.fst) ⟨F, b⟩)
    (hF : F ≠ [] ∨ b = false) (h : ChangedAlong R P es es') :
    es'.map Prod.fst = stand (es.map Prod.fst) ⟨P ++ F, b⟩ := by
  rcases P with _ | ⟨k, P⟩
  · exact hR es es' h
  · rw [ChangedAt.keys h]
    rcases hF with hF | rfl
    · exact (stand_long _ _ (by simp [hF]) b).symm
    · exact (stand_cons _ _ _).symm

lemma ChangedAlong.moves
    (hR : ∀ t t', R t t' → t'.map Prod.fst = stand (t.map Prod.fst) ⟨F, b⟩)
    (hF : F ≠ [] ∨ b = false) (hP : P ≠ []) (h : ChangedAlong R P es es') :
    Moves [⟨P ++ F, b⟩] es es' where
  keys := h.keys hR hF
  inner := by
    intro k' o t' hl
    obtain ⟨k, P, rfl⟩ := List.exists_cons_of_ne_nil hP
    by_cases hk : k = k'
    · subst hk
      have hbelow := below_self k (P ++ F) b
      rcases ChangedAt.inner h with ⟨o₁, t, u, hu, hl₁, hr⟩ | ⟨ts, hl₁⟩
      · obtain ⟨-, rfl⟩ := Value.table.inj (Option.some.inj (hl₁.symm.trans hl))
        refine ⟨t, hu, ?_⟩
        rw [ChangedAlong.keys hR hF hr, List.cons_append, List.filterMap_cons_some hbelow]
        rfl
      · simp [hl₁] at hl
    · have hbelow := below_other hk (P ++ F) b
      refine ⟨t', .inr ⟨o, (ChangedAt.others h k' (Ne.symm hk)).symm.trans hl⟩, ?_⟩
      rw [List.cons_append, List.filterMap_cons_none hbelow]
      rfl

/-- The keys behind a path of more than one part stand in no table near the root. -/
lemma Moves.assign (hP : 2 ≤ P.length) (h : Moves [⟨P, false⟩] es es') (new : List String) :
    Moves (keyMarks P new) es es' := by
  obtain ⟨a, b, rest, rfl⟩ : ∃ a b rest, P = a :: b :: rest := by
    match P, hP with
    | a :: b :: rest, _ => exact ⟨a, b, rest, rfl⟩
  refine ⟨?_, fun k o t' hl => ?_⟩
  · rw [h.keys, foldl_stand_keyMarks, List.foldl_cons, List.foldl_nil]
    exact stand_cons _ _ _
  · obtain ⟨t, hu, ht⟩ := h.inner k o t' hl
    refine ⟨t, hu, ?_⟩
    by_cases hk : a = k
    · subst hk
      rw [ht, List.filterMap_cons_some (below_self a _ false), keyMarks_below_self,
        foldl_stand_keyMarks, List.filterMap_nil, List.foldl_cons, List.foldl_nil]
      exact stand_cons _ _ _
    · rw [ht, List.filterMap_cons_none (below_other hk _ false), keyMarks_below_other hk]
      rfl

/-- A new value stands at the end, and the keys of a table between braces as they are written. -/
lemma moves_value (hl : es.lookup key = none) (hv : v.Distinct) :
    Moves (keyMarks [key] v.keys) es (es ++ [(key, v)]) where
  keys := by rw [foldl_stand_keyMarks, keys_snoc_new hl]
  inner := by
    intro k o t' hk
    by_cases he : key = k
    · subst he
      obtain rfl := Option.some.inj ((lookup_snoc_new hl v).symm.trans hk)
      have hnew : ([] ++ t'.map Prod.fst).Nodup := hv.entries.keys
      refine ⟨[], .inl ⟨hl, rfl⟩, ?_⟩
      rw [keyMarks_below_self]
      exact (foldl_stand_new hnew).symm
    · refine ⟨t', .inr ⟨o, (lookup_snoc_of_ne (Ne.symm he) es v).symm.trans hk⟩, ?_⟩
      rw [keyMarks_below_other he]
      rfl

/-- A table under its own header goes to the end, with what was in it. -/
lemma moves_header (hu : Under es key body) :
    Moves [⟨[key], true⟩] es ((es.filter fun e => e.1 ≠ key) ++ [(key, .table .header body)]) where
  keys := by
    rw [keys_snoc, List.foldl_cons, List.foldl_nil]
    show _ = (es.map Prod.fst).filter (· ≠ key) ++ [key]
    rw [List.filter_map]
    rfl
  inner := by
    intro k o t' hl
    by_cases he : key = k
    · subst he
      rw [lookup_snoc_new (lookup_filter_self key es)] at hl
      obtain ⟨-, rfl⟩ := Value.table.inj (Option.some.inj hl)
      refine ⟨body, hu, ?_⟩
      rw [List.filterMap_cons_some (below_self key [] true)]
      rfl
    · rw [lookup_snoc_of_ne (Ne.symm he), lookup_filter_of_ne (Ne.symm he)] at hl
      refine ⟨t', .inr ⟨o, hl⟩, ?_⟩
      rw [List.filterMap_cons_none (below_other he [] true)]
      rfl

/-! ### What lines change -/

/-- The table that a header opens goes to the end, as a table of its own. -/
lemma opened_header {u : Unit} (ht : takeOut key es = some (body, c))
    (hp : putBack key body c = some (u, es')) : Under es key body ∧
      es' = (es.filter fun e => e.1 ≠ key) ++ [(key, .table .header body)] := by
  unfold putBack at hp
  split_ifs at hp
  obtain ⟨-, rfl⟩ := Prod.mk.inj (Option.some.inj hp)
  unfold takeOut at ht
  split at ht
  · rename_i hl
    obtain ⟨rfl, rfl⟩ := Prod.mk.inj (Option.some.inj ht)
    refine ⟨.inl ⟨hl, rfl⟩, ?_⟩
    rw [List.filter_eq_self.mpr]
    intro e he
    have hne : e.1 ≠ key := by
      rintro rfl
      exact notMem_of_lookup hl (List.mem_map.mpr ⟨e, he, rfl⟩)
    simp [hne]
  · rename_i t hl
    obtain ⟨rfl, rfl⟩ := Prod.mk.inj (Option.some.inj ht)
    exact ⟨.inr ⟨.passage, hl⟩, rfl⟩
  · simp at ht

lemma changedAt_pushTable {u : Unit} (hp : pushTable key body es = some (u, es')) :
    ChangedAt key R es es' := by
  unfold pushTable at hp
  split at hp
  · obtain ⟨-, rfl⟩ := Prod.mk.inj (Option.some.inj hp)
    exact changedAt_array key _ _
  · simp at hp

/-- The array that a double header goes on with keeps its place. -/
lemma opened_array {u w : Unit} (ho : openArray key es = some (u, c))
    (hp : pushTable key body c = some (w, es')) : ChangedAt key (fun _ _ => False) es es' := by
  unfold openArray at ho
  split at ho
  · rename_i hl
    obtain ⟨-, rfl⟩ := Prod.mk.inj (Option.some.inj ho)
    have hfirst : ChangedAt key (fun _ _ => False) es (es ++ [(key, .array true [])]) := by
      rw [← put_new hl]
      exact changedAt_array key [] es
    refine (hfirst.comp (S := fun _ _ => False) (changedAt_pushTable hp)).mono ?_
    rintro t t' ⟨_, hf, -⟩
    exact hf
  · obtain ⟨-, rfl⟩ := Prod.mk.inj (Option.some.inj ho)
    exact changedAt_pushTable hp
  · simp at ho

/-- A section with other entries goes to its place as before, and differs only there. -/
lemma along_either {f f' : Entries → Option (Unit × Entries)} {u : Unit}
    (hff : ∀ c u e', f' c = some (u, e') → ∃ e, f c = some (u, e) ∧ ChangedAlong R Q e e')
    (h : Draft.along P f' c = some (u, es')) :
    ∃ es, Draft.along P f c = some (u, es) ∧ ChangedAlong R (P ++ Q) es es' := by
  unfold Draft.along at h ⊢
  generalize Origin.header = o at h ⊢
  induction P generalizing o c es' with
  | nil => exact hff c u es' h
  | cons k P ih =>
    rw [alter] at h ⊢
    split at h
    · rename_i hl
      obtain ⟨⟨a, t'⟩, ht, he⟩ := Option.map_eq_some_iff.mp h
      obtain ⟨rfl, rfl⟩ := Prod.mk.inj he
      obtain ⟨t, hf, hr⟩ := ih _ ht
      refine ⟨c ++ [(k, .table .passage t)], by simp [hf], ?_⟩
      rw [← put_new hl, ← put_new hl]
      exact changedAt_either k c (.inl ⟨_, t, t', rfl, rfl, hr⟩)
    · rename_i o' t₀ hl
      split_ifs at h with hon
      obtain ⟨⟨a, t'⟩, ht, he⟩ := Option.map_eq_some_iff.mp h
      obtain ⟨rfl, rfl⟩ := Prod.mk.inj he
      obtain ⟨t, hf, hr⟩ := ih _ ht
      refine ⟨put k (.table o' t) c, by simp [hon, hf], ?_⟩
      exact changedAt_either k c (.inl ⟨_, t, t', rfl, rfl, hr⟩)
    · rename_i ts hl
      split at h
      · rename_i o' t₀ hlast
        obtain ⟨⟨a, t'⟩, ht, he⟩ := Option.map_eq_some_iff.mp h
        obtain ⟨rfl, rfl⟩ := Prod.mk.inj he
        obtain ⟨t, hf, -⟩ := ih _ ht
        refine ⟨put k (.array true (ts.dropLast ++ [.table o' t])) c, by simp [hf], ?_⟩
        exact changedAt_either k c (.inr ⟨_, rfl⟩)
      · simp at h
    · simp at h

lemma putBack_either {t t' : Entries} {u : Unit} (h : R t t')
    (hp : putBack key t' c = some (u, es')) :
    ∃ es, putBack key t c = some (u, es) ∧ ChangedAlong R [key] es es' := by
  unfold putBack at hp ⊢
  split_ifs at hp ⊢ with hk
  obtain ⟨-, rfl⟩ := Prod.mk.inj (Option.some.inj hp)
  have hl : c.lookup key = none := Option.not_isSome_iff_eq_none.mp hk
  refine ⟨c ++ [(key, .table .header t)], rfl, ?_⟩
  rw [← put_new hl, ← put_new hl]
  exact changedAt_either key c (.inl ⟨_, t, t', rfl, rfl, h⟩)

lemma pushTable_either (t : Entries) {t' : Entries} {u : Unit}
    (hp : pushTable key t' c = some (u, es')) :
    ∃ es, pushTable key t c = some (u, es) ∧ ChangedAlong R [key] es es' := by
  unfold pushTable at hp ⊢
  split at hp
  · rename_i ts hl
    obtain ⟨-, rfl⟩ := Prod.mk.inj (Option.some.inj hp)
    refine ⟨put key (.array true (ts ++ [.table .header t])) c, rfl, ?_⟩
    exact changedAt_either key c (.inr ⟨_, rfl⟩)
  · simp at hp

/-- A key and its value, where a section takes them. -/
lemma insertHere_some {u : Unit} (h : insertHere path key v o es = some (u, es')) :
    es.lookup key = none ∧ es' = es ++ [(key, v)] := by
  unfold insertHere at h
  split_ifs at h with _ hk
  obtain ⟨-, rfl⟩ := Prod.mk.inj (Option.some.inj h)
  exact ⟨Option.not_isSome_iff_eq_none.mp hk, rfl⟩

lemma changedAlong_insertDotted (h : insertDotted o path key v es = some es') :
    ChangedAlong (fun t t' => t.lookup key = none ∧ t' = t ++ [(key, v)]) path es es' := by
  obtain ⟨⟨u, _⟩, ha, rfl⟩ := Option.map_eq_some_iff.mp h
  exact (changedAlong_alter ha).mono fun _ _ ⟨_, hi⟩ => insertHere_some hi

lemma keys_insertDotted (h : insertDotted o path key v es = some es') :
    es'.map Prod.fst = stand (es.map Prod.fst) ⟨path ++ [key], false⟩ := by
  refine (changedAlong_insertDotted h).keys ?_ (.inr rfl)
  rintro t _ ⟨hl, rfl⟩
  exact keys_snoc_new hl v

/-- A key with its value in the section of the document itself. -/
lemma moves_insertDotted (hv : v.Distinct) (h : insertDotted o path key v es = some es') :
    Moves (keyMarks (path ++ [key]) v.keys) es es' := by
  have hin := changedAlong_insertDotted h
  rcases path with _ | ⟨a, path⟩
  · obtain ⟨hl, rfl⟩ := hin
    exact moves_value hl hv
  · refine Moves.assign (by simp) (hin.moves ?_ (.inr rfl) (by simp)) v.keys
    rintro t _ ⟨hl, rfl⟩
    exact keys_snoc_new hl v

/-! ### Documents -/

/-- The keys of a document and of the tables in it stand as marks say. -/
structure Ordered (ms : List Mark) (es : Entries) : Prop where
  keys : es.map Prod.fst = keyOrder ms
  inner : ∀ k o t, es.lookup k = some (.table o t) →
    t.map Prod.fst = keyOrder (ms.filterMap (Mark.below k))

lemma ordered_nil : Ordered [] [] := ⟨rfl, by simp⟩

lemma Ordered.moves (h : Ordered ms es) (hm : Moves ms' es es') : Ordered (ms ++ ms') es' where
  keys := by rw [hm.keys, h.keys, keyOrder, keyOrder, List.foldl_append]
  inner := by
    intro k o t' hl
    obtain ⟨t, hu, ht⟩ := hm.inner k o t' hl
    have hbefore : t.map Prod.fst = keyOrder (ms.filterMap (Mark.below k)) := by
      rcases hu with ⟨hnone, rfl⟩ | ⟨o', hl'⟩
      · rw [below_eq_nil (by rw [← h.keys]; exact notMem_of_lookup hnone)]
        rfl
      · exact h.inner k o' t hl'
    rw [ht, hbefore, keyOrder, keyOrder, List.filterMap_append, List.foldl_append]

namespace Draft

variable {d d' : Draft}

/-- The document so far is ordered as marks say, if it may end here. -/
def Ordered (ms : List Mark) (d : Draft) : Prop := ∀ es, d.close = some es → Toml.Ordered ms es

/-- A key with its value in a section under a header. -/
lemma moves_section {f f' : Entries → Option (Unit × Entries)} {u : Unit}
    (hff : ∀ c u e', f' c = some (u, e') → ∃ e, f c = some (u, e) ∧
      ChangedAlong (fun t t' => t'.map Prod.fst = stand (t.map Prod.fst) ⟨path ++ [key], false⟩)
        [k] e e')
    (h : along P f' c = some (u, es')) : ∃ es, along P f c = some (u, es) ∧
      Moves (keyMarks (P ++ [k] ++ (path ++ [key])) v.keys) es es' := by
  obtain ⟨es, hes, hch⟩ := along_either hff h
  refine ⟨es, hes, Moves.assign ?_ (hch.moves (fun _ _ hr => hr) (.inr rfl) (by simp)) v.keys⟩
  simp only [List.length_append, List.length_cons, List.length_nil]
  omega

lemma moves_assign (hv : v.Distinct) (hs : d.step (.assign path key v) = some d')
    (hc : d'.close = some es') : ∃ es, d.close = some es ∧
      Moves ((Line.assign path key v).marks d.place.path) es es' := by
  obtain ⟨body, hb, rfl⟩ := Option.map_eq_some_iff.mp hs
  rcases d with ⟨closed, _ | ⟨P, k⟩ | ⟨P, k⟩, body₀⟩
  · obtain rfl := Option.some.inj hc
    exact ⟨body₀, rfl, moves_insertDotted hv hb⟩
  · obtain ⟨⟨u, _⟩, ha, rfl⟩ := Option.map_eq_some_iff.mp hc
    obtain ⟨es, hes, hm⟩ := moves_section (f := putBack k body₀)
      (fun c u e' => putBack_either (keys_insertDotted hb)) ha
    exact ⟨es, by simp [close, hes], hm⟩
  · obtain ⟨⟨u, _⟩, ha, rfl⟩ := Option.map_eq_some_iff.mp hc
    obtain ⟨es, hes, hm⟩ := moves_section (f := pushTable k body₀)
      (fun c u e' => pushTable_either body₀) ha
    exact ⟨es, by simp [close, hes], hm⟩

lemma moves_headerStep (hs : d.step (.header path key) = some d') (hc : d'.close = some es') :
    ∃ es, d.close = some es ∧ Moves [⟨path ++ [key], true⟩] es es' := by
  obtain ⟨es, hes, hs⟩ := Option.bind_eq_some_iff.mp hs
  obtain ⟨⟨body, closed⟩, ha, hs⟩ := Option.bind_eq_some_iff.mp hs
  obtain rfl := Option.some.inj hs
  obtain ⟨⟨u, _⟩, hb, rfl⟩ := Option.map_eq_some_iff.mp hc
  refine ⟨es, hes, ?_⟩
  have hch := (changedAlong_alter ha).comp (changedAlong_alter hb)
  rcases path with _ | ⟨a, path⟩
  · obtain ⟨_, ⟨_, ht⟩, _, hp⟩ := hch
    obtain ⟨hu, rfl⟩ := opened_header ht hp
    exact moves_header hu
  · refine hch.moves ?_ (.inl (by simp)) (by simp)
    rintro t t' ⟨_, ⟨_, ht⟩, _, hp⟩
    obtain ⟨hu, rfl⟩ := opened_header ht hp
    exact (moves_header hu).keys

lemma moves_arrayStep (hs : d.step (.arrayHeader path key) = some d')
    (hc : d'.close = some es') :
    ∃ es, d.close = some es ∧ Moves [⟨path ++ [key], false⟩] es es' := by
  obtain ⟨es, hes, hs⟩ := Option.bind_eq_some_iff.mp hs
  obtain ⟨⟨u, closed⟩, ha, hs⟩ := Option.bind_eq_some_iff.mp hs
  obtain rfl := Option.some.inj hs
  obtain ⟨⟨w, es'⟩, hb, rfl⟩ := Option.map_eq_some_iff.mp hc
  refine ⟨es, hes, ?_⟩
  have hch : ChangedAlong (fun _ _ => False) (path ++ [key]) es es' := by
    refine (changedAlong_append path).mpr
      (((changedAlong_alter ha).comp (changedAlong_alter hb)).mono ?_)
    rintro t t' ⟨_, ⟨_, ho⟩, _, hp⟩
    exact opened_array ho hp
  simpa using hch.moves (F := []) (b := false) (fun _ _ hf => hf.elim) (.inr rfl) (by simp)

lemma place_step {l : Line} (hs : d.step l = some d') :
    d'.place.path = l.place d.place.path := by
  rcases l with _ | ⟨path, key⟩ | ⟨path, key⟩ | ⟨path, key, v⟩
  · obtain rfl := Option.some.inj hs
    rfl
  · obtain ⟨es, -, hs⟩ := Option.bind_eq_some_iff.mp hs
    obtain ⟨⟨body, closed⟩, -, hs⟩ := Option.bind_eq_some_iff.mp hs
    obtain rfl := Option.some.inj hs
    rfl
  · obtain ⟨es, -, hs⟩ := Option.bind_eq_some_iff.mp hs
    obtain ⟨⟨u, closed⟩, -, hs⟩ := Option.bind_eq_some_iff.mp hs
    obtain rfl := Option.some.inj hs
    rfl
  · obtain ⟨body, -, rfl⟩ := Option.map_eq_some_iff.mp hs
    rfl

/-- Each line places keys as its marks say. -/
lemma Ordered.step {l : Line} (h : d.Ordered ms) (hl : l.Distinct) (hs : d.step l = some d') :
    d'.Ordered (ms ++ l.marks d.place.path) := by
  intro es' hc
  rcases l with _ | ⟨path, key⟩ | ⟨path, key⟩ | ⟨path, key, v⟩
  · obtain rfl := Option.some.inj hs
    exact (h es' hc).moves (moves_nil es')
  · obtain ⟨es, hes, hm⟩ := moves_headerStep hs hc
    exact (h es hes).moves hm
  · obtain ⟨es, hes, hm⟩ := moves_arrayStep hs hc
    exact (h es hes).moves hm
  · obtain ⟨es, hes, hm⟩ := moves_assign hl hs hc
    exact (h es hes).moves hm

lemma Ordered.foldlM {ls : List Line} (h : d.Ordered ms) (hl : ∀ l ∈ ls, l.Distinct)
    (hs : ls.foldlM Draft.step d = some d') : d'.Ordered (ms ++ marks d.place.path ls) := by
  induction ls generalizing d ms with
  | nil =>
    obtain rfl := Option.some.inj hs
    simpa [marks] using h
  | cons l ls ih =>
    rw [List.foldlM_cons] at hs
    obtain ⟨d₁, h₁, hs⟩ := Option.bind_eq_some_iff.mp hs
    obtain ⟨hl₁, hrest⟩ := List.forall_mem_cons.mp hl
    have hmore := ih (h.step hl₁ h₁) hrest hs
    rw [place_step h₁, List.append_assoc] at hmore
    exact hmore

end Draft

/-- **Where the keys stand**: in the document and in each table of it, as the lines say. -/
theorem ordered_assemble {ls : List Line} (hl : ∀ l ∈ ls, l.Distinct)
    (h : assemble? ls = some es) : Ordered (marks [] ls) es := by
  obtain ⟨d, hd, hc⟩ := Option.bind_eq_some_iff.mp h
  have hstart : Draft.empty.Ordered [] := by
    intro es hes
    obtain rfl := Option.some.inj hes
    exact ordered_nil
  exact hstart.foldlM hl hd es hc

end PinnedBuild.Toml
