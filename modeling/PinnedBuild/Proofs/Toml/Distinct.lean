import Mathlib
import PinnedBuild.Proofs.Toml.Lines

/-!
No table of a document holds a key twice, at any depth.
-/

namespace PinnedBuild.Toml

/-- In each table in it every key stands once. -/
inductive Value.Distinct : Value → Prop
  | string (s : String) : Distinct (.string s)
  | integer (n : Int) : Distinct (.integer n)
  | float (x : Binary64) : Distinct (.float x)
  | boolean (b : Bool) : Distinct (.boolean b)
  | datetime (text : String) : Distinct (.datetime text)
  | array {g : Bool} {vs : List Value} (h : ∀ v ∈ vs, Distinct v) : Distinct (.array g vs)
  | table {o : Origin} {es : Entries} (keys : (es.map Prod.fst).Nodup)
      (values : ∀ e ∈ es, Distinct e.2) : Distinct (.table o es)

/-- Every key stands once, here and in each table below. -/
structure Distinct (es : Entries) : Prop where
  keys : (es.map Prod.fst).Nodup
  values : ∀ e ∈ es, e.2.Distinct

variable {es es' body : Entries} {k key : String} {v : Value} {o : Origin} {g : Bool}
  {vs : List Value} {path : List String}

lemma distinct_nil : Distinct [] := ⟨List.nodup_nil, by simp⟩

lemma Distinct.table (h : Distinct es) (o : Origin) : (Value.table o es).Distinct :=
  .table h.keys h.values

lemma Value.Distinct.entries (h : (Value.table o es).Distinct) : Toml.Distinct es := by
  rcases h with _ | _ | _ | _ | _ | _ | ⟨hk, hv⟩
  exact ⟨hk, hv⟩

lemma Value.Distinct.elements (h : (Value.array g vs).Distinct) : ∀ v ∈ vs, v.Distinct := by
  rcases h with _ | _ | _ | _ | _ | h
  exact h

/-! ### Looking up and changing -/

lemma mem_of_lookup (h : es.lookup k = some v) : (k, v) ∈ es := by
  obtain ⟨front, rest, rfl, -⟩ := List.lookup_eq_some_iff.mp h
  simp

lemma notMem_of_lookup (h : es.lookup k = none) : k ∉ es.map Prod.fst := by
  intro hk
  obtain ⟨e, he, rfl⟩ := List.mem_map.mp hk
  simpa using List.lookup_eq_none_iff.mp h e he

/-- Where keys are not repeated, what stands under a key is what is found. -/
lemma lookup_of_mem (h : (es.map Prod.fst).Nodup) (hm : (k, v) ∈ es) : es.lookup k = some v := by
  induction es with
  | nil => simp at hm
  | cons e es ih =>
    obtain ⟨hk, hrest⟩ := List.nodup_cons.mp h
    rw [List.lookup_cons]
    rcases List.mem_cons.mp hm with rfl | hm
    · simp
    · have hne : k ≠ e.1 := by
        rintro rfl
        exact hk (List.mem_map.mpr ⟨_, hm, rfl⟩)
      rw [beq_false_of_ne hne]
      exact ih hrest hm

lemma Distinct.lookup (h : Distinct es) (hl : es.lookup k = some v) : v.Distinct :=
  h.values _ (mem_of_lookup hl)

lemma Distinct.snoc (h : Distinct es) (hk : es.lookup k = none) (hv : v.Distinct) :
    Distinct (es ++ [(k, v)]) where
  keys := by
    rw [List.map_append, List.nodup_append]
    refine ⟨h.keys, by simp, ?_⟩
    rintro _ hx _ hy rfl
    obtain rfl : _ = k := by simpa using hy
    exact notMem_of_lookup hk hx
  values := by
    intro e he
    rcases List.mem_append.mp he with he | he
    · exact h.values e he
    · obtain rfl : e = (k, v) := by simpa using he
      exact hv

lemma Distinct.put (h : Distinct es) (hv : v.Distinct) : Distinct (put k v es) := by
  unfold Toml.put
  split
  · have hkeys : (es.map fun e => if e.1 = k then (k, v) else e).map Prod.fst =
        es.map Prod.fst := by
      rw [List.map_map]
      refine List.map_congr_left fun e _ => ?_
      by_cases he : e.1 = k
      · simp [he]
      · simp [he]
    refine ⟨hkeys ▸ h.keys, fun e he => ?_⟩
    obtain ⟨e', he', rfl⟩ := List.mem_map.mp he
    split
    · exact hv
    · exact h.values e' he'
  · rename_i hk
    exact h.snoc (Option.not_isSome_iff_eq_none.mp hk) hv

lemma Distinct.filter (h : Distinct es) (p : String × Value → Bool) : Distinct (es.filter p) where
  keys := h.keys.sublist (List.Sublist.map _ List.filter_sublist)
  values e he := h.values e (List.mem_of_mem_filter he)

/-- A change at the end of a path that repeats no key there repeats none on the way. -/
lemma Distinct.alter {α : Type} {way : Origin} {f : Origin → Entries → Option (α × Entries)}
    {P : α → Prop} (hf : ∀ o es a es', Distinct es → f o es = some (a, es') → P a ∧ Distinct es')
    {a : α} (h : Distinct es) (ha : alter way f path o es = some (a, es')) :
    P a ∧ Distinct es' := by
  induction path generalizing o es es' with
  | nil => exact hf o es a es' h ha
  | cons k path ih =>
    rw [Toml.alter] at ha
    split at ha
    · rename_i hl
      obtain ⟨⟨a', t⟩, ht, he⟩ := Option.map_eq_some_iff.mp ha
      obtain ⟨rfl, rfl⟩ := Prod.mk.inj he
      obtain ⟨hP, ht⟩ := ih distinct_nil ht
      exact ⟨hP, h.snoc hl (ht.table way)⟩
    · rename_i o' t hl
      split_ifs at ha
      obtain ⟨⟨a', t'⟩, ht, he⟩ := Option.map_eq_some_iff.mp ha
      obtain ⟨rfl, rfl⟩ := Prod.mk.inj he
      obtain ⟨hP, ht⟩ := ih (h.lookup hl).entries ht
      exact ⟨hP, h.put (ht.table o')⟩
    · rename_i ts hl
      split at ha
      · rename_i o' t hlast
        have hts := (h.lookup hl).elements
        obtain ⟨⟨a', t'⟩, ht, he⟩ := Option.map_eq_some_iff.mp ha
        obtain ⟨rfl, rfl⟩ := Prod.mk.inj he
        obtain ⟨hP, ht⟩ := ih (hts _ (List.mem_of_getLast? hlast)).entries ht
        refine ⟨hP, h.put (.array fun v hv => ?_)⟩
        rcases List.mem_append.mp hv with hv | hv
        · exact hts v (List.mem_of_mem_dropLast hv)
        · obtain rfl : v = .table o' t' := by simpa using hv
          exact ht.table o'
      · simp at ha
    · simp at ha

lemma Distinct.insertDotted (h : Distinct es) (hv : v.Distinct)
    (hi : insertDotted o path key v es = some es') : Distinct es' := by
  obtain ⟨⟨u, es''⟩, ha, rfl⟩ := Option.map_eq_some_iff.mp hi
  refine (h.alter (P := fun _ => True) (fun o es u es' hd hf => ⟨trivial, ?_⟩) ha).2
  unfold insertHere at hf
  split_ifs at hf with h₁ h₂
  obtain ⟨-, rfl⟩ := Prod.mk.inj (Option.some.inj hf)
  exact hd.snoc (Option.not_isSome_iff_eq_none.mp h₂) hv

lemma Distinct.takeOut (h : Distinct es) (ht : takeOut key es = some (body, es')) :
    Distinct body ∧ Distinct es' := by
  unfold Toml.takeOut at ht
  split at ht
  · obtain ⟨rfl, rfl⟩ := Prod.mk.inj (Option.some.inj ht)
    exact ⟨distinct_nil, h⟩
  · rename_i t hl
    obtain ⟨rfl, rfl⟩ := Prod.mk.inj (Option.some.inj ht)
    exact ⟨(h.lookup hl).entries, h.filter _⟩
  · simp at ht

lemma Distinct.putBack {u : Unit} (hb : Distinct body) (h : Distinct es)
    (hp : putBack key body es = some (u, es')) : Distinct es' := by
  unfold Toml.putBack at hp
  split_ifs at hp with hk
  obtain ⟨-, rfl⟩ := Prod.mk.inj (Option.some.inj hp)
  exact h.snoc (Option.not_isSome_iff_eq_none.mp hk) (hb.table .header)

lemma Distinct.openArray {u : Unit} (h : Distinct es) (ho : openArray key es = some (u, es')) :
    Distinct es' := by
  unfold Toml.openArray at ho
  split at ho
  · rename_i hl
    obtain ⟨-, rfl⟩ := Prod.mk.inj (Option.some.inj ho)
    exact h.snoc hl (.array (by simp))
  · obtain ⟨-, rfl⟩ := Prod.mk.inj (Option.some.inj ho)
    exact h
  · simp at ho

lemma Distinct.pushTable {u : Unit} (hb : Distinct body) (h : Distinct es)
    (hp : pushTable key body es = some (u, es')) : Distinct es' := by
  unfold Toml.pushTable at hp
  split at hp
  · rename_i ts hl
    obtain ⟨-, rfl⟩ := Prod.mk.inj (Option.some.inj hp)
    refine h.put (.array fun v hv => ?_)
    rcases List.mem_append.mp hv with hv | hv
    · exact (h.lookup hl).elements v hv
    · obtain rfl : v = .table .header body := by simpa using hv
      exact hb.table .header
  · simp at hp

/-! ### Values -/

/-- What a reader reads repeats no key. -/
def ReadsDistinct (value? : List Char → Option (Value × List Char)) : Prop :=
  ∀ s v r, value? s = some (v, r) → v.Distinct

variable {value? : List Char → Option (Value × List Char)} {s r : List Char}

lemma readsDistinct_scalar : ReadsDistinct scalar? := by
  intro s v r h
  unfold scalar? at h
  simp only [Option.or_eq_some_iff, Option.map_eq_some_iff, Prod.mk.injEq, Prod.exists] at h
  rcases h with ⟨x, q, -, rfl, -⟩ | ⟨-, ⟨x, q, -, rfl, -⟩ | ⟨-, ⟨x, q, -, rfl, -⟩ | ⟨-,
    ⟨x, q, -, rfl, -⟩ | ⟨-, x, q, -, rfl, -⟩⟩⟩⟩
  · exact .string x
  · exact .boolean x
  · exact .datetime x
  · exact .float x
  · exact .integer x

lemma distinct_elements (hv : ReadsDistinct value?) (h : elements? value? s = some (vs, r)) :
    ∀ v ∈ vs, v.Distinct := by
  induction hn : s.length using Nat.strong_induction_on generalizing s vs r with
  | _ n ih =>
    rw [elements?] at h
    split at h
    · obtain ⟨rfl, -⟩ := Prod.mk.inj (Option.some.inj h)
      simp
    split at h
    · simp at h
    rename_i v q hq
    have hd := hv _ _ _ hq
    split at h
    · obtain ⟨rfl, -⟩ := Prod.mk.inj (Option.some.inj h)
      simpa using hd
    · split_ifs at h with hlt
      obtain ⟨⟨ws, rest⟩, hw, he⟩ := Option.map_eq_some_iff.mp h
      obtain ⟨rfl, -⟩ := Prod.mk.inj he
      exact List.forall_mem_cons.mpr ⟨hd, ih _ (hn ▸ hlt) hw rfl⟩
    · simp at h

lemma distinct_pair {p : List String × String × Value} (hv : ReadsDistinct value?)
    (h : pair? value? s = some (p, r)) : p.2.2.Distinct := by
  unfold pair? at h
  obtain ⟨⟨path, key, r₁⟩, -, h⟩ := Option.bind_eq_some_iff.mp h
  obtain ⟨r₂, -, h⟩ := Option.bind_eq_some_iff.mp h
  obtain ⟨⟨v, r₃⟩, hr, h⟩ := Option.bind_eq_some_iff.mp h
  obtain ⟨rfl, -⟩ := Prod.mk.inj (Option.some.inj h)
  exact hv _ _ _ hr

lemma distinct_pairs {ps : List (List String × String × Value)} (hv : ReadsDistinct value?)
    (h : pairs? value? s = some (ps, r)) : ∀ p ∈ ps, p.2.2.Distinct := by
  induction hn : s.length using Nat.strong_induction_on generalizing s ps r with
  | _ n ih =>
    rw [pairs?] at h
    split at h
    · simp at h
    rename_i p q hq
    have hd := distinct_pair hv hq
    split at h
    · obtain ⟨rfl, -⟩ := Prod.mk.inj (Option.some.inj h)
      simpa using hd
    · split_ifs at h with hlt
      obtain ⟨⟨ws, rest⟩, hw, he⟩ := Option.map_eq_some_iff.mp h
      obtain ⟨rfl, -⟩ := Prod.mk.inj he
      exact List.forall_mem_cons.mpr ⟨hd, ih _ (hn ▸ hlt) hw rfl⟩
    · simp at h

lemma distinct_insertAll {ps : List (List String × String × Value)} (h : Distinct es)
    (hps : ∀ p ∈ ps, p.2.2.Distinct)
    (hf : ps.foldlM (fun es (path, key, v) => insertDotted .inline path key v es) es = some es') :
    Distinct es' := by
  induction ps generalizing es with
  | nil =>
    obtain rfl := Option.some.inj hf
    exact h
  | cons p ps ih =>
    rw [List.foldlM_cons] at hf
    obtain ⟨es₁, h₁, hf⟩ := Option.bind_eq_some_iff.mp hf
    obtain ⟨hp, hrest⟩ := List.forall_mem_cons.mp hps
    exact ih (h.insertDotted hp h₁) hrest hf

lemma distinct_inlineEntries (hv : ReadsDistinct value?)
    (h : inlineEntries? value? s = some (es, r)) : Distinct es := by
  unfold inlineEntries? at h
  split at h
  · obtain ⟨rfl, -⟩ := Prod.mk.inj (Option.some.inj h)
    exact distinct_nil
  · obtain ⟨⟨ps, q⟩, hp, h⟩ := Option.bind_eq_some_iff.mp h
    obtain ⟨es', hf, h⟩ := Option.bind_eq_some_iff.mp h
    obtain ⟨rfl, -⟩ := Prod.mk.inj (Option.some.inj h)
    exact distinct_insertAll distinct_nil (distinct_pairs hv hp) hf

lemma readsDistinct_value (depth : Nat) : ReadsDistinct (Toml.value? depth) := by
  induction depth with
  | zero =>
    intro s v r h
    exact readsDistinct_scalar s v r (by simpa [Toml.value?] using h)
  | succ depth ih =>
    intro s v r h
    unfold Toml.value? at h
    split at h
    · rename_i n _ hn
      obtain rfl := Nat.succ.inj hn
      obtain ⟨⟨vs, q⟩, he, h⟩ := Option.map_eq_some_iff.mp h
      obtain ⟨rfl, -⟩ := Prod.mk.inj h
      exact .array (distinct_elements ih he)
    · rename_i n _ hn
      obtain rfl := Nat.succ.inj hn
      obtain ⟨⟨es, q⟩, he, h⟩ := Option.map_eq_some_iff.mp h
      obtain ⟨rfl, -⟩ := Prod.mk.inj h
      exact (distinct_inlineEntries ih he).table .inline
    · exact readsDistinct_scalar _ v r h

/-! ### Lines and documents -/

/-- A value on a line repeats no key. -/
def Line.Distinct : Line → Prop
  | .assign _ _ v => v.Distinct
  | _ => True

lemma distinct_line {l : Line} (h : line? s = some (l, r)) : l.Distinct := by
  unfold line? at h
  obtain ⟨⟨l', r₁⟩, hb, h⟩ := Option.bind_eq_some_iff.mp h
  obtain ⟨r₂, -, h⟩ := Option.bind_eq_some_iff.mp h
  obtain ⟨rfl, -⟩ := Prod.mk.inj (Option.some.inj h)
  unfold lineBody? at hb
  split at hb
  · obtain ⟨⟨path, key, r₁⟩, -, hb⟩ := Option.bind_eq_some_iff.mp hb
    obtain ⟨r₂, -, hb⟩ := Option.bind_eq_some_iff.mp hb
    obtain ⟨rfl, -⟩ := Prod.mk.inj (Option.some.inj hb)
    trivial
  · obtain ⟨⟨path, key, r₁⟩, -, hb⟩ := Option.bind_eq_some_iff.mp hb
    obtain ⟨r₂, -, hb⟩ := Option.bind_eq_some_iff.mp hb
    obtain ⟨rfl, -⟩ := Prod.mk.inj (Option.some.inj hb)
    trivial
  · obtain ⟨rfl, -⟩ := Prod.mk.inj (Option.some.inj hb)
    trivial
  · split_ifs at hb
    · obtain ⟨rfl, -⟩ := Prod.mk.inj (Option.some.inj hb)
      trivial
    · obtain ⟨⟨⟨path, key, v⟩, q⟩, hp, hb⟩ := Option.map_eq_some_iff.mp hb
      obtain ⟨rfl, -⟩ := Prod.mk.inj hb
      exact distinct_pair (readsDistinct_value depthLimit) hp

lemma distinct_lines {ls : List Line} (h : lines? s = some ls) : ∀ l ∈ ls, l.Distinct := by
  induction hn : s.length using Nat.strong_induction_on generalizing s ls with
  | _ n ih =>
    rw [lines?] at h
    split_ifs at h
    · obtain rfl := Option.some.inj h
      simp
    · split at h
      · simp at h
      · rename_i l rest hl
        split_ifs at h with hlt
        obtain ⟨more, hm, rfl⟩ := Option.map_eq_some_iff.mp h
        exact List.forall_mem_cons.mpr ⟨distinct_line hl, ih _ (hn ▸ hlt) hm rfl⟩

namespace Draft

variable {d d' : Draft}

/-- Neither the closed sections nor the open one repeat a key. -/
structure Distinct (d : Draft) : Prop where
  closed : Toml.Distinct d.closed
  body : Toml.Distinct d.body

lemma Distinct.close (h : d.Distinct) (hc : d.close = some es) : Toml.Distinct es := by
  unfold Draft.close at hc
  split at hc
  · obtain rfl := Option.some.inj hc
    exact h.body
  · obtain ⟨⟨u, es'⟩, ha, rfl⟩ := Option.map_eq_some_iff.mp hc
    exact (h.closed.alter (P := fun _ => True)
      (fun o es u es' hd hf => ⟨trivial, h.body.putBack hd hf⟩) ha).2
  · obtain ⟨⟨u, es'⟩, ha, rfl⟩ := Option.map_eq_some_iff.mp hc
    exact (h.closed.alter (P := fun _ => True)
      (fun o es u es' hd hf => ⟨trivial, h.body.pushTable hd hf⟩) ha).2

lemma Distinct.step {l : Line} (h : d.Distinct) (hl : l.Distinct) (hs : d.step l = some d') :
    d'.Distinct := by
  rcases l with _ | ⟨path, key⟩ | ⟨path, key⟩ | ⟨path, key, v⟩
  · obtain rfl := Option.some.inj hs
    exact h
  · obtain ⟨es, hc, hs⟩ := Option.bind_eq_some_iff.mp hs
    obtain ⟨⟨body, closed⟩, ha, hs⟩ := Option.bind_eq_some_iff.mp hs
    obtain rfl := Option.some.inj hs
    obtain ⟨hb, hd⟩ := (h.close hc).alter (P := Toml.Distinct)
      (fun o es u es' hd hf => hd.takeOut hf) ha
    exact ⟨hd, hb⟩
  · obtain ⟨es, hc, hs⟩ := Option.bind_eq_some_iff.mp hs
    obtain ⟨⟨u, closed⟩, ha, hs⟩ := Option.bind_eq_some_iff.mp hs
    obtain rfl := Option.some.inj hs
    obtain ⟨-, hd⟩ := (h.close hc).alter (P := fun _ => True)
      (fun o es u es' hd hf => ⟨trivial, hd.openArray hf⟩) ha
    exact ⟨hd, distinct_nil⟩
  · obtain ⟨body, hb, rfl⟩ := Option.map_eq_some_iff.mp hs
    exact ⟨h.closed, h.body.insertDotted hl hb⟩

lemma Distinct.foldlM {ls : List Line} (h : d.Distinct) (hl : ∀ l ∈ ls, l.Distinct)
    (hs : ls.foldlM Draft.step d = some d') : d'.Distinct := by
  induction ls generalizing d with
  | nil =>
    obtain rfl := Option.some.inj hs
    exact h
  | cons l ls ih =>
    rw [List.foldlM_cons] at hs
    obtain ⟨d₁, h₁, hs⟩ := Option.bind_eq_some_iff.mp hs
    obtain ⟨hd, hrest⟩ := List.forall_mem_cons.mp hl
    exact ih (h.step hd h₁) hrest hs

end Draft

lemma distinct_assemble {ls : List Line} (hl : ∀ l ∈ ls, l.Distinct)
    (h : assemble? ls = some es) : Distinct es := by
  obtain ⟨d, hd, hc⟩ := Option.bind_eq_some_iff.mp h
  have hempty : Draft.empty.Distinct := ⟨distinct_nil, distinct_nil⟩
  exact (hempty.foldlM hl hd).close hc

/-- **Keys**: no table of a document holds a key twice. -/
theorem distinct_document {text : String} (h : document? text = some es) : Distinct es := by
  obtain ⟨ls, hl, h⟩ := Option.bind_eq_some_iff.mp h
  exact distinct_assemble (distinct_lines hl) h

end PinnedBuild.Toml
