import Mathlib
import PinnedBuild.Proofs.Toml.Values
import PinnedBuild.Toml.Document

/-!
A document of plain keys and one section after them is read as the table that it was written from.
-/

namespace PinnedBuild.Toml

/-- A key that needs no quotes. -/
def BareKey (key : String) : Prop := key.toList ≠ [] ∧ ∀ c ∈ key.toList, isBare c = true

instance (key : String) : Decidable (BareKey key) :=
  inferInstanceAs (Decidable (key.toList ≠ [] ∧ ∀ c ∈ key.toList, isBare c = true))

/-- A key with the text of its value, and the value that it is read as. -/
structure Field where
  key : String
  text : List Char
  value : Value

namespace Field

/-- The key needs no quotes, and the text is that of the value. -/
structure Good (f : Field) : Prop where
  bare : BareKey f.key
  written : Written f.text f.value

def write (f : Field) : List Char := Writer.entry f.key f.text

def line (f : Field) : Line := .assign [] f.key f.value

def entry (f : Field) : String × Value := (f.key, f.value)

end Field

variable {c : Char} {r rest name : List Char} {key : String}

/-! ### Keys -/

lemma isPlain_of_isBare (h : isBare c = true) : isPlain c = true := by
  have hrange : 0x20 ≤ c.toNat ∧ c.toNat ≠ 0x7F := by
    simp only [isBare, Char.isAlphanum, Char.isAlpha, Char.isUpper, Char.isLower, Char.isDigit,
      Bool.or_eq_true, Bool.and_eq_true, decide_eq_true_eq, UInt32.le_iff_toNat_le, ge_iff_le] at h
    have hval : c.val.toNat = c.toNat := rfl
    rw [hval] at h
    rcases h with (((h | h) | h) | rfl) | rfl
    · have h1 : 65 ≤ c.toNat := h.1
      have h2 : c.toNat ≤ 90 := h.2
      omega
    · have h1 : 97 ≤ c.toNat := h.1
      have h2 : c.toNat ≤ 122 := h.2
      omega
    · have h1 : 48 ≤ c.toNat := h.1
      have h2 : c.toNat ≤ 57 := h.2
      omega
    · decide
    · decide
  simp [isPlain, hrange]

lemma ne_of_isBare (h : isBare c = true) {d : Char} (hd : isBare d = false) : c ≠ d := by
  rintro rfl
  simp [h] at hd

lemma isBlank_of_isBare (h : isBare c = true) : isBlank c = false := by
  rw [isBlank, Bool.or_eq_false_iff, decide_eq_false_iff_not, decide_eq_false_iff_not]
  exact ⟨ne_of_isBare h (by decide), ne_of_isBare h (by decide)⟩

/-- A name without quotes ends where a character stands that no such name has. -/
lemma keyPart?_bare (hne : name ≠ []) (hb : ∀ c ∈ name, isBare c = true) (hc : isBare c = false) :
    keyPart? (name ++ c :: r) = some (String.ofList name, c :: r) := by
  have htake : (name ++ c :: r).takeWhile isBare = name := by
    rw [List.takeWhile_append_of_pos hb, List.takeWhile_cons_of_neg (by simp [hc]), List.append_nil]
  have hdrop : (name ++ c :: r).dropWhile isBare = c :: r := by
    rw [List.dropWhile_append_of_pos hb, List.dropWhile_cons_of_neg (by simp [hc])]
  unfold keyPart?
  rw [htake, hdrop]
  obtain ⟨d, ds, rfl⟩ := List.exists_cons_of_ne_nil hne
  rfl

/-- A key of one part. -/
lemma key?_bare (hne : name ≠ []) (hb : ∀ c ∈ name, isBare c = true) (hc : isBare c = false)
    {d : Char} (hd : d ≠ '.') (hskip : skipBlanks (c :: r) = d :: rest) :
    key? (name ++ c :: r) = some ([], String.ofList name, d :: rest) := by
  have hblank : skipBlanks (name ++ c :: r) = name ++ c :: r := by
    obtain ⟨e, es, rfl⟩ := List.exists_cons_of_ne_nil hne
    exact skipBlanks_cons (isBlank_of_isBare (hb e (List.mem_cons_self ..))) _
  have hparts : keyParts? (name ++ c :: r) = some ([String.ofList name], d :: rest) := by
    rw [keyParts?.eq_def, hblank, keyPart?_bare hne hb hc]
    simp only
    rw [hskip]
    split
    · rename_i h
      exact absurd (List.cons.inj h).1 hd
    · rfl
  unfold key?
  rw [hparts]
  rfl

/-! ### Lines -/

lemma pair?_field {f : Field} (hf : f.Good) (rest : List Char) :
    pair? (value? depthLimit) (f.write ++ rest) = some (([], f.key, f.value), '\n' :: rest) := by
  have hw : f.write ++ rest = f.key.toList ++ ' ' :: '=' :: ' ' :: (f.text ++ '\n' :: rest) := by
    simp [Field.write, Writer.entry]
  have hkey := key?_bare (c := ' ') (d := '=') (r := '=' :: ' ' :: (f.text ++ '\n' :: rest))
    hf.bare.1 hf.bare.2 (by decide) (by decide) rfl
  have hskip : skipBlanks (' ' :: (f.text ++ '\n' :: rest)) = f.text ++ '\n' :: rest :=
    hf.written.head _
  unfold pair?
  rw [hw, hkey, String.ofList_toList]
  show (value? depthLimit (skipBlanks (' ' :: (f.text ++ '\n' :: rest)))).bind
    (fun p => some (([], f.key, p.1), skipBlanks p.2)) = _
  rw [hskip, hf.written.read]
  rfl

lemma line?_field {f : Field} (hf : f.Good) (rest : List Char) :
    line? (f.write ++ rest) = some (f.line, rest) := by
  have hp := pair?_field hf rest
  obtain ⟨c, r, hc⟩ : ∃ c r, f.write ++ rest = c :: r ∧ isBare c = true := by
    obtain ⟨c, r, hk⟩ := List.exists_cons_of_ne_nil hf.bare.1
    refine ⟨c, r ++ (" = ".toList ++ f.text ++ ['\n'] ++ rest), ?_, hf.bare.2 c (by simp [hk])⟩
    simp [Field.write, Writer.entry, hk]
  obtain ⟨hc, hb⟩ := hc
  have hbody : lineBody? (c :: r) = some (f.line, '\n' :: rest) := by
    unfold lineBody?
    split
    · rename_i h
      exact absurd (List.cons.inj h).1 (ne_of_isBare hb (by decide))
    · rename_i h
      exact absurd (List.cons.inj h).1 (ne_of_isBare hb (by decide))
    · rename_i h
      exact absurd (List.cons.inj h).1 (ne_of_isBare hb (by decide))
    · have hend : lineEnd? (c :: r) = none := newline?_of_isPlain (isPlain_of_isBare hb) r
      rw [hend, if_neg (by simp), ← hc, hp]
      rfl
  unfold line?
  rw [hc, skipBlanks_cons (isBlank_of_isBare hb), hbody]
  rfl

/-- A header of one key. -/
def headerOf (key : String) : List Char := '[' :: key.toList ++ [']', '\n']

lemma line?_header (hb : BareKey key) (rest : List Char) :
    line? (headerOf key ++ rest) = some (.header [] key, rest) := by
  have hw : headerOf key ++ rest = '[' :: (key.toList ++ ']' :: '\n' :: rest) := by simp [headerOf]
  have hkey := key?_bare (c := ']') (d := ']') (r := '\n' :: rest) hb.1 hb.2 (by decide) (by decide)
    rfl
  rw [String.ofList_toList] at hkey
  have hbody : lineBody? ('[' :: (key.toList ++ ']' :: '\n' :: rest)) =
      some (.header [] key, '\n' :: rest) := by
    obtain ⟨c, cs, hc⟩ := List.exists_cons_of_ne_nil hb.1
    have hne : c ≠ '[' := ne_of_isBare (hb.2 c (by simp [hc])) (by decide)
    unfold lineBody?
    split
    · rename_i h
      rw [hc] at h
      exact absurd (List.cons.inj (List.cons.inj h).2).1 hne
    · rename_i h
      obtain rfl := (List.cons.inj h).2
      rw [hkey]
      rfl
    · rename_i h
      simp at h
    · rename_i h _
      exact absurd rfl (h _)
  unfold line?
  rw [hw, skipBlanks_cons rfl, hbody]
  rfl

lemma lines?_cons {s : List Char} {l : Line} (h : line? s = some (l, rest))
    (hl : rest.length < s.length) : lines? s = (lines? rest).map fun ls => l :: ls := by
  have hne : s.isEmpty = false := by
    rcases s with _ | ⟨c, s⟩
    · simp at hl
    · rfl
  rw [lines?.eq_def, hne, h]
  simp [hl]

lemma lines?_fields {fs : List Field} (hf : ∀ f ∈ fs, f.Good) (rest : List Char) :
    lines? (fs.flatMap Field.write ++ rest) =
      (lines? rest).map fun ls => fs.map Field.line ++ ls := by
  induction fs with
  | nil => simp
  | cons f fs ih =>
    have hgood := hf f (List.mem_cons_self ..)
    have hl : (fs.flatMap Field.write ++ rest).length <
        (f.write ++ (fs.flatMap Field.write ++ rest)).length := by
      have hpos : 0 < f.write.length := by simp [Field.write, Writer.entry]
      have hsum : (f.write ++ (fs.flatMap Field.write ++ rest)).length =
          f.write.length + (fs.flatMap Field.write ++ rest).length := List.length_append
      omega
    rw [List.flatMap_cons, List.append_assoc, lines?_cons (line?_field hgood _) hl,
      ih fun g hg => hf g (List.mem_cons_of_mem _ hg), Option.map_map]
    rfl

/-! ### Tables -/

lemma lookup_append_of_notMem {es : Entries} {k : String} (hk : k ∉ es.map Prod.fst)
    (more : Entries) : (es ++ more).lookup k = more.lookup k := by
  induction es with
  | nil => rfl
  | cons e es ih =>
    simp only [List.map_cons, List.mem_cons, not_or] at hk
    rw [List.cons_append, List.lookup_cons, beq_false_of_ne hk.1]
    exact ih hk.2

lemma lookup_of_notMem {es : Entries} {k : String} (hk : k ∉ es.map Prod.fst) :
    es.lookup k = none := by
  have h := lookup_append_of_notMem hk []
  rwa [List.append_nil] at h

/-- Fields whose keys are new are added to the open section in their order. -/
lemma foldlM_fields (fs : List Field) (d : Draft)
    (hnew : (d.body.map Prod.fst ++ fs.map Field.key).Nodup) :
    (fs.map Field.line).foldlM Draft.step d =
      some { d with body := d.body ++ fs.map Field.entry } := by
  induction fs generalizing d with
  | nil => simp
  | cons f fs ih =>
    have hk : f.key ∉ d.body.map Prod.fst := by
      intro hm
      exact (List.nodup_append.mp hnew).2.2 f.key hm f.key (by simp) rfl
    have hstep : d.step f.line = some { d with body := d.body ++ [f.entry] } := by
      have hlook := lookup_of_notMem hk
      simp [Draft.step, Field.line, insertDotted, alter, insertHere, hlook, Field.entry]
    have hnew' : (({ d with body := d.body ++ [f.entry] } : Draft).body.map Prod.fst ++
        fs.map Field.key).Nodup := by
      simpa [Field.entry] using hnew
    rw [List.map_cons, List.foldlM_cons, hstep]
    show (fs.map Field.line).foldlM Draft.step _ = _
    rw [ih _ hnew']
    simp

/-- The lines of fields, and of fields under one header after them. -/
lemma lines?_document {fs gs : List Field} (hf : ∀ f ∈ fs, f.Good) (hg : ∀ g ∈ gs, g.Good)
    (hb : BareKey key) :
    lines? (fs.flatMap Field.write ++ '\n' :: headerOf key ++ gs.flatMap Field.write) =
      some (fs.map Field.line ++ .blank :: .header [] key ::
        gs.map Field.line) := by
  have hlast : lines? (gs.flatMap Field.write) = some (gs.map Field.line) := by
    have h := lines?_fields hg []
    rw [List.append_nil] at h
    rw [h, lines?]
    simp
  have hheader : lines? (headerOf key ++ gs.flatMap Field.write) =
      some (.header [] key :: gs.map Field.line) := by
    have hl : (gs.flatMap Field.write).length <
        (headerOf key ++ gs.flatMap Field.write).length := by
      rw [List.length_append, headerOf]
      simp only [List.cons_append, List.length_cons]
      omega
    rw [lines?_cons (line?_header hb _) hl, hlast]
    rfl
  have hblank : lines? ('\n' :: (headerOf key ++ gs.flatMap Field.write)) =
      some (.blank :: .header [] key :: gs.map Field.line) := by
    have hline : line? ('\n' :: (headerOf key ++ gs.flatMap Field.write)) =
        some (.blank, headerOf key ++ gs.flatMap Field.write) := rfl
    rw [lines?_cons hline (by simp), hheader]
    rfl
  rw [List.append_assoc, List.cons_append, lines?_fields hf, hblank]
  rfl

lemma assemble?_document {fs gs : List Field}
    (hfs : (fs.map Field.key ++ [key]).Nodup) (hgs : (gs.map Field.key).Nodup) :
    assemble? (fs.map Field.line ++ .blank :: .header [] key :: gs.map Field.line) =
      some (fs.map Field.entry ++ [(key, .table .header (gs.map Field.entry))]) := by
  have hkeys : (fs.map Field.entry).map Prod.fst = fs.map Field.key := by
    simp [Field.entry, Function.comp_def]
  have hk : key ∉ (fs.map Field.entry).map Prod.fst := by
    rw [hkeys]
    intro hm
    exact (List.nodup_append.mp hfs).2.2 key hm key (by simp) rfl
  have hlook := lookup_of_notMem hk
  have hroot : (fs.map Field.line).foldlM Draft.step .empty =
      some ⟨[], .root, fs.map Field.entry⟩ := by
    rw [foldlM_fields fs .empty (by simpa [Draft.empty] using (List.nodup_append.mp hfs).1)]
    rfl
  have hopen : Draft.step ⟨[], .root, fs.map Field.entry⟩ (.header [] key) =
      some ⟨fs.map Field.entry, .table [] key, []⟩ := by
    simp [Draft.step, Draft.close, Draft.along, alter, takeOut, hlook]
  have hsection : (gs.map Field.line).foldlM Draft.step ⟨fs.map Field.entry, .table [] key, []⟩ =
      some ⟨fs.map Field.entry, .table [] key, gs.map Field.entry⟩ := by
    rw [foldlM_fields gs _ (by simpa using hgs)]
    rfl
  have hclose : Draft.close ⟨fs.map Field.entry, .table [] key, gs.map Field.entry⟩ =
      some (fs.map Field.entry ++ [(key, .table .header (gs.map Field.entry))]) := by
    simp [Draft.close, Draft.along, alter, putBack, hlook]
  unfold assemble?
  rw [List.foldlM_append, hroot]
  show ((Draft.step ⟨[], .root, fs.map Field.entry⟩ (.header [] key)).bind fun d =>
    (gs.map Field.line).foldlM Draft.step d).bind Draft.close = _
  rw [hopen, Option.bind_some, hsection, Option.bind_some, hclose]

/-- No mark stands in front of a field. -/
lemma skipMark_field {f : Field} (hf : f.Good) (rest : List Char) :
    skipMark (f.write ++ rest) = f.write ++ rest := by
  obtain ⟨c, r, hk⟩ := List.exists_cons_of_ne_nil hf.bare.1
  have hmark : c ≠ '\uFEFF' := ne_of_isBare (hf.bare.2 c (by simp [hk])) (by decide)
  have hw : f.write ++ rest = c :: (r ++ (" = ".toList ++ f.text ++ ['\n'] ++ rest)) := by
    simp [Field.write, Writer.entry, hk]
  rw [hw]
  unfold skipMark
  split
  · rename_i h
    exact absurd (List.cons.inj h).1 hmark
  · rfl

/-- **Documents**: fields, and fields under one header after them, are read as a table that holds
another. -/
theorem document?_fields {fs gs : List Field} (hf : ∀ f ∈ fs, f.Good) (hg : ∀ g ∈ gs, g.Good)
    (hb : BareKey key) (hfs : (fs.map Field.key ++ [key]).Nodup) (hgs : (gs.map Field.key).Nodup) :
    document? (String.ofList (fs.flatMap Field.write ++ '\n' :: headerOf key ++
      gs.flatMap Field.write)) =
    some (fs.map Field.entry ++ [(key, .table .header (gs.map Field.entry))]) := by
  have hmark : skipMark (fs.flatMap Field.write ++ '\n' :: headerOf key ++
      gs.flatMap Field.write) =
      fs.flatMap Field.write ++ '\n' :: headerOf key ++ gs.flatMap Field.write := by
    rcases fs with _ | ⟨f, fs⟩
    · rfl
    · rw [List.flatMap_cons, List.append_assoc, List.append_assoc]
      exact skipMark_field (hf f (List.mem_cons_self ..)) _
  rw [document?, String.toList_ofList, hmark, lines?_document hf hg hb, Option.bind_some,
    assemble?_document hfs hgs]

end PinnedBuild.Toml
