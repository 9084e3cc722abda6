import Mathlib
import PinnedBuild.Proofs.Archive.Integrity

/-!
Archives as they are written, and that reading them gives back what was put into them.

A file or a directory is written in the ustar layout. A path that does not fit into its header
stands in a member of its own before it.
-/

namespace PinnedBuild.Archive

open Files

/-! ### Numbers -/

/-- The character of an octal digit. -/
def octalDigit (d : Nat) : Char := Char.ofNat (48 + d % 8)

/-- The last octal digits of a number, most significant first. -/
def octalDigits : Nat → Nat → List Char
  | 0, _ => []
  | k + 1, n => octalDigits k (n / 8) ++ [octalDigit n]

/-- A number in a field of a header: its digits and a zero byte. -/
def octalField (k n : Nat) : Bytes := (octalDigits k n).map (fun c => UInt8.ofNat c.toNat) ++ [0]

lemma octalDigit_cases {P : Char → Prop} (n : Nat)
    (h : ∀ d < 8, P (Char.ofNat (48 + d))) : P (octalDigit n) := h _ (Nat.mod_lt _ (by decide))

@[simp] lemma length_octalDigits (k n : Nat) : (octalDigits k n).length = k := by
  induction k generalizing n with
  | zero => rfl
  | succ k ih => simp [octalDigits, ih]

@[simp] lemma length_octalField (k n : Nat) : (octalField k n).length = k + 1 := by
  simp [octalField]

lemma forall_octalDigits {P : Char → Prop} (h : ∀ d < 8, P (Char.ofNat (48 + d))) (k n : Nat) :
    ∀ c ∈ octalDigits k n, P c := by
  induction k generalizing n with
  | zero => simp [octalDigits]
  | succ k ih =>
    intro c hc
    rcases List.mem_append.mp hc with hc | hc
    · exact ih _ c hc
    · rw [List.mem_singleton.mp hc]
      exact octalDigit_cases n h

/-- Characters of one byte are spelt by their codes. -/
lemma decode?_ascii {cs : List Char} (h : ∀ c ∈ cs, c.toNat < 128) :
    Bytes.decode? (cs.map fun c => UInt8.ofNat c.toNat) = some (String.ofList cs) := by
  have hbytes : Bytes.ofString (String.ofList cs) = cs.map fun c => UInt8.ofNat c.toNat := by
    have henc : cs.flatMap String.utf8EncodeChar = cs.map fun c => UInt8.ofNat c.toNat := by
      induction cs with
      | nil => rfl
      | cons c cs ih =>
        have hc : c.val.toNat ≤ 127 := Nat.le_of_lt_succ (h c (by simp))
        rw [List.flatMap_cons, List.map_cons, ih fun d hd => h d (by simp [hd])]
        simp only [String.utf8EncodeChar, if_pos hc]
        rfl
    rw [← henc]
    simp [Bytes.ofString, String.toUTF8, List.utf8Encode]
  rw [← hbytes, Bytes.decode?_ofString]

namespace Header

lemma digits_octalDigits (k n acc : Nat) :
    (octalDigits k n).foldlM (fun n c =>
      let d := c.toNat - 48
      if c.isDigit ∧ d < 8 then some (n * 8 + d) else none) acc =
      some (acc * 8 ^ k + n % 8 ^ k) := by
  induction k generalizing n with
  | zero => simp [octalDigits, Nat.mod_one]
  | succ k ih =>
    have hdigit : (octalDigit n).isDigit = true ∧ (octalDigit n).toNat - 48 = n % 8 := by
      unfold octalDigit
      have hlt := Nat.mod_lt n (show 0 < 8 by decide)
      generalize n % 8 = d at hlt ⊢
      revert d
      decide
    have hlt := Nat.mod_lt n (show 0 < 8 by decide)
    rw [octalDigits, List.foldlM_append, ih]
    simp only [Option.bind_eq_bind, Option.bind_some, List.foldlM_cons, List.foldlM_nil, hdigit,
      hlt, and_self, if_true]
    rw [show 8 ^ (k + 1) = 8 * 8 ^ k by ring, Nat.mod_mul]
    simp only [Option.pure_def, Option.some.injEq]
    ring

lemma trim_of_noSpace {cs : List Char} (h : ∀ c ∈ cs, Text.isSpace c = false) :
    Text.trim cs = cs := by
  have hdrop : ∀ {cs : List Char}, (∀ c ∈ cs, Text.isSpace c = false) →
      cs.dropWhile Text.isSpace = cs := by
    intro cs h
    rcases cs with _ | ⟨c, cs⟩
    · rfl
    · rw [List.dropWhile_cons_of_neg (by simp [h c (by simp)])]
  unfold Text.trim
  rw [hdrop h, hdrop (by simpa using h), List.reverse_reverse]

lemma text_append_zero {b : Bytes} (h : 0 ∉ b) (rest : Bytes) : text (b ++ 0 :: rest) = b := by
  unfold text
  rw [List.takeWhile_append_of_pos fun x hx => ?_]
  · simp
  · simp only [bne_iff_ne, ne_eq]
    rintro rfl
    exact h hx

lemma zero_not_mem_octalDigits (k n : Nat) :
    0 ∉ (octalDigits k n).map fun c => UInt8.ofNat c.toNat := by
  intro h
  obtain ⟨c, hc, h0⟩ := List.mem_map.mp h
  exact forall_octalDigits (P := fun c => UInt8.ofNat c.toNat ≠ 0) (by decide) k n c hc h0

lemma number?_of_digits {base n : Nat} {cs : List Char} (hne : cs ≠ []) (hplus : '+' ∉ cs)
    (hd : cs.foldlM (fun n c =>
      let d := c.toNat - 48
      if c.isDigit ∧ d < base then some (n * base + d) else none) 0 = some n)
    (hn : n < UInt64.size) : number? base cs = some n := by
  unfold number?
  split
  · exact absurd (List.mem_cons_self ..) hplus
  · simp only
    rw [if_neg (by simpa using hne), hd]
    simpa [Option.filter] using hn

/-- A number is read back if it has no more digits than there is room for. -/
lemma octal?_octalField {k n : Nat} (hk : 0 < k) (hn : n < 8 ^ k) (hsize : n < UInt64.size)
    (rest : Bytes) : octal? (octalField k n ++ rest) = some n := by
  unfold octal? octalField
  rw [List.append_assoc, List.singleton_append,
    text_append_zero (zero_not_mem_octalDigits k n), decode?_ascii]
  · rw [Option.bind_some, String.toList_ofList,
      trim_of_noSpace (forall_octalDigits (by decide) k n)]
    have hdigits := digits_octalDigits k n 0
    rw [Nat.zero_mul, Nat.zero_add, Nat.mod_eq_of_lt hn] at hdigits
    refine number?_of_digits ?_ ?_ hdigits hsize
    · rw [← List.length_pos_iff, length_octalDigits]
      exact hk
    · exact fun h => forall_octalDigits (P := (· ≠ '+')) (by decide) k n _ h rfl
  · exact forall_octalDigits (by decide) k n

/-- The first byte of a number does not mark it as binary. -/
lemma headD_octalField (k n : Nat) : (octalField (k + 1) n).headD 0 &&& 0x80 = 0 := by
  unfold octalField
  rcases hcs : octalDigits (k + 1) n with _ | ⟨c, cs⟩
  · have := congrArg List.length hcs
    simp at this
  · refine forall_octalDigits (P := fun c => UInt8.ofNat c.toNat &&& 0x80 = 0) (by decide)
      (k + 1) n c ?_
    rw [hcs]
    exact List.mem_cons_self ..

lemma field_append {a b c : Bytes} {offset length : Nat} (ha : a.length = offset)
    (hb : b.length = length) : field (a ++ (b ++ c)) offset length = b := by
  unfold field
  rw [List.drop_left' ha, List.take_left' hb]

end Header

/-! ### A member of the ustar layout -/

def zeros (n : Nat) : Bytes := List.replicate n 0

@[simp] lemma length_zeros (n : Nat) : (zeros n).length = n := List.length_replicate

lemma zeros_add (m n : Nat) : zeros (m + n) = zeros m ++ zeros n :=
  List.replicate_add m n 0

def padded (length : Nat) (b : Bytes) : Bytes := b ++ zeros (length - b.length)

lemma length_padded {length : Nat} {b : Bytes} (h : b.length ≤ length) :
    (padded length b).length = length := by
  unfold padded
  rw [List.length_append, length_zeros]
  omega

def ustarMagic : Bytes := [117, 115, 116, 97, 114, 0, 48, 48]

/-- What stands before the checksum: the name, the permissions, the owner and its group, the size
and the time. -/
def headerFront (name : Bytes) (mode size : Nat) : Bytes :=
  padded 100 name ++ (octalField 7 mode ++ (octalField 7 0 ++ (octalField 7 0 ++
    (octalField 11 size ++ octalField 11 0))))

/-- What stands after it: the kind, no link, the layout, and no names of owners. -/
def headerBack (flag : UInt8) : Bytes := flag :: (zeros 100 ++ (ustarMagic ++ zeros 247))

def headerSum (flag : UInt8) (name : Bytes) (mode size : Nat) : Nat :=
  (headerFront name mode size ++ headerBack flag).foldl (fun n x => n + x.toNat) (8 * 32)

def ustarHeader (flag : UInt8) (name : Bytes) (mode size : Nat) : Header :=
  headerFront name mode size ++
    (octalField 6 (headerSum flag name mode size) ++ (32 :: headerBack flag))

namespace Header

lemma byteAt_append {a b : Bytes} {x : UInt8} {offset : Nat} (ha : a.length = offset) :
    byteAt (a ++ x :: b) offset = x := by
  unfold byteAt
  rw [List.drop_left' ha]
  rfl

lemma text_padded {b : Bytes} (hb : 0 ∉ b) (length : Nat) : text (padded length b) = b := by
  unfold padded
  rcases Nat.eq_zero_or_pos (length - b.length) with h0 | hpos
  · rw [h0]
    simpa [zeros, text] using fun x hx => ne_of_mem_of_not_mem hx hb
  · obtain ⟨k, hk⟩ := Nat.exists_eq_succ_of_ne_zero hpos.ne'
    rw [hk, zeros, List.replicate_succ]
    exact text_append_zero hb _

lemma foldl_toNat_le (b : Bytes) (n : Nat) :
    b.foldl (fun n x => n + x.toNat) n ≤ n + 255 * b.length := by
  induction b generalizing n with
  | nil => simp
  | cons x b ih =>
    have := x.toNat_lt
    have := ih (n + x.toNat)
    simp only [List.foldl_cons, List.length_cons]
    omega

section

variable {flag : UInt8} {name : Bytes} {mode size : Nat} (hname : name.length ≤ 100)

@[simp] lemma length_headerBack (flag : UInt8) : (headerBack flag).length = 356 := by
  simp [headerBack, ustarMagic]

include hname

lemma length_headerFront (mode size : Nat) : (headerFront name mode size).length = 148 := by
  simp [headerFront, length_padded hname]

lemma length_ustarHeader : (ustarHeader flag name mode size).length = blockSize := by
  simp [ustarHeader, length_headerFront hname, blockSize]

lemma headerSum_lt (flag : UInt8) (mode size : Nat) :
    headerSum flag name mode size < 8 ^ 6 := by
  refine lt_of_le_of_lt (foldl_toNat_le _ _) ?_
  rw [List.length_append, length_headerFront hname, length_headerBack]
  decide

lemma checksumFits_ustarHeader : checksumFits (ustarHeader flag name mode size) = true := by
  have hfront := length_headerFront hname mode size
  have hlt := headerSum_lt hname flag mode size
  have hparts : ustarHeader flag name mode size = headerFront name mode size ++
      ((octalField 6 (headerSum flag name mode size) ++ [32]) ++ headerBack flag) := by
    simp [ustarHeader]
  have hfield : (ustarHeader flag name mode size).field 148 8 =
      octalField 6 (headerSum flag name mode size) ++ [32] := by
    rw [hparts]
    exact field_append hfront (by simp)
  have hsum : checksum (ustarHeader flag name mode size) = headerSum flag name mode size := by
    unfold checksum
    rw [hparts, List.take_left' hfront, ← List.append_assoc, List.drop_left' (by simp [hfront])]
    rfl
  unfold checksumFits
  rw [hsum, hfield, octal?_octalField (by decide) hlt (lt_trans hlt (by decide))]
  simp

lemma mode?_ustarHeader (hm : mode < 8 ^ 7) :
    mode? (ustarHeader flag name mode size) = some (BitVec.ofNat 12 mode) := by
  have hfield : (ustarHeader flag name mode size).field 100 8 = octalField 7 mode := by
    unfold ustarHeader headerFront
    rw [List.append_assoc, List.append_assoc]
    exact field_append (length_padded hname) (by simp)
  unfold mode?
  rw [hfield, ← List.append_nil (octalField 7 mode),
    octal?_octalField (by decide) hm (lt_trans hm (by decide))]
  rfl

lemma size?_ustarHeader (hs : size < 8 ^ 11) :
    size? (ustarHeader flag name mode size) = some size := by
  have hfield : (ustarHeader flag name mode size).field 124 12 = octalField 11 size := by
    have hparts : ustarHeader flag name mode size =
        (padded 100 name ++ (octalField 7 mode ++ (octalField 7 0 ++ octalField 7 0))) ++
          (octalField 11 size ++ (octalField 11 0 ++
            (octalField 6 (headerSum flag name mode size) ++ (32 :: headerBack flag)))) := by
      simp [ustarHeader, headerFront]
    rw [hparts]
    exact field_append (by simp [length_padded hname]) (by simp)
  unfold size? number12?
  rw [hfield, if_pos, ← List.append_nil (octalField 11 size),
    octal?_octalField (by decide) hs (lt_trans hs (by decide))]
  exact headD_octalField 10 size

/-- The parts of a header up to the layout. -/
lemma ustarHeader_eq (flag : UInt8) (mode size : Nat) : ∃ front, front.length = 156 ∧
    ustarHeader flag name mode size =
      front ++ (flag :: (zeros 100 ++ (ustarMagic ++ zeros 247))) := by
  refine ⟨headerFront name mode size ++
    (octalField 6 (headerSum flag name mode size) ++ [32]), ?_, ?_⟩
  · simp [length_headerFront hname]
  · simp [ustarHeader, headerBack]

lemma typeFlag_ustarHeader :
    typeFlag (ustarHeader flag name mode size) = Char.ofNat flag.toNat := by
  obtain ⟨front, hfront, he⟩ := ustarHeader_eq hname flag mode size
  unfold typeFlag
  rw [he, byteAt_append hfront]

lemma linkName?_ustarHeader : linkName? (ustarHeader flag name mode size) = none := by
  obtain ⟨front, hfront, he⟩ := ustarHeader_eq hname flag mode size
  have hbyte : (ustarHeader flag name mode size).byteAt 157 = 0 := by
    rw [he, List.append_cons]
    exact byteAt_append (b := zeros 99 ++ (ustarMagic ++ zeros 247)) (by simp [hfront])
  unfold linkName?
  rw [if_pos hbyte]

lemma isUstar_ustarHeader : isUstar (ustarHeader flag name mode size) = true := by
  obtain ⟨front, hfront, he⟩ := ustarHeader_eq hname flag mode size
  have hfield : (ustarHeader flag name mode size).field 257 8 = ustarMagic := by
    rw [he, List.append_cons, ← List.append_assoc]
    exact field_append (by simp [hfront]) rfl
  unfold isUstar
  rw [hfield]
  rfl

lemma name_ustarHeader (hzero : 0 ∉ name) :
    Header.name (ustarHeader flag name mode size) = name := by
  obtain ⟨front, hfront, he⟩ := ustarHeader_eq hname flag mode size
  have hbefore : (ustarHeader flag name mode size).field 345 155 = zeros 155 := by
    have hparts : ustarHeader flag name mode size =
        (front ++ (flag :: (zeros 100 ++ (ustarMagic ++ zeros 80)))) ++
          (zeros 155 ++ zeros 12) := by
      rw [he, show 247 = 80 + (155 + 12) from rfl, zeros_add, zeros_add]
      simp
    rw [hparts]
    exact field_append (by simp [hfront, ustarMagic]) (by simp)
  have hown : (ustarHeader flag name mode size).field 0 100 = padded 100 name := by
    unfold ustarHeader headerFront
    rw [List.append_assoc]
    exact field_append (a := []) rfl (length_padded hname)
  unfold Header.name
  rw [hbefore, hown, text_padded hzero]
  simp [zeros, text]

lemma isZero_ustarHeader : isZero (ustarHeader flag name mode size) = false := by
  obtain ⟨front, hfront, he⟩ := ustarHeader_eq hname flag mode size
  refine List.all_eq_false.mpr ⟨117, ?_, by decide⟩
  rw [he]
  simp [ustarMagic]

end

end Header

/-- A header and its data, in full blocks. -/
def ustarMember (flag : UInt8) (name : Bytes) (mode : Nat) (data : Bytes) : Bytes :=
  ustarHeader flag name mode data.length ++
    padded ((data.length + (blockSize - 1)) / blockSize * blockSize) data

/-- A file or a directory that is put into an archive. -/
structure Entry where
  path : Path
  isDirectory : Bool
  mode : Mode
  content : Bytes

namespace Entry

def flag (e : Entry) : UInt8 := if e.isDirectory then 53 else 48

/-- How it is written. -/
def bytes (e : Entry) : Bytes :=
  if e.path.length ≤ 100 then ustarMember e.flag e.path e.mode.toNat e.content
  else ustarMember 76 (Bytes.ofString "././@LongLink") 0 (e.path ++ [0]) ++
    ustarMember e.flag (e.path.take 100) e.mode.toNat e.content

/-- How it is read. -/
def member (e : Entry) : Member where
  path := e.path
  kind := if e.isDirectory then .directory else .file
  link := none
  mode := some e.mode
  body := [.data e.content.length e.content]

/-- There is room for the sizes in the headers, and a zero byte does not end the path. -/
structure Fits (e : Entry) : Prop where
  path : 0 ∉ e.path
  short : e.path.length + 1 < 8 ^ 11
  size : e.content.length < 8 ^ 11

instance (e : Entry) : Decidable e.Fits :=
  decidable_of_iff (0 ∉ e.path ∧ e.path.length + 1 < 8 ^ 11 ∧ e.content.length < 8 ^ 11)
    ⟨fun h => ⟨h.1, h.2.1, h.2.2⟩, fun h => ⟨h.path, h.short, h.size⟩⟩

end Entry

/-- An archive ends with two blocks of zeros. -/
def written (es : List Entry) : Bytes :=
  es.flatMap Entry.bytes ++ (zeros blockSize ++ zeros blockSize)

/-! ### Reading -/

variable {flag : UInt8} {name data : Bytes} {mode : Nat} {f g : Feed} {found : List Member}
  {a : Attached} {e : Entry} {es : List Entry}

/-- A header that is read, with the data after it. -/
lemma next?_ustarMember (flag : UInt8) (mode : Nat) (hname : name.length ≤ 100)
    (hdata : data.length < 8 ^ 11) :
    ∃ r, Raw.next? none ⟨ustarMember flag name mode data, true, 0⟩ = .ok (some r) ∧
      r.header = ustarHeader flag name mode data.length ∧ r.size = data.length ∧ r.data = data ∧
      r.after.bytes.length = r.span := by
  have hle : data.length ≤ (data.length + (blockSize - 1)) / blockSize * blockSize :=
    Raw.size_le_span ⟨[], data.length, .broken []⟩
  have hlength := length_padded hle
  obtain ⟨after, hafter⟩ : ∃ after : Feed, after =
      ⟨padded ((data.length + (blockSize - 1)) / blockSize * blockSize) data, true,
        0 + (ustarHeader flag name mode data.length).length⟩ := ⟨_, rfl⟩
  have hheader : Feed.Takes (ustarHeader flag name mode data.length)
      ⟨ustarMember flag name mode data, true, 0⟩ after := by
    rw [hafter]
    exact ⟨rfl, rfl, rfl⟩
  refine ⟨⟨ustarHeader flag name mode data.length, data.length, after⟩, ?_, rfl, rfl, ?_, ?_⟩
  · rw [Raw.next?_eq, Feed.block?_some.mpr ⟨Header.length_ustarHeader hname, hheader⟩]
    unfold Raw.ofBlock
    simp only [Header.isZero_ustarHeader hname, Header.checksumFits_ustarHeader hname,
      Header.size?_ustarHeader hname hdata, Bool.false_eq_true, Bool.not_true, if_false,
      Option.bind_none, Option.getD_none]
    rw [if_pos]
    have h64 : 8 ^ 11 + 2 * blockSize < UInt64.size := by decide
    have hspan := Nat.div_mul_le_self (data.length + (blockSize - 1)) blockSize
    have hblock : blockSize = 512 := rfl
    have hposition : after.position = blockSize := by
      rw [hafter, Header.length_ustarHeader hname, Nat.zero_add]
    refine ⟨by omega, ?_⟩
    show after.position + (data.length + (blockSize - 1)) / blockSize * blockSize < UInt64.size
    omega
  · show after.bytes.take data.length = data
    rw [hafter, padded, List.take_left]
  · rw [hafter]
    exact hlength

/-- A name that stands before the member it belongs to. -/
lemma complete_longName {rest : Bytes} {m : Member} (hname : name.length ≤ 100)
    (hdata : data.length < 8 ^ 11) (h : Complete { name := some data } rest m) :
    Complete {} (ustarMember 76 name mode data ++ rest) m := by
  obtain ⟨r, hr, hheader, -, hdata, hlength⟩ := next?_ustarMember 76 mode hname hdata
  have hadd : Attached.add? {} r.header r.data = some (.ok { name := some data }) := by
    unfold Attached.add?
    rw [hheader, Header.isUstar_ustarHeader hname, Bool.or_true, if_pos rfl,
      Header.typeFlag_ustarHeader hname, hdata]
    rfl
  exact .attached hr hadd hlength h

lemma complete_ustarMember (hname : name.length ≤ 100) (hdata : e.content.length < 8 ^ 11)
    (ha : a.records = none ∧ a.link = none)
    (hpath : a.path (ustarHeader e.flag name e.mode.toNat e.content.length) = e.path) :
    Complete a (ustarMember e.flag name e.mode.toNat e.content) e.member := by
  obtain ⟨r, hr, hheader, hsize, hdata, hlength⟩ :=
    next?_ustarMember e.flag e.mode.toNat hname hdata
  have hflag : Header.typeFlag r.header = if e.isDirectory then '5' else '0' := by
    rw [hheader, Header.typeFlag_ustarHeader hname, Entry.flag]
    split <;> rfl
  have hadd : a.add? r.header r.data = none := by
    unfold Attached.add?
    rw [hheader, Header.isUstar_ustarHeader hname, Bool.or_true, if_pos rfl, ← hheader, hflag]
    cases e.isDirectory <;> rfl
  have hkind : kindOf r.header e.path = if e.isDirectory then .directory else .file := by
    unfold kindOf
    rw [hflag, hheader, Header.isUstar_ustarHeader hname]
    cases e.isDirectory <;> rfl
  have hmember : r.member a = .ok (e.member, r.after) := by
    unfold Raw.member Attached.linkName
    rw [hflag, if_neg (by split <;> decide), ha.1, ha.2, hdata, hsize, hheader, hpath, ← hheader,
      hkind]
    have hmode : r.header.mode? = some e.mode := by
      rw [hheader, Header.mode?_ustarHeader hname (lt_trans e.mode.isLt (by decide)),
        BitVec.ofNat_toNat, BitVec.setWidth_eq]
    have hlink : r.header.linkName? = none := by rw [hheader, Header.linkName?_ustarHeader hname]
    rw [hmode, hlink]
    rfl
  exact .own (ha.1 ▸ hr) hadd hmember hlength

/-- An entry is written as one complete member. -/
lemma complete_entry (h : e.Fits) : Complete {} e.bytes e.member := by
  unfold Entry.bytes
  split
  · rename_i hname
    exact complete_ustarMember hname h.size ⟨rfl, rfl⟩ (Header.name_ustarHeader hname h.path)
  · -- The name in the header is cut, and the whole path is in the member before it.
    have hname : (e.path.take 100).length ≤ 100 := List.length_take_le _ _
    refine complete_longName (by decide) (by simpa using h.short)
      (complete_ustarMember hname h.size ⟨rfl, rfl⟩ ?_)
    simp [Attached.path, Attached.withoutZero]

lemma complete_entries (hes : ∀ e ∈ es, e.Fits) :
    List.Forall₂ (Complete {}) (es.map Entry.bytes) (es.map Entry.member) := by
  rw [List.forall₂_map_left_iff, List.forall₂_map_right_iff, List.forall₂_same]
  exact fun e he => complete_entry (hes e he)

lemma isZero_zeros (n : Nat) : Header.isZero (zeros n) = true :=
  List.all_eq_true.mpr fun x hx => by rw [List.eq_of_mem_replicate hx, beq_self_eq_true]

lemma membersFrom_zeros (found : List Member) {rest : Bytes}
    (ht : Feed.Takes (zeros blockSize ++ rest) f g) :
    membersFrom found {} 0 f = (found.reverse, true) := by
  obtain ⟨k, hzeros, -⟩ := ht.split
  rw [membersFrom_eq]
  simp only [Feed.drop?, if_true, Raw.next?_of_isZero (length_zeros _) (isZero_zeros _) hzeros]
  rfl

lemma membersFrom_written (hes : ∀ e ∈ es, e.Fits) (ht : Feed.Takes (written es) f g)
    (hg : g.position < UInt64.size) :
    membersFrom found {} 0 f = (found.reverse ++ es.map Entry.member, true) := by
  obtain ⟨k, hentries, hrest⟩ := ht.split
  have hk : k.position < UInt64.size := by
    have := hrest.position
    omega
  rw [membersFrom_all (complete_entries hes) hentries hk, membersFrom_zeros _ hrest,
    List.reverse_append, List.reverse_reverse]

/-- **Reading what was written**: the members of an archive are the files and directories that were
put into it. -/
theorem members_written (hes : ∀ e ∈ es, e.Fits) (hsize : (written es).length < UInt64.size)
    (rest : Bytes) (complete : Bool) :
    members ⟨written es ++ rest, complete, 0⟩ = (es.map Entry.member, true) := by
  rw [members, membersFrom_written hes (Feed.takes_of_bytes rfl)]
  · rfl
  · simpa using hsize

/-! ### Compressed -/

/-- One block of a stream, the last, with bytes stored as they are. -/
def storedBlock (data : Bytes) : Bytes :=
  1 :: UInt8.ofNat data.length :: UInt8.ofNat (data.length / 256) ::
    (255 - UInt8.ofNat data.length) :: (255 - UInt8.ofNat (data.length / 256)) :: data

/-- A number in four bytes, the least significant first. -/
def fourBytes (n : Nat) : Bytes := (Bytes.ofNatBE 4 n).reverse

def gzipped (data : Bytes) : Bytes :=
  bareHeader ++ (storedBlock data ++ (fourBytes (Crc32.crc32 data).toNat ++ fourBytes data.length))

lemma toNatLE_fourBytes (n : Nat) : Bytes.toNatLE (fourBytes n) = n % UInt32.size := by
  simp only [fourBytes, Bytes.ofNatBE, Bytes.toNatLE, List.nil_append, List.cons_append,
    List.reverse_cons, List.reverse_nil, List.foldr_cons, List.foldr_nil, UInt8.toNat_ofNat',
    UInt32.size]
  omega

lemma inflate_storedBlock (h : data.length < 65536) :
    Inflate.inflate (storedBlock data) = (data.toArray, .ok ⟨[], []⟩) := by
  have hlow : (UInt8.ofNat data.length).toNat = data.length % 256 := UInt8.toNat_ofNat' ..
  have hhigh : (UInt8.ofNat (data.length / 256)).toNat = data.length / 256 :=
    UInt8.toNat_ofNat_of_lt' (by show _ < 256; omega)
  have hinverse : ∀ x : UInt8, (255 - x).toNat = 255 - x.toNat := by
    intro x
    have := x.toNat_lt
    rw [UInt8.toNat_sub_of_le _ _ (by rw [UInt8.le_iff_toNat_le]; show _ ≤ 255; omega)]
    rfl
  have ho : Inflate.opening (.ofBytes (storedBlock data)) =
      .ok ((1, 0), ⟨List.replicate 5 false, (storedBlock data).tail⟩) := rfl
  have hb : Inflate.body 0 #[] ⟨List.replicate 5 false, (storedBlock data).tail⟩ =
      Inflate.storedBytes data.length #[] data := by
    show (if _ then Inflate.storedBytes _ #[] data else _) = _
    rw [hinverse, hinverse, hlow, hhigh, if_pos (by omega)]
    congr 1
    omega
  have hs := storedBytes_append data [] #[]
  rw [List.append_nil] at hs
  rw [Inflate.inflate, Inflate.blocks_eq, ho]
  simp only [Inflate.opened, hb, hs]
  simp [BitSource.ofBytes]

lemma isMember_gzipped (h : data.length < 65536) : Gzip.IsMember data (gzipped data) := by
  refine ⟨bareHeader, storedBlock data, _, _, rfl, rfl, ⟨[], inflate_storedBlock h⟩, ⟨rfl, ?_⟩,
    rfl, ?_⟩
  · rw [toNatLE_fourBytes]
    exact Nat.mod_eq_of_lt (Crc32.crc32 data).toNat_lt
  · exact toNatLE_fourBytes _

/-- What has been compressed is read, whatever follows it. -/
lemma feedOf_member {archive : Path} {loc : Location} {id : Nat} {file : File} {t : FileTree}
    {member rest : Bytes} (hl : t.lookup true archive = .ok (loc, .file id))
    (hf : t.file? id = some file) (hr : t.user.mayRead file.mode = true)
    (hm : Gzip.IsMember data member) (hc : file.content = member ++ rest) :
    (feedOf archive).run t = .ok (⟨data, true, 0⟩, t) := by
  obtain ⟨hcomplete, hbytes⟩ := Gzip.feed_complete_iff.mpr ⟨member, rest, hc, hm⟩
  have hposition := Gzip.position_feed file.content
  rw [feedOf_file hl hf hr]
  rcases hfeed : Gzip.feed file.content with ⟨b, c, p⟩
  simp_all

end PinnedBuild.Archive
