import Mathlib
import PinnedBuild.Proofs.Archive.FirstMember

/-!
Records for all members, which may stand between any two of them. They are read past, payload and
padding, and neither what they say nor that they are there shows in what is unpacked.
-/

namespace PinnedBuild.Archive

open Files FileTree

variable {archive dest : Path} {place : Location} {id : Nat} {w v : World} {names : List Name}
  {a a' : Attached} {b tail : Bytes} {bs bs' : List Bytes} {m : Member} {ms ms' found : List Member}
  {f g : Feed} {r : Raw}

/-- Bytes that are a header of records for all and its payload, which may be anything. -/
def IsGlobal (b : Bytes) : Prop :=
  ∃ r, Raw.next? none ⟨b, true, 0⟩ = .ok (some r) ∧ r.header.typeFlag = 'g' ∧
    r.after.bytes.length = r.span

/-- Records for all are a complete member of their own. -/
lemma IsGlobal.complete (h : IsGlobal b) : ∃ m, Complete {} b m ∧ m.kind = .globalRecords := by
  obtain ⟨r, hnext, hflag, hlength⟩ := h
  have hadd : Attached.add? {} r.header r.data = none := by
    unfold Attached.add?
    rw [hflag]
    split <;> rfl
  have hmember : r.member {} = .ok (⟨Attached.path {} r.header, kindOf r.header
      (Attached.path {} r.header), Attached.linkName {} r.header, r.header.mode?,
      [.data r.size r.data]⟩, r.after) := by
    unfold Raw.member
    rw [hflag]
    rfl
  refine ⟨_, .own hnext hadd hmember hlength, ?_⟩
  show kindOf r.header _ = .globalRecords
  unfold kindOf
  rw [hflag]
  rfl

/-- They may be written with any payload. -/
lemma isGlobal_ustarMember {name payload : Bytes} (mode : Nat) (hname : name.length ≤ 100)
    (hpayload : payload.length < 8 ^ 11) : IsGlobal (ustarMember 103 name mode payload) := by
  obtain ⟨r, hr, hheader, -, -, hlength⟩ := next?_ustarMember 103 mode hname hpayload
  refine ⟨r, hr, ?_, hlength⟩
  rw [hheader, Header.typeFlag_ustarHeader hname]
  rfl

/-! ### Archives of complete members -/

/-- Things of one kind are put into a list, in any places. -/
inductive Inserted {α : Type} (P : α → Prop) : List α → List α → Prop
  | nil : Inserted P [] []
  | kept {l l' : List α} (x : α) : Inserted P l l' → Inserted P (x :: l) (x :: l')
  | added {l l' : List α} {x : α} : P x → Inserted P l l' → Inserted P l (x :: l')

lemma Inserted.length_le {P : Bytes → Prop} (h : Inserted P bs bs') :
    bs.flatten.length ≤ bs'.flatten.length := by
  induction h with
  | nil => exact Nat.le_refl _
  | kept _ _ ih =>
    simp only [List.flatten_cons, List.length_append]
    omega
  | added _ _ ih =>
    simp only [List.flatten_cons, List.length_append]
    omega

/-- What is put between complete members is read as members between theirs. -/
lemma Inserted.complete (h : Inserted IsGlobal bs bs') (hms : List.Forall₂ (Complete {}) bs ms) :
    ∃ ms', List.Forall₂ (Complete {}) bs' ms' ∧
      Inserted (fun m => m.kind = .globalRecords) ms ms' := by
  induction h generalizing ms with
  | nil =>
    cases hms
    exact ⟨[], .nil, .nil⟩
  | kept b _ ih =>
    obtain - | ⟨hm, hrest⟩ := hms
    obtain ⟨ms', hcomplete, hins⟩ := ih hrest
    exact ⟨_ :: ms', .cons hm hcomplete, .kept _ hins⟩
  | added hglobal _ ih =>
    obtain ⟨ms', hcomplete, hins⟩ := ih hms
    obtain ⟨m, hm, hkind⟩ := hglobal.complete
    exact ⟨m :: ms', .cons hm hcomplete, .added hkind hins⟩

/-- No header can be read off the front of these bytes: they are none, or begin with a block of
zeros, or with something else that is no header. -/
def NoHeader (tail : Bytes) (complete : Bool) : Prop :=
  ∀ r, Raw.next? none ⟨tail, complete, 0⟩ ≠ .ok (some r)

/-- Where no header can be read the members end, properly or not, wherever that is. -/
lemma NoHeader.ends {complete : Bool} (h : NoHeader tail complete) :
    ∃ whole, ∀ found f, f.bytes = tail → f.complete = complete →
      membersFrom found {} 0 f = (found.reverse, whole) := by
  have hnone : ∀ {f g : Feed}, f.bytes = tail → f.complete = complete → g.bytes = tail →
      g.complete = complete → Raw.next? none f = .ok none → Raw.next? none g = .ok none := by
    intro f g hf hfc hg hgc hn
    rcases Raw.next?_none hn with ⟨hnil, hc⟩ | ⟨t, k, ht, hk, hz⟩
    · rw [Raw.next?_eq, Feed.block?_none.mpr ⟨hg.trans (hf.symm.trans hnil),
        hgc.trans (hfc.symm.trans hc)⟩]
    · have hbytes : g.bytes = t ++ k.bytes := hg.trans (hf.symm.trans hk.bytes)
      exact Raw.next?_of_isZero ht hz (Feed.takes_of_bytes hbytes)
  have hsome : ∀ {f : Feed} {r : Raw}, f.bytes = tail → f.complete = complete →
      Raw.next? none f ≠ .ok (some r) := by
    intro f r hf hfc hn
    obtain ⟨t, -, htakes, hroom, hany⟩ := Raw.next?_within hn
    have hfront : (⟨tail, complete, 0⟩ : Feed).bytes = t ++ r.after.bytes := hf.symm.trans
      htakes.bytes
    refine h _ (hany _ _ (Feed.takes_of_bytes hfront) ?_)
    have := htakes.position
    show 0 + t.length + r.span < UInt64.size
    omega
  cases hn : Raw.next? none ⟨tail, complete, 0⟩ with
  | error e =>
    refine ⟨false, fun found f hf hfc => ?_⟩
    rw [membersFrom_eq]
    simp only [Feed.drop?, if_true]
    rcases hnext : Raw.next? none f with e' | _ | r
    · rfl
    · rw [hnone hf hfc rfl rfl hnext] at hn
      cases hn
    · exact absurd hnext (hsome hf hfc)
  | ok next =>
    obtain - | r := next
    · refine ⟨true, fun found f hf hfc => ?_⟩
      rw [membersFrom_eq]
      simp only [Feed.drop?, if_true, hnone rfl rfl hf hfc hn]
      rfl
    · exact absurd hn (h r)

/-! ### Extraction -/

/-- Records for all are not looked at. -/
lemma twin_inserted (h : World.SameBut id w v) (dest : Path)
    (hins : Inserted (fun m => m.kind = .globalRecords) ms ms') (names : List Name) :
    Twin (World.SameBut id) (ms.foldlM (extractMember dest) names)
      (ms'.foldlM (extractMember dest) names) w v := by
  induction hins generalizing names w v with
  | nil => exact twin_pure _ h
  | @kept _ _ m _ ih =>
    rw [List.foldlM_cons, List.foldlM_cons]
    exact (twin_extractMember (World.lifts_sameBut id) (enduring_sameBut id) h dest names m).bind
      fun names w v h => ih h names
  | @added _ _ m hkind _ ih =>
    have hread : extractMember dest names m = pure names := if_pos hkind
    rw [List.foldlM_cons, hread, pure_bind]
    exact ih h names

/-- What becomes of an archive does not change where records for all are put into it. -/
structure Transparent (archive dest : Path) (w : World) (id : Nat) (plain full : Bytes) : Prop where
  result : ((extract archive dest).run (holding w id full)).1 =
    ((extract archive dest).run (holding w id plain)).1
  events : ((extract archive dest).run (holding w id full)).2.events =
    ((extract archive dest).run (holding w id plain)).2.events
  /-- The trees differ in nothing but what the archive itself holds. -/
  same : World.SameBut id ((extract archive dest).run (holding w id plain)).2
    ((extract archive dest).run (holding w id full)).2
  object loc :
    ((extract archive dest).run (holding w id plain)).2.files.node? loc ≠ some (.file id) →
    ((extract archive dest).run (holding w id full)).2.files.object? loc =
      ((extract archive dest).run (holding w id plain)).2.files.object? loc

lemma Transparent.of_twin {plain full : Bytes}
    (h : Twin (World.SameBut id) (extract archive dest) (extract archive dest)
      (holding w id plain) (holding w id full)) : Transparent archive dest w id plain full := by
  obtain ⟨hresult, u, hu, hv⟩ := h
  exact ⟨hresult.symm, by rw [hv], ⟨u, hu, hv⟩, fun loc hloc => by rw [hv]; exact hu.object? hloc⟩

/-- **Records for all**: wherever they are put between the members of an archive, extraction tells
the same, logs the same and leaves the same. Places in an archive are told by 64 bits. -/
theorem extract_transparent {complete : Bool} {plain full : Bytes}
    (ha : w.files.lookup true archive = .ok (place, .file id))
    (hms : List.Forall₂ (Complete {}) bs ms) (hins : Inserted IsGlobal bs bs')
    (htail : NoHeader tail complete) (hsize : (bs'.flatten ++ tail).length < UInt64.size)
    (hplain : Gzip.feed plain = ⟨bs.flatten ++ tail, complete, 0⟩)
    (hfull : Gzip.feed full = ⟨bs'.flatten ++ tail, complete, 0⟩) (dest : Path) :
    Transparent archive dest w id plain full := by
  refine .of_twin ?_
  have hsame := sameBut_holding w id plain full
  unfold Twin
  rcases feedOf_holding ha with ⟨e, hfeed⟩ | hfeed
  · rw [run_extract_unread (hfeed _), run_extract_unread (hfeed _)]
    exact ⟨rfl, hsame⟩
  obtain ⟨ms', hms', hadded⟩ := hins.complete hms
  obtain ⟨whole, hends⟩ := htail.ends
  have hread : ∀ {bs₁ : List Bytes} {ms₁ : List Member}, List.Forall₂ (Complete {}) bs₁ ms₁ →
      bs₁.flatten.length ≤ bs'.flatten.length →
      members ⟨bs₁.flatten ++ tail, complete, 0⟩ = (ms₁, whole) := by
    intro bs₁ ms₁ hms₁ hle
    have ht : Feed.Takes bs₁.flatten ⟨bs₁.flatten ++ tail, complete, 0⟩
        ⟨tail, complete, 0 + bs₁.flatten.length⟩ := ⟨rfl, rfl, rfl⟩
    have hend : 0 + bs₁.flatten.length < UInt64.size := by
      rw [List.length_append] at hsize
      omega
    rw [members, membersFrom_all hms₁ ht hend, hends _ _ rfl rfl]
    simp
  have hread₁ : members (Gzip.feed plain) = (ms, whole) := hplain ▸ hread hms hins.length_le
  have hread₂ : members (Gzip.feed full) = (ms', whole) := hfull ▸ hread hms' (Nat.le_refl _)
  rw [run_extract_fed (hfeed _) hread₁, run_extract_fed (hfeed _) hread₂]
  refine (twin_inserted hsame dest hadded []).bind fun names w v h => ?_
  split
  · exact twin_pure _ h
  · exact twin_throw _ h

/-- Records that would give the next member another path, were they not for all. -/
def otherPath : Bytes := ustarMember 103 [103] 0 (Bytes.ofString "10 path=z\n")

lemma noHeader_zeros (rest : Bytes) : NoHeader (zeros blockSize ++ rest) true := by
  intro r hr
  have hzeros : Raw.next? none ⟨zeros blockSize ++ rest, true, 0⟩ = .ok none :=
    Raw.next?_of_isZero (length_zeros _) (isZero_zeros _) (Feed.takes_of_bytes rfl)
  cases hzeros.symm.trans hr

/-- Before a file "a" and between it and a file "b" they do not show. -/
theorem extract_transparent_otherPath :
    Transparent [97] [100] { files := besideArchive [] } 0
      (gzipped (written [frontEntry, backEntry]))
      (gzipped (otherPath ++ (frontEntry.bytes ++ (otherPath ++ written [backEntry])))) := by
  have hfits : ∀ e ∈ [frontEntry, backEntry], e.Fits := by decide
  have hglobal : IsGlobal otherPath := isGlobal_ustarMember 0 (by decide) (by decide)
  have hins : Inserted IsGlobal ([frontEntry, backEntry].map Entry.bytes)
      [otherPath, frontEntry.bytes, otherPath, backEntry.bytes] :=
    .added hglobal (.kept _ (.added hglobal (.kept _ .nil)))
  have hfeed : ∀ {data : Bytes}, data.length < 65536 →
      Gzip.feed (gzipped data) = ⟨data, true, 0⟩ := by
    intro data hdata
    have h := Gzip.feed_isMember (isMember_gzipped hdata) []
    rwa [List.append_nil] at h
  have hfull : otherPath ++ (frontEntry.bytes ++ (otherPath ++ written [backEntry])) =
      [otherPath, frontEntry.bytes, otherPath, backEntry.bytes].flatten ++
        (zeros blockSize ++ zeros blockSize) := by
    simp only [written, List.flatten_cons, List.flatten_nil, List.flatMap_cons, List.flatMap_nil,
      List.append_nil, List.append_assoc]
  have hlength : (otherPath ++ (frontEntry.bytes ++ (otherPath ++ written [backEntry]))).length <
      65536 := by decide +kernel
  refine extract_transparent (w := { files := besideArchive [] }) rfl (complete_entries hfits) hins
    (noHeader_zeros _) ?_ (hfeed (by decide +kernel)) ?_ [100]
  · rw [← hfull]
    exact lt_trans hlength (by decide)
  · rw [← hfull]
    exact hfeed hlength

end PinnedBuild.Archive
