import Mathlib
import PinnedBuild.Proofs.Archive.Production
import PinnedBuild.Proofs.Archive.Truncation

/-!
A gzip file of several members is read as its first. What the others hold is not unpacked: where the
first holds the end of the archive this is no loss, and where it holds whole members of the archive
and no end, the rest of them is left out without an error.
-/

namespace PinnedBuild.Archive

open Files FileTree

variable {archive dest : Path} {place : Location} {id : Nat} {w v : World} {names : List Name}
  {data more first both : Bytes}

/-- What follows a member does not show in the feed. -/
lemma Gzip.feed_isMember (h : IsMember data first) (rest : Bytes) :
    feed (first ++ rest) = ⟨data, true, 0⟩ := by
  obtain ⟨hcomplete, hbytes⟩ := feed_complete_iff.mpr ⟨first, rest, rfl, h⟩
  have hposition := position_feed (first ++ rest)
  rcases hfeed : feed (first ++ rest) with ⟨b, c, p⟩
  simp_all

/-! ### The members of a feed that goes on -/

section

variable {f g k : Feed} {t : Bytes} {found ms : List Member} {a : Attached} {skip : Nat}

/-- What is taken off a feed is also taken off one that begins with it and goes on. -/
lemma Feed.Takes.onto (h : Takes t f k) (hb : f.bytes <+: g.bytes) (hp : g.position = f.position) :
    ∃ k', Takes t g k' ∧ k.bytes <+: k'.bytes ∧ k'.position = k.position := by
  obtain ⟨y, hy⟩ := hb
  rw [h.bytes, List.append_assoc] at hy
  exact ⟨_, takes_of_bytes hy.symm, List.prefix_append _ _, by rw [h.position, ← hp]⟩

/-- What has been found stays in front. -/
lemma prefix_membersFrom (found : List Member) (a : Attached) (skip : Nat) (f : Feed) :
    found.reverse <+: (membersFrom found a skip f).1 := by
  induction hm : f.bytes.length using Nat.strong_induction_on generalizing found a skip f with
  | _ n ih =>
    rw [membersFrom_eq]
    rcases hd : f.drop? skip with _ | f'
    · exact List.prefix_rfl
    obtain ⟨t, -, ht⟩ := Feed.drop?_iff.mp hd
    simp only
    rcases hn : Raw.next? a.records f' with e | _ | r
    · exact List.prefix_rfl
    · exact List.prefix_rfl
    obtain ⟨t', ht', hafter, -⟩ := Raw.next?_some hn
    have hlt : r.after.bytes.length < n := by
      have hb : blockSize = 512 := rfl
      rw [← hm, (ht.trans hafter).bytes]
      simp only [List.length_append]
      omega
    simp only [goOn]
    rcases a.add? r.header r.data with _ | (_ | a')
    · rcases hr : r.member a with e | ⟨m, after⟩
      · exact List.prefix_rfl
      · obtain ⟨t'', -, hk, -⟩ := Raw.member_ok hr
        have hle : after.bytes.length ≤ r.after.bytes.length := by
          rw [hk.bytes, List.length_append]
          exact Nat.le_add_left _ _
        refine List.IsPrefix.trans ?_ (ih _ (lt_of_le_of_lt hle hlt) (m :: found) {} _ after rfl)
        rw [List.reverse_cons]
        exact List.prefix_append _ _
    · exact List.prefix_rfl
    · exact ih _ hlt found a' _ r.after rfl

/-- Members that are read to their end off a feed are also read where the feed goes on. -/
lemma membersFrom_front (h : membersFrom found a skip f = (ms, true))
    (hb : f.bytes <+: g.bytes) (hp : g.position = f.position) :
    ms <+: (membersFrom found a skip g).1 := by
  -- the shorter feed ends at a mark or with its bytes: at either, what was found is in front
  induction hm : f.bytes.length using Nat.strong_induction_on generalizing found a skip f g with
  | _ n ih =>
    rw [membersFrom_eq] at h
    rcases hd : f.drop? skip with _ | f' <;> rw [hd] at h
    · simp at h
    obtain ⟨t, ht, htakes⟩ := Feed.drop?_iff.mp hd
    rcases hn : Raw.next? a.records f' with e | _ | r <;> simp only [hn] at h
    · simp at h
    · obtain ⟨rfl, -⟩ := Prod.mk.inj h
      exact prefix_membersFrom found a skip g
    obtain ⟨t', ht', hafter, hany⟩ := Raw.next?_some hn
    obtain ⟨found', a', k, t'', -, hk, hrest, hgo⟩ := goOn_ok h
    have hlt : k.bytes.length < n := by
      have hblock : blockSize = 512 := rfl
      rw [← hm, ((htakes.trans hafter).trans hk).bytes]
      simp only [List.length_append]
      omega
    obtain ⟨g₁, h₁, hb₁, hp₁⟩ := htakes.onto hb hp
    obtain ⟨g₂, h₂, hb₂, hp₂⟩ := hafter.onto hb₁ hp₁
    obtain ⟨g₃, h₃, hb₃, hp₃⟩ := hk.onto hb₂ hp₂
    -- what the member holds lies in front of where the shorter feed ends
    have hsame : g₃.bytes.take r.size = k.bytes.take r.size := by
      obtain ⟨y, hy⟩ := hb₃
      rw [← hy, List.take_append_of_le_length
        (r.size_le_span.trans (le_length_of_membersFrom hrest))]
    rw [membersFrom_eq, Feed.drop?_iff.mpr ⟨t, ht, h₁⟩]
    simp only
    rw [hany _ _ h₂ hp₁]
    simp only
    rw [hgo _ _ h₃ hsame]
    exact ih _ hlt hrest hb₃ hp₃ rfl

end

/-- The members in the first part of an archive, if they end there properly, come first in the
whole. -/
lemma members_front {ms : List Member} (h : members ⟨data, true, 0⟩ = (ms, true)) (more : Bytes) :
    ∃ ms' whole, members ⟨data ++ more, true, 0⟩ = (ms ++ ms', whole) := by
  obtain ⟨ms', hms⟩ := membersFrom_front (g := ⟨data ++ more, true, 0⟩) h (List.prefix_append _ _)
    rfl
  exact ⟨ms', _, Prod.ext hms.symm rfl⟩

/-- If they end at a block of zeros there, then they are all of the members. -/
lemma members_marked (h : (members (.broken data)).2 = true) (more : Bytes) :
    ∃ ms, members ⟨data, true, 0⟩ = (ms, true) ∧ members ⟨data ++ more, true, 0⟩ = (ms, true) := by
  obtain ⟨upTo, -, hpre, hany⟩ := members_mark (f := .broken data) rfl (Prod.ext rfl h)
  exact ⟨_, hany ⟨data, true, 0⟩ rfl hpre,
    hany ⟨data ++ more, true, 0⟩ rfl (hpre.trans (List.prefix_append _ _))⟩

/-! ### Extraction -/

/-- Unpacking members after those that have given some names, in an archive that may be damaged
behind them. -/
def unpackAll (archive dest : Path) (names : List Name) (ms : List Member) (whole : Bool) :
    Act ExtractError (List Name) := do
  let names ← ms.foldlM (extractMember dest) names
  if whole then return names else Act.fail (.corrupted archive)

lemma run_extract_fed {feed : Feed} {ms : List Member} {whole : Bool}
    (hfeed : (feedOf archive).run w.files = .ok (feed, w.files))
    (hms : members feed = (ms, whole)) :
    (extract archive dest).run w = (unpackAll archive dest [] ms whole).run w := by
  unfold extract unpackAll
  rw [run_bind, Act.run_op, hfeed]
  simp only [hms]

lemma run_extract_unread {e : FileError} (h : (feedOf archive).run w.files = .error e) :
    (extract archive dest).run w = (.error (.cannotOpen archive e), w) := by
  unfold extract
  rw [run_bind, Act.run_op, h]

/-- Members that follow are unpacked where those in front of them have been. -/
lemma run_unpackAll_append {ms ms' : List Member} {whole : Bool} {names' : List Name}
    (h : (ms.foldlM (extractMember dest) names).run w = (.ok names', v)) :
    (unpackAll archive dest names (ms ++ ms') whole).run w =
      (unpackAll archive dest names' ms' whole).run v := by
  unfold unpackAll
  rw [List.foldlM_append, bind_assoc, run_bind, h]

lemma twin_unpackAll (h : World.SameBut id w v) (archive dest : Path) (names : List Name)
    (ms : List Member) (whole : Bool) :
    Twin (World.SameBut id) (unpackAll archive dest names ms whole)
      (unpackAll archive dest names ms whole) w v := by
  refine (twin_foldlM (fun names m _ _ h => twin_extractMember (World.lifts_sameBut id)
    (enduring_sameBut id) h dest names m) ms names h).bind fun names w v h => ?_
  split
  · exact twin_pure _ h
  · exact twin_throw _ h

lemma feedOf_unread {t : FileTree} {e : FileError}
    (h : (FileOp.openRead archive).run t = .error e) :
    (feedOf archive).run t = .error e := by
  unfold feedOf
  rw [FileOp.run_bind, h]

/-- Whether a file can be read does not depend on what it holds. -/
lemma feedOf_holding (ha : w.files.lookup true archive = .ok (place, .file id)) :
    (∃ e, ∀ content, (feedOf archive).run (holding w id content).files = .error e) ∨
      ∀ content, (feedOf archive).run (holding w id content).files =
        .ok (Gzip.feed content, (holding w id content).files) := by
  have hl : ∀ content, (holding w id content).files.lookup true archive = .ok (place, .file id) :=
    fun _ => FileOp.lookup_modifyFile _ ha
  have hfile : ∀ content, (holding w id content).files.file? id =
      (w.files.file? id).map fun f => { f with content := content } := by
    intro content
    simp only [holding, file?, FileTree.modifyFile, List.getElem?_modify_eq]
    rfl
  rcases hf : w.files.file? id with _ | f
  · refine .inl ⟨.notFound, fun content => feedOf_unread ?_⟩
    have hnone := hfile content
    rw [hf] at hnone
    unfold FileOp.openRead
    simp only [FileOp.run_bind, FileOp.run_lookup, hl, Except.map, FileOp.fileMode, FileOp.run_get,
      hnone, Option.map_none, FileOp.run_fail]
  by_cases hr : w.files.user.mayRead f.mode = true
  · refine .inr fun content => ?_
    have hsome := hfile content
    rw [hf] at hsome
    exact feedOf_file (hl content) hsome hr
  · refine .inl ⟨.accessDenied, fun content => feedOf_unread ?_⟩
    have hsome := hfile content
    rw [hf] at hsome
    have hr' : (holding w id content).files.user.mayRead f.mode = false :=
      Bool.eq_false_of_not_eq_true hr
    unfold FileOp.openRead
    simp only [FileOp.run_bind, FileOp.run_lookup, hl, Except.map, FileOp.fileMode, FileOp.run_get,
      hsome, Option.map_some, FileOp.run_pure, hr', if_false, FileOp.run_fail, Bool.false_eq_true]

/-- Where the members are the same, so is what becomes of them. -/
lemma twin_extract_holding (ha : w.files.lookup true archive = .ok (place, .file id))
    {content content' : Bytes} (h : members (Gzip.feed content) = members (Gzip.feed content')) :
    Twin (World.SameBut id) (extract archive dest) (extract archive dest)
      (holding w id content) (holding w id content') := by
  have hsame := sameBut_holding w id content content'
  unfold Twin
  rcases feedOf_holding ha with ⟨e, hfeed⟩ | hfeed
  · rw [run_extract_unread (hfeed _), run_extract_unread (hfeed _)]
    exact ⟨rfl, hsame⟩
  · rcases hms : members (Gzip.feed content) with ⟨ms, whole⟩
    rw [run_extract_fed (hfeed _) hms, run_extract_fed (hfeed _) (h.symm.trans hms)]
    exact twin_unpackAll hsame archive dest [] ms whole

/-- What becomes of a gzip file whose first member is one, where another would be that of the same
data and some more. -/
structure ReadsFirst (archive dest : Path) (w : World) (id : Nat) (data more first both : Bytes) :
    Prop where
  /-- Nothing that follows the first member is read. -/
  alone rest : Twin (World.SameBut id) (extract archive dest) (extract archive dest)
    (holding w id (first ++ rest)) (holding w id first)
  /-- Nothing is lost if the archive ends in the first. -/
  marked rest : (members (.broken data)).2 = true →
    Twin (World.SameBut id) (extract archive dest) (extract archive dest)
      (holding w id (first ++ rest)) (holding w id both)
  /-- Where extraction succeeds all the same, the members that follow are left out: with them it
  would go on from there. -/
  front rest names v : (extract archive dest).run (holding w id (first ++ rest)) = (.ok names, v) →
    ∃ ms ms' whole v', members ⟨data, true, 0⟩ = (ms, true) ∧
      members ⟨data ++ more, true, 0⟩ = (ms ++ ms', whole) ∧ World.SameBut id v v' ∧
      (extract archive dest).run (holding w id both) =
        (unpackAll archive dest names ms' whole).run v'
  /-- If the first ends within a member of the archive, then extraction fails. -/
  torn rest : (members ⟨data, true, 0⟩).2 = false →
    ∃ e, ((extract archive dest).run (holding w id (first ++ rest))).1 = .error e

/-- **The first member of a gzip file**: it alone is read. -/
theorem extract_readsFirst (ha : w.files.lookup true archive = .ok (place, .file id))
    (hfirst : Gzip.IsMember data first) (hboth : Gzip.IsMember (data ++ more) both) (dest : Path) :
    ReadsFirst archive dest w id data more first both := by
  have hfeed : ∀ rest, Gzip.feed (first ++ rest) = ⟨data, true, 0⟩ := Gzip.feed_isMember hfirst
  have hfeed' : Gzip.feed both = ⟨data ++ more, true, 0⟩ := by
    simpa using Gzip.feed_isMember hboth []
  constructor
  case alone =>
    intro rest
    refine twin_extract_holding ha ?_
    rw [hfeed, ← hfeed [], List.append_nil]
  case marked =>
    intro rest hmark
    obtain ⟨ms, hms, hms'⟩ := members_marked hmark more
    refine twin_extract_holding ha ?_
    rw [hfeed, hfeed', hms, hms']
  case front =>
    intro rest names v hrun
    obtain ⟨ms, hms, hfold⟩ := extract_holding ha hrun
    rw [hfeed] at hms
    obtain ⟨ms', whole, hms'⟩ := members_front hms more
    obtain ⟨v', hfold', hsame⟩ := (twin_foldlM (fun names m _ _ h => twin_extractMember
      (World.lifts_sameBut id) (enduring_sameBut id) h dest names m) ms []
      (sameBut_holding w id (first ++ rest) both)).ok hfold
    refine ⟨ms, ms', whole, v', hms, hms', hsame, ?_⟩
    rcases feedOf_holding ha with ⟨e, hread⟩ | hread
    · rw [run_extract_unread (hread _)] at hrun
      cases hrun
    · rw [run_extract_fed (hread both) (hfeed' ▸ hms'), run_unpackAll_append hfold']
  case torn =>
    intro rest htorn
    rcases hrun : (extract archive dest).run (holding w id (first ++ rest)) with ⟨e | names, v⟩
    · exact ⟨e, rfl⟩
    · obtain ⟨ms, hms, -⟩ := extract_holding ha hrun
      rw [hfeed] at hms
      rw [hms] at htorn
      cases htorn

lemma feedOf_besideMember (h : Gzip.IsMember data first) (rest : Bytes) :
    (feedOf [97]).run (besideArchive (first ++ rest)) =
      .ok (⟨data, true, 0⟩, besideArchive (first ++ rest)) := by
  have hl : (besideArchive (first ++ rest)).lookup true [97] = .ok ([[97]], .file 0) := rfl
  have hfile : (besideArchive (first ++ rest)).file? 0 = some ⟨first ++ rest, 0o644⟩ := rfl
  exact feedOf_member hl hfile (mayRead_besideArchive _) h rfl

/-- Behind an entry no end is missed. -/
lemma members_entry {e : Entry} (h : e.Fits) (hsize : e.bytes.length < UInt64.size) :
    members ⟨e.bytes, true, 0⟩ = ([e.member], true) := by
  have ht : Feed.Takes e.bytes ⟨e.bytes, true, 0⟩ ⟨[], true, e.bytes.length⟩ :=
    ⟨(List.append_nil _).symm, rfl, (Nat.zero_add _).symm⟩
  rw [members, membersFrom_complete (complete_entry h) ht hsize, membersFrom_eq]
  rfl

/-- A file "a". -/
def frontEntry : Entry := ⟨[97], false, 0o644, [1]⟩

/-- A file "b". -/
def backEntry : Entry := ⟨[98], false, 0o644, [2]⟩

/-- An archive of both in two members, divided between the files. -/
def divided : Bytes := gzipped frontEntry.bytes ++ gzipped (written [backEntry])

/-- The same archive in one. -/
def undivided : Bytes := gzipped (frontEntry.bytes ++ written [backEntry])

lemma length_entries : frontEntry.bytes.length < 65536 ∧
    (frontEntry.bytes ++ written [backEntry]).length < 65536 := by decide +kernel

/-- What is in the second member is not unpacked. -/
lemma extract_divided : ∃ v, (extract [97] [100]).run { files := besideArchive divided } =
    (.ok [[97]], v) ∧ v.files.object? [[100], [98]] = none := by
  have hfeed := feedOf_besideMember (isMember_gzipped length_entries.1)
    (gzipped (written [backEntry]))
  have hms := members_entry (show frontEntry.Fits by decide)
    (lt_trans length_entries.1 (by decide))
  rw [run_extract_whole (w := { files := besideArchive divided }) hfeed hms]
  refine ⟨_, Prod.ext (ok_of_toOption (by decide +kernel)) rfl, ?_⟩
  decide +kernel

lemma extract_undivided : ((extract [97] [100]).run { files := besideArchive undivided }).1 =
    .ok [[97], [98]] := by
  have hwritten : undivided = gzipped (written [frontEntry, backEntry]) := by
    simp only [undivided, written, List.flatMap_cons, List.append_assoc]
  rw [hwritten, extract_besideArchive (by decide) (by decide +kernel)]
  exact ok_of_toOption (by decide +kernel)

/-- The second gzip member is left out, and with it a file of the undivided archive. -/
theorem extract_readsFirst_divided :
    ∃ v ms whole v', (extract [97] [100]).run { files := besideArchive divided } =
        (.ok [[97]], v) ∧
      members ⟨frontEntry.bytes ++ written [backEntry], true, 0⟩ =
        (frontEntry.member :: ms, whole) ∧
      World.SameBut 0 v v' ∧
      (extract [97] [100]).run { files := besideArchive undivided } =
        (unpackAll [97] [100] [[97]] ms whole).run v' := by
  obtain ⟨v, hrun, -⟩ := extract_divided
  have h : ReadsFirst [97] [100] { files := besideArchive [] } 0 frontEntry.bytes
      (written [backEntry]) (gzipped frontEntry.bytes) undivided :=
    extract_readsFirst (w := { files := besideArchive [] }) rfl (isMember_gzipped length_entries.1)
      (isMember_gzipped length_entries.2) [100]
  obtain ⟨read, ms, whole, v', hread, hms, hsame, hwhole⟩ :=
    h.front (gzipped (written [backEntry])) [[97]] v (by rw [holding_besideArchive]; exact hrun)
  rw [holding_besideArchive] at hwhole
  have hentry := members_entry (show frontEntry.Fits by decide)
    (lt_trans length_entries.1 (by decide))
  obtain ⟨rfl, -⟩ := Prod.mk.inj (hentry.symm.trans hread)
  exact ⟨v, ms, whole, v', hrun, hms, hsame, hwhole⟩

/-- Two members do not come to the same as one that holds what both of them do. -/
theorem extract_second_dropped : ¬ ∀ (archive dest : Path) (w : World) (place : Location) (id : Nat)
    (data more first second both : Bytes), w.files.lookup true archive = .ok (place, .file id) →
    Gzip.IsMember data first → Gzip.IsMember more second → Gzip.IsMember (data ++ more) both →
    ((extract archive dest).run (holding w id (first ++ second))).1 =
      ((extract archive dest).run (holding w id both)).1 := by
  intro h
  have hsame := h [97] [100] { files := besideArchive [] } [[97]] 0 frontEntry.bytes
    (written [backEntry]) (gzipped frontEntry.bytes) (gzipped (written [backEntry])) undivided rfl
    (isMember_gzipped length_entries.1) (isMember_gzipped (by decide +kernel))
    (isMember_gzipped length_entries.2)
  obtain ⟨v, hrun, -⟩ := extract_divided
  rw [holding_besideArchive, holding_besideArchive, extract_undivided,
    show gzipped frontEntry.bytes ++ gzipped (written [backEntry]) = divided from rfl,
    hrun] at hsame
  exact absurd (Except.ok.inj hsame) (by decide)

end PinnedBuild.Archive
