import Mathlib
import PinnedBuild.Proofs.Archive.Extract
import PinnedBuild.Proofs.Archive.Members

/-!
What a successful extraction says about its archive. Either a whole gzip member stands at the front
of it, whose checksum and length fit, or the members ended at a block of zeros, behind which nothing
is looked at.
-/

namespace PinnedBuild.Archive

open Files BitSource Inflate Gzip

variable {archive dest : Path} {names : List Name} {w v : World} {t u : FileTree} {feed : Feed}

/-! ### What has been read -/

lemma members_broken : members (.broken []) = ([], false) := by
  rw [members, membersFrom_eq]
  rfl

lemma feedOf_file {loc : Location} {id : Nat} {file : File}
    (hl : t.lookup true archive = .ok (loc, .file id)) (hf : t.file? id = some file)
    (hr : t.user.mayRead file.mode = true) :
    (feedOf archive).run t = .ok (Gzip.feed file.content, t) := by
  have hread := FileOp.readAll_file hl hf hr
  unfold FileOp.readAll at hread
  unfold feedOf
  rw [FileOp.run_bind] at hread ⊢
  rw [FileOp.openRead_file hl hf hr] at hread ⊢
  simp only [FileOp.run_bind] at hread ⊢
  rw [hread]
  rfl

/-- A feed with any bytes is that of the file that the path leads to. -/
lemma feedOf_cases (h : (feedOf archive).run t = .ok (feed, u)) : feed = .broken [] ∨
    ∃ loc id file, t.lookup true archive = .ok (loc, .file id) ∧ t.file? id = some file ∧
      t.user.mayRead file.mode = true ∧ feed = Gzip.feed file.content := by
  unfold feedOf at h
  rw [FileOp.run_bind] at h
  rcases ho : (FileOp.openRead archive).run t with e | ⟨handle, v⟩ <;> rw [ho] at h
  · simp at h
  obtain ⟨rfl, hfile⟩ := FileOp.openRead_ok ho
  rcases handle with l | id | d
  · exact .inl (Prod.mk.inj (Except.ok.inj h)).1.symm
  · obtain ⟨loc, file, hl, hf, hr⟩ := hfile id rfl
    refine .inr ⟨loc, id, file, hl, hf, hr, ?_⟩
    simp only [FileOp.contents, FileOp.run_bind, FileOp.run_get, hf, FileOp.run_pure] at h
    exact (Prod.mk.inj (Except.ok.inj h)).1.symm
  · exact .inl (Prod.mk.inj (Except.ok.inj h)).1.symm

/-- All the members that there are have been unpacked when extraction succeeds. -/
lemma extract_ok (h : (extract archive dest).run w = (.ok names, v)) :
    ∃ feed ms, (feedOf archive).run w.files = .ok (feed, w.files) ∧ members feed = (ms, true) ∧
      (ms.foldlM (extractMember dest) []).run w = (.ok names, v) := by
  unfold extract at h
  rw [run_bind, Act.run_op] at h
  rcases hf : (feedOf archive).run w.files with e | ⟨feed, u⟩ <;> simp only [hf] at h
  · exact absurd (Prod.mk.inj h).1 (by simp)
  obtain rfl := feedOf_ok hf
  rcases hm : members feed with ⟨ms, whole⟩
  simp only [hm] at h
  rw [run_bind] at h
  rcases hu : (ms.foldlM (extractMember dest) []).run w with ⟨e | found, v'⟩ <;> rw [hu] at h
  · exact absurd (Prod.mk.inj h).1 (by simp)
  cases whole
  · exact absurd (Prod.mk.inj h).1 (by simp)
  · exact ⟨feed, ms, rfl, hm, hu.trans h⟩

/-- An archive that can be read to its end is extracted member by member. -/
lemma run_extract_whole {feed : Feed} {ms : List Member}
    (hfeed : (feedOf archive).run w.files = .ok (feed, w.files))
    (hms : members feed = (ms, true)) :
    (extract archive dest).run w = (ms.foldlM (extractMember dest) []).run w := by
  unfold extract
  rw [run_bind, Act.run_op, hfeed]
  simp only [hms, if_true]
  exact congrArg (fun a : Act ExtractError (List Name) => a.run w) (bind_pure _)

/-- Bytes are only handed on behind a header, and they are what the stream after it begins with. -/
lemma feed_ne_broken {file : Bytes} (h : Gzip.feed file ≠ .broken []) :
    ∃ header body, file = header ++ body ∧ afterHeader? header = some [] ∧
      (Gzip.feed file).bytes <+: (inflate body).1.toList := by
  unfold Gzip.feed at h ⊢
  rcases hh : afterHeader? file with _ | body
  · simp [hh] at h
  obtain ⟨header, rfl, hheader⟩ := afterHeader?_ok hh
  refine ⟨header, body, rfl, by simpa using hheader [], ?_⟩
  simp only
  rcases inflate body with ⟨out, (_ | unread) | s⟩
  · exact List.prefix_rfl
  · exact List.take_prefix _ _
  · exact List.prefix_rfl

/-- A gzip member, with the checksum and the length of its data, stands at the front. -/
def BeginsWithMember (content : Bytes) : Prop :=
  ∃ data member rest, content = member ++ rest ∧ IsMember data member

/-- What the stream after the header puts out holds a block of zeros at which the members end. They
are the same in whatever goes on differently behind it. -/
def StopsAtMark (content : Bytes) : Prop :=
  ∃ header body upTo, content = header ++ body ∧ afterHeader? header = some [] ∧
    EndsInZeros upTo ∧ upTo <+: (inflate body).1.toList ∧
    ∀ g : Feed, g.position = 0 → upTo <+: g.bytes → members g = members (Gzip.feed content)

/-- **Integrity**: where all members are unpacked, the archive begins with a whole gzip member,
whose checksum and length fit, or its members end at a block of zeros. -/
theorem extract_intact (h : ((extract archive dest).run w).1 = .ok names) :
    ∃ loc id file, w.files.lookup true archive = .ok (loc, .file id) ∧
      w.files.file? id = some file ∧
      (BeginsWithMember file.content ∨ StopsAtMark file.content) := by
  obtain ⟨feed, ms, hf, hm, -⟩ := extract_ok (v := ((extract archive dest).run w).2)
    (Prod.ext h rfl)
  have hfeed : feed ≠ .broken [] := by
    rintro rfl
    simp [members_broken] at hm
  obtain ⟨loc, id, file, hl, hfile, -, rfl⟩ := (feedOf_cases hf).resolve_left hfeed
  refine ⟨loc, id, file, hl, hfile, ?_⟩
  by_cases hc : (Gzip.feed file.content).complete = true
  · exact .inl ⟨_, feed_complete_iff.mp ⟨hc, rfl⟩⟩
  · obtain ⟨header, body, hcontent, hheader, hbytes⟩ := feed_ne_broken hfeed
    obtain ⟨upTo, hzeros, hpre, hany⟩ := members_mark (by simpa using hc) hm
    refine .inr ⟨header, body, upTo, hcontent, hheader, hzeros, hpre.trans hbytes, ?_⟩
    intro g hg hup
    rw [hany g (hg.trans (position_feed _).symm) hup, hm]

/-! ### An archive without members -/

/-- One block of a stream, the last, with 512 bytes stored as they are. -/
def storedStream (data : Bytes) : Bytes := [1, 0, 2, 0xff, 0xfd] ++ data

def bareHeader : Bytes := [0x1f, 0x8b, 8, 0, 0, 0, 0, 0, 0, 0]

lemma storedBytes_append (b rest : Bytes) (out : Array UInt8) :
    storedBytes b.length out (b ++ rest) = (out ++ b.toArray, .ok (.ofBytes rest)) := by
  induction b generalizing out with
  | nil => simp [storedBytes]
  | cons x b ih =>
    simp only [List.length_cons, List.cons_append, storedBytes, ih]
    simp

lemma inflate_storedStream {data : Bytes} (h : data.length = 512) :
    inflate (storedStream data) = (data.toArray, .ok ⟨[], []⟩) := by
  have ho : opening (.ofBytes (storedStream data)) =
      .ok ((1, 0), ⟨List.replicate 5 false, [0, 2, 0xff, 0xfd] ++ data⟩) := rfl
  have hb : body 0 #[] ⟨List.replicate 5 false, [0, 2, 0xff, 0xfd] ++ data⟩ =
      storedBytes 512 #[] data := rfl
  have hs := storedBytes_append data [] #[]
  rw [h, List.append_nil] at hs
  rw [inflate, blocks_eq, ho]
  simp only [opened, hb, hs]
  simp [ofBytes]

lemma feed_stored {data : Bytes} (h : data.length = 512) (trailer : Bytes) :
    Gzip.feed (bareHeader ++ (storedStream data ++ trailer)) =
      ⟨data, trailerFits data trailer, 0⟩ := by
  unfold Gzip.feed
  rw [afterHeader?_append (show afterHeader? bareHeader = some [] from rfl)]
  simp only
  rw [inflate_append (inflate_storedStream h)]
  rfl

lemma members_zeros {data : Bytes} (h : data.length = 512) (hz : Header.isZero data = true)
    (complete : Bool) : members ⟨data, complete, 0⟩ = ([], true) := by
  have ht : Feed.Takes data ⟨data, complete, 0⟩ ⟨[], complete, data.length⟩ :=
    ⟨(List.append_nil data).symm, rfl, (Nat.zero_add _).symm⟩
  rw [members, membersFrom_eq]
  simp only [Feed.drop?, if_true]
  rw [Raw.next?_of_isZero h hz ht]
  rfl

/-- A header, a stream of 512 zeros, and these bytes for a trailer. -/
def blankArchive (trailer : Bytes) : Bytes :=
  bareHeader ++ (storedStream (List.replicate 512 0) ++ trailer)

/-- A directory "d", and beside it the archive "a". -/
def blankTree (trailer : Bytes) : FileTree :=
  ((FileTree.empty.put [[100]] (.directory 0o755)).putFile [[97]] 0o644).2.append 0
    (blankArchive trailer)

lemma extract_blankTree (trailer : Bytes) :
    (extract [97] [100]).run { files := blankTree trailer } =
      (.ok [], { files := blankTree trailer }) := by
  have hlen : (List.replicate 512 (0 : UInt8)).length = 512 := List.length_replicate
  have hl : (blankTree trailer).lookup true [97] = .ok ([[97]], .file 0) := rfl
  have hfile : (blankTree trailer).file? 0 = some ⟨blankArchive trailer, 0o644⟩ := rfl
  have hf := feedOf_file hl hfile (FileOp.mayRead_newFileMode _)
  rw [blankArchive, feed_stored hlen] at hf
  have hz : Header.isZero (List.replicate 512 0) = true :=
    List.all_eq_true.mpr fun x hx => by rw [List.eq_of_mem_replicate hx, beq_self_eq_true]
  exact run_extract_whole (w := { files := _ }) hf (members_zeros hlen hz _)

/-- A header, a stream that puts nothing out, and its trailer. -/
def emptyArchive : Bytes := bareHeader ++ [1, 0, 0, 0xff, 0xff] ++ List.replicate 8 0

def emptyTree : FileTree :=
  ((FileTree.empty.put [[100]] (.directory 0o755)).putFile [[97]] 0o644).2.append 0 emptyArchive

lemma extract_emptyTree : ((extract [97] [100]).run { files := emptyTree }).1 = .ok [] := by
  have hl : emptyTree.lookup true [97] = .ok ([[97]], .file 0) := rfl
  have hfile : emptyTree.file? 0 = some ⟨emptyArchive, 0o644⟩ := rfl
  have hf := feedOf_file hl hfile (FileOp.mayRead_newFileMode _)
  have hfeed : Gzip.feed emptyArchive = ⟨[], true, 0⟩ := by cbv
  have hmembers : members ⟨[], true, 0⟩ = ([], true) := by cbv
  rw [hfeed] at hf
  exact congrArg Prod.fst (run_extract_whole (w := { files := _ }) hf hmembers)

/-- There is no block of zeros for reading to end at. -/
lemma not_stopsAtMark_emptyArchive : ¬ StopsAtMark emptyArchive := by
  rintro ⟨header, body, upTo, hcontent, hheader, hzeros, hupTo, -⟩
  have hbody : afterHeader? emptyArchive = some ([1, 0, 0, 0xff, 0xff] ++ List.replicate 8 0) := rfl
  rw [hcontent, afterHeader?_append hheader] at hbody
  obtain rfl : body = [1, 0, 0, 0xff, 0xff] ++ List.replicate 8 0 := by simpa using hbody
  have hout : (inflate ([1, 0, 0, 0xff, 0xff] ++ List.replicate 8 0)).1.toList = [] := by cbv
  rw [hout, List.prefix_nil] at hupTo
  obtain ⟨front, zeros, hsplit, -, hlength, -⟩ := hzeros
  have hshort := congrArg List.length (hupTo.symm.trans hsplit)
  rw [List.length_append, hlength, List.length_nil] at hshort
  exact absurd hshort (by simp [blockSize])

/-- One archive ends at a block of zeros, the other with its trailer. -/
theorem extract_intact_blank :
    (((extract [97] [100]).run { files := blankTree [0, 0, 0, 0, 0, 0, 0, 0] }).1 = .ok [] ∧
      ∃ loc id file, (blankTree [0, 0, 0, 0, 0, 0, 0, 0]).lookup true [97] = .ok (loc, .file id) ∧
        (blankTree [0, 0, 0, 0, 0, 0, 0, 0]).file? id = some file ∧
        (BeginsWithMember file.content ∨ StopsAtMark file.content)) ∧
    ((extract [97] [100]).run { files := emptyTree }).1 = .ok [] ∧
      ∃ loc id file, emptyTree.lookup true [97] = .ok (loc, .file id) ∧
        emptyTree.file? id = some file ∧ ¬ StopsAtMark file.content ∧
        (BeginsWithMember file.content ∨ StopsAtMark file.content) := by
  have hblank := congrArg Prod.fst (extract_blankTree [0, 0, 0, 0, 0, 0, 0, 0])
  obtain ⟨loc, id, file, hl, hfile, hends⟩ := extract_intact extract_emptyTree
  have hplace : emptyTree.lookup true [97] = .ok ([[97]], .file 0) := rfl
  obtain ⟨rfl, hid⟩ := Prod.mk.inj (Except.ok.inj (hplace.symm.trans hl))
  obtain rfl := Node.file.inj hid
  have hheld : emptyTree.file? 0 = some ⟨emptyArchive, 0o644⟩ := rfl
  obtain rfl := Option.some.inj (hheld.symm.trans hfile)
  exact ⟨⟨hblank, extract_intact hblank⟩, extract_emptyTree, _, _, _, hl, hfile,
    not_stopsAtMark_emptyArchive, hends⟩

/-- A length of zero for 512 bytes is not noticed: they are the block of zeros at which reading
ends. -/
theorem extract_unchecked :
    ((extract [97] [100]).run { files := blankTree [0, 0, 0, 0, 0, 0, 0, 0] }).1 = .ok [] ∧
      (blankTree [0, 0, 0, 0, 0, 0, 0, 0]).lookup true [97] = .ok ([[97]], .file 0) ∧
      (blankTree [0, 0, 0, 0, 0, 0, 0, 0]).file? 0 =
        some ⟨blankArchive [0, 0, 0, 0, 0, 0, 0, 0], 0o644⟩ ∧
      ¬ BeginsWithMember (blankArchive [0, 0, 0, 0, 0, 0, 0, 0]) := by
  refine ⟨congrArg Prod.fst (extract_blankTree _), rfl, rfl, ?_⟩
  rintro ⟨data, h⟩
  obtain ⟨hc, -⟩ := feed_complete_iff.mpr h
  rw [blankArchive, feed_stored List.length_replicate] at hc
  simp only [trailerFits, Bool.and_eq_true, beq_iff_eq, List.length_replicate] at hc
  exact absurd hc.2 (by decide)

end PinnedBuild.Archive
