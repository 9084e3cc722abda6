import Mathlib
import PinnedBuild.Proofs.Build.Digest
import PinnedBuild.Proofs.Digest.Streaming

/-!
How the digest of an archive compares with the one on record: the verdict rests on what reading the
archive delivers and on nothing else. What the log says of a download rests on the verdict, so that
it is about what was received, unless the archive cannot be read or is the log itself.
-/

namespace PinnedBuild

open Files FileTree
open Digest.Standard (hexDigest)

/-! ### Letters -/

/-- The text with small letters in place of the capital ones of ASCII. -/
def asciiLower (s : String) : String := String.ofList (s.toList.map Char.toLower)

namespace Digest

variable {d e m : String} {c : Config} {t u : FileTree} {archive : Path} {b : Bytes}

lemma toLower_of_hexDigit : ∀ x ∈ "0123456789abcdef".toList, x.toLower = x := by simp

lemma hexDigit_of_toLower {x : Char} (h : x.toLower ∈ "0123456789abcdef".toList) :
    x ∈ "0123456789abcdefABCDEF".toList := by
  -- Capital letters are tried one by one, and all else is left as it is.
  by_cases hx : 65 ≤ x.toNat ∧ x.toNat < 91
  · have hupper : ∀ n < 91, 65 ≤ n → (Char.ofNat n).toLower ∈ "0123456789abcdef".toList →
        Char.ofNat n ∈ "0123456789abcdefABCDEF".toList := by decide +kernel
    rw [← Char.ofNat_toNat x] at h ⊢
    exact hupper _ hx.2 hx.1 h
  · have hsame : x.toLower = x := by
      unfold Char.toLower
      rw [dif_neg]
      rintro ⟨hlow, hhigh⟩
      exact hx ⟨hlow, Nat.lt_succ_of_le hhigh⟩
    have hdigits : ∀ y ∈ "0123456789abcdef".toList, y ∈ "0123456789abcdefABCDEF".toList := by simp
    exact hdigits x (hsame ▸ h)

lemma toLower_hexDigest (b : Bytes) :
    (hexDigest b).toList.map Char.toLower = (hexDigest b).toList := by
  have hsame : ∀ x ∈ (hexDigest b).toList, x.toLower = x := fun x hx =>
    toLower_of_hexDigit x ((Standard.hexDigest_digits b).2 x hx)
  rw [List.map_congr_left hsame, List.map_id']

lemma sameLetters_hexDigest : sameLetters (hexDigest b) e = true ↔ hexDigest b = asciiLower e := by
  unfold sameLetters asciiLower
  rw [beq_iff_eq, toLower_hexDigest]
  constructor
  · intro h
    rw [← h, String.ofList_toList]
  · intro h
    rw [h, String.toList_ofList]

/-- Nothing but 64 hexadecimal digits is the same as a digest. -/
lemma hex_of_asciiLower (h : hexDigest b = asciiLower e) :
    e.length = 64 ∧ ∀ x ∈ e.toList, x ∈ "0123456789abcdefABCDEF".toList := by
  obtain ⟨hlength, hdigits⟩ := Standard.hexDigest_digits b
  rw [h] at hlength hdigits
  unfold asciiLower at hlength hdigits
  refine ⟨by simpa [← String.length_toList] using hlength,
    fun x hx => hexDigit_of_toLower (hdigits _ ?_)⟩
  rw [String.toList_ofList]
  exact List.mem_map_of_mem hx

/-! ### The verdict -/

lemma hashFile_error : (∃ e, hashFile t archive = .error e) ↔
    ∀ b u, (FileOp.readAll archive).run t ≠ .ok (b, u) := by
  rcases h : hashFile t archive with e | d
  · refine iff_of_true ⟨e, rfl⟩ fun b u hb => ?_
    cases h.symm.trans (hashFile_ok.mpr ⟨b, u, hb, rfl⟩)
  · obtain ⟨b, u, hb, -⟩ := hashFile_ok.mp h
    exact iff_of_false (by simp) fun hnot => hnot b u hb

lemma readAll_kept (h : (FileOp.readAll archive).run t = .ok (b, u)) : u = t := by
  unfold FileOp.readAll at h
  rw [FileOp.run_bind] at h
  rcases ho : (FileOp.openRead archive).run t with err | ⟨handle, t'⟩ <;> rw [ho] at h
  · cases h
  · obtain ⟨rfl, -⟩ := FileOp.openRead_ok ho
    exact FileOp.contents_ok h

/-- What is told of a file that cannot be hashed begins with what was tried on which path. -/
def NamesPath (archive : Path) (m : String) : Prop :=
  ∃ cause, m = "open " ++ archive.display ++ ": " ++ cause ∨
    m = "hash " ++ archive.display ++ ": read: " ++ cause

lemma namesPath_of_hashFile {err : HashError} (h : hashFile t archive = .error err) :
    NamesPath archive err.message := by
  unfold hashFile at h
  split at h
  · obtain rfl := Except.error.inj h
    exact ⟨_, .inl rfl⟩
  · split at h
    · cases h
    · obtain rfl := Except.error.inj h
      exact ⟨_, .inr rfl⟩

lemma check_of_none (hc : c.expectedSha256 = none) : check c t archive = .notRecorded := by
  unfold check
  rw [hc]

lemma check_of_error {err : HashError} (hc : c.expectedSha256 = some e)
    (h : hashFile t archive = .error err) : check c t archive = .unreadable err.message := by
  unfold check
  rw [hc, h]

lemma check_of_readAll (hc : c.expectedSha256 = some e)
    (hb : (FileOp.readAll archive).run t = .ok (b, u)) : check c t archive =
      if hexDigest b = asciiLower e then .matched else .differs (hexDigest b) := by
  unfold check
  rw [hc, hashFile_ok.mpr ⟨b, u, hb, rfl⟩]
  simp only [sameLetters_hexDigest]

/-- Without a digest on record, with one and nothing to read, and with both. -/
lemma check_cases (c : Config) (t : FileTree) (archive : Path) :
    c.expectedSha256 = none ∧ check c t archive = .notRecorded ∨
    (∃ e m, c.expectedSha256 = some e ∧ (∀ b u, (FileOp.readAll archive).run t ≠ .ok (b, u)) ∧
      NamesPath archive m ∧ check c t archive = .unreadable m) ∨
    ∃ e b u, c.expectedSha256 = some e ∧ (FileOp.readAll archive).run t = .ok (b, u) ∧
      check c t archive =
        if hexDigest b = asciiLower e then .matched else .differs (hexDigest b) := by
  rcases hc : c.expectedSha256 with _ | e
  · exact .inl ⟨rfl, check_of_none hc⟩
  rcases hh : hashFile t archive with err | d
  · exact .inr (.inl ⟨e, _, rfl, hashFile_error.mp ⟨err, hh⟩, namesPath_of_hashFile hh,
      check_of_error hc hh⟩)
  · obtain ⟨b, u, hb, -⟩ := hashFile_ok.mp hh
    exact .inr (.inr ⟨e, b, u, rfl, hb, check_of_readAll hc hb⟩)

lemma check_eq_notRecorded : check c t archive = .notRecorded ↔ c.expectedSha256 = none := by
  refine ⟨fun h => ?_, check_of_none⟩
  rcases check_cases c t archive with ⟨hc, -⟩ | ⟨e, m, -, -, -, hv⟩ | ⟨e, b, u, -, -, hv⟩
  · exact hc
  · cases h.symm.trans hv
  · rw [h] at hv
    split at hv <;> cases hv

lemma check_eq_unreadable : (∃ m, check c t archive = .unreadable m) ↔
    c.expectedSha256 ≠ none ∧ ∀ b u, (FileOp.readAll archive).run t ≠ .ok (b, u) := by
  constructor
  · rintro ⟨m, h⟩
    rcases check_cases c t archive with ⟨-, hv⟩ | ⟨e, m, hc, hnot, -, -⟩ | ⟨e, b, u, -, -, hv⟩
    · cases h.symm.trans hv
    · exact ⟨by simp [hc], hnot⟩
    · rw [h] at hv
      split at hv <;> cases hv
  · rintro ⟨hc, hnot⟩
    obtain ⟨e, he⟩ := Option.ne_none_iff_exists'.mp hc
    obtain ⟨err, herr⟩ := hashFile_error.mpr hnot
    exact ⟨_, check_of_error he herr⟩

lemma namesPath_of_check (h : check c t archive = .unreadable m) : NamesPath archive m := by
  rcases check_cases c t archive with ⟨-, hv⟩ | ⟨e, m', -, -, hm, hv⟩ | ⟨e, b, u, -, -, hv⟩
  · cases h.symm.trans hv
  · obtain rfl := Verdict.unreadable.inj (h.symm.trans hv)
    exact hm
  · rw [h] at hv
    split at hv <;> cases hv

lemma check_eq_matched : check c t archive = .matched ↔ ∃ e b u, c.expectedSha256 = some e ∧
    (FileOp.readAll archive).run t = .ok (b, u) ∧ hexDigest b = asciiLower e := by
  constructor
  · intro h
    rcases check_cases c t archive with ⟨-, hv⟩ | ⟨e, m, -, -, -, hv⟩ | ⟨e, b, u, hc, hb, hv⟩
    · cases h.symm.trans hv
    · cases h.symm.trans hv
    · rw [h] at hv
      split at hv
      · exact ⟨e, b, u, hc, hb, by assumption⟩
      · cases hv
  · rintro ⟨e, b, u, hc, hb, hsame⟩
    rw [check_of_readAll hc hb, if_pos hsame]

lemma check_eq_differs : check c t archive = .differs d ↔ ∃ e b u, c.expectedSha256 = some e ∧
    (FileOp.readAll archive).run t = .ok (b, u) ∧ d = hexDigest b ∧
      hexDigest b ≠ asciiLower e := by
  constructor
  · intro h
    rcases check_cases c t archive with ⟨-, hv⟩ | ⟨e, m, -, -, -, hv⟩ | ⟨e, b, u, hc, hb, hv⟩
    · cases h.symm.trans hv
    · cases h.symm.trans hv
    · rw [h] at hv
      split at hv
      · cases hv
      · exact ⟨e, b, u, hc, hb, Verdict.differs.inj hv, by assumption⟩
  · rintro ⟨e, b, u, hc, hb, rfl, hne⟩
    rw [check_of_readAll hc hb, if_neg hne]

/-- Which verdict is come to, and when. -/
structure Judged (c : Config) (t : FileTree) (archive : Path) : Prop where
  notRecorded : check c t archive = .notRecorded ↔ c.expectedSha256 = none
  /-- Without a digest on record it does not matter what there is. -/
  unread : c.expectedSha256 = none → ∀ u p, check c u p = .notRecorded
  unreadable : (∃ m, check c t archive = .unreadable m) ↔
    c.expectedSha256 ≠ none ∧ ∀ b u, (FileOp.readAll archive).run t ≠ .ok (b, u)
  named m : check c t archive = .unreadable m → NamesPath archive m
  matched : check c t archive = .matched ↔ ∃ e b u, c.expectedSha256 = some e ∧
    (FileOp.readAll archive).run t = .ok (b, u) ∧ hexDigest b = asciiLower e
  differs d : check c t archive = .differs d ↔ ∃ e b u, c.expectedSha256 = some e ∧
    (FileOp.readAll archive).run t = .ok (b, u) ∧ d = hexDigest b ∧ hexDigest b ≠ asciiLower e
  /-- Only 64 hexadecimal digits are ever matched. -/
  digits e : c.expectedSha256 = some e → check c t archive = .matched →
    e.length = 64 ∧ ∀ x ∈ e.toList, x ∈ "0123456789abcdefABCDEF".toList

lemma judged (c : Config) (t : FileTree) (archive : Path) : Judged c t archive where
  notRecorded := check_eq_notRecorded
  unread hc _ _ := check_of_none hc
  unreadable := check_eq_unreadable
  named _ := namesPath_of_check
  matched := check_eq_matched
  differs _ := check_eq_differs
  digits e he h := by
    obtain ⟨e', b, u, he', -, hsame⟩ := check_eq_matched.mp h
    obtain rfl := Option.some.inj (he.symm.trans he')
    exact hex_of_asciiLower hsame

end Digest

/-! ### After a download -/

namespace BuildPlan

open Download

variable {p : BuildPlan} {site : Site} {w v : World} {n id : Nat} {l : Location} {f : File}
  {e : String}

def matchedLine : LogLine := ⟨.info, .driver, "archive sha256 matches recorded digest"⟩

/-- What should be said of a body when a digest is on record. -/
def bodyLine (e : String) (body : Bytes) : LogLine :=
  if hexDigest body = asciiLower e then matchedLine
  else ⟨.warn, .driver, "archive sha256 " ++ hexDigest body ++ " differs from recorded " ++ e⟩

/-- What is asked for and received. -/
def transfer (p : BuildPlan) (site : Site) : Transfer :=
  transferOf site.network p.archiveUrl site.options

lemma file?_logged {g : File} (lines : List LogLine) (h : w.files.file? id = some g)
    (hs : w.sink ≠ .file id) : (w.logged lines).files.file? id = some g :=
  World.files_logged (P := fun t => t.file? id = some g) lines h fun j b t hj ht => by
    have hne : j ≠ id := by
      rintro rfl
      exact hs hj
    rw [FileTree.append, file?_modifyFile_of_ne hne, ht]

lemma lookup_logged {follow : Bool} {q : Path} {k : Node} (lines : List LogLine)
    (h : w.files.lookup follow q = .ok (l, k)) :
    (w.logged lines).files.lookup follow q = .ok (l, k) :=
  World.files_logged (P := fun t => t.lookup follow q = .ok (l, k)) lines h
    fun _ _ _ _ ht => FileOp.lookup_modifyFile _ ht

/-- What is received once the archive has been created. -/
lemma run_received {handle : Handle} {u : FileTree}
    (hc : (FileOp.create p.archivePath).run w.files = .ok (handle, u)) :
    (p.received site).run w =
      let v : World := { w with
        files := (Disk.roomy.writes handle (p.transfer site).pieces u).2
        events := w.events ++ (p.transfer site).requests.map .requested }
      match told p.archiveUrl p.archivePath (Disk.roomy.writes handle (p.transfer site).pieces u).1
          (p.transfer site).outcome (p.transfer site).pieces.flatten.length with
      | .ok n => (.ok n, v.say (p.downloadedLine n))
      | .error e => (.error ⟨p.archiveUrl, e⟩, v) := by
  have hfetch := run_fetchOnto .roomy site.network p.archiveUrl p.archivePath site.options hc
  rw [show fetchOnto .roomy = fetch from rfl,
    show transferOf site.network p.archiveUrl site.options = p.transfer site from rfl] at hfetch
  unfold received
  rw [run_bind, Act.run_withError, hfetch]
  simp only
  rcases told p.archiveUrl p.archivePath (Disk.roomy.writes handle (p.transfer site).pieces u).1
    (p.transfer site).outcome (p.transfer site).pieces.flatten.length with e | n <;> rfl

lemma received_error {e : FileError} (hc : (FileOp.create p.archivePath).run w.files = .error e) :
    (p.received site).run w = (.error ⟨p.archiveUrl, .storage p.archivePath e⟩, w) := by
  unfold received fetch fetchOnto
  rw [run_bind, Act.run_withError, run_bind, Act.run_op, hc]
  rfl

/-- A download that succeeds leaves the whole body in the file, if it is one. -/
lemma received_ok (h : (p.received site).run w = (.ok n, v)) :
    ∃ t, v = (({ w with
        files := t
        events := w.events ++ (p.transfer site).requests.map .requested } : World).say
          (p.downloadedLine n)) ∧
      ((∃ loc id g, t.lookup true p.archivePath = .ok (loc, .file id) ∧ t.file? id = some g ∧
        g.content = (p.transfer site).pieces.flatten) ∨
        ∃ loc d, t.lookup true p.archivePath = .ok (loc, .device d)) := by
  rcases hc : (FileOp.create p.archivePath).run w.files with e | ⟨handle, u⟩
  · rw [received_error hc] at h
    cases h
  rw [run_received hc] at h
  rcases htold : told p.archiveUrl p.archivePath
      (Disk.roomy.writes handle (p.transfer site).pieces u).1 (p.transfer site).outcome
      (p.transfer site).pieces.flatten.length with e | k <;> rw [htold] at h
  · cases h
  obtain ⟨hwritten, -, -⟩ := told_ok.mp htold
  obtain ⟨hn, hv⟩ := Prod.mk.inj h
  obtain rfl := Except.ok.inj hn
  refine ⟨_, hv.symm, ?_⟩
  rcases held p.archivePath (p.transfer site).pieces hc with
    ⟨loc, id, g, hl, rfl, hg, htakes⟩ | ⟨loc, d, hl, -⟩
  · rcases htakes with ⟨-, hbody⟩ | ⟨done, piece, rest, m, e, herr, -⟩
    · exact .inl ⟨loc, id, g, hl, hg, hbody⟩
    · cases hwritten.symm.trans herr
  · exact .inr ⟨loc, d, hl⟩

/-- The line that the log is told is about the body. -/
lemma digestLines_of_readAll {b : Bytes} {u : FileTree} {archive : Path} {c : Config}
    (hc : c.expectedSha256 = some e) (hb : (FileOp.readAll archive).run w.files = .ok (b, u)) :
    digestLines c archive w = [bodyLine e b].filter w.filter.keeps := by
  unfold digestLines bodyLine
  rw [Digest.check_of_readAll hc hb]
  split
  · rfl
  · simp only [Digest.Verdict.line?, hc, Option.getD_some, Option.toList_some]

lemma download_told (h : (p.download site).run w = (.ok n, v))
    (he : p.config.expectedSha256 = some e)
    (hl : v.files.lookup true p.archivePath = .ok (l, .file id)) (hf : v.files.file? id = some f)
    (hr : v.files.user.mayRead f.mode = true) (hs : w.sink ≠ .file id) :
    f.content = (p.transfer site).pieces.flatten ∧
      v.events = w.events ++ (p.transfer site).requests.map .requested ++
        ([p.downloadedLine n, bodyLine e (p.transfer site).pieces.flatten].filter
          w.filter.keeps).map .logged := by
  rw [run_download] at h
  rcases hreceived : (p.received site).run w with ⟨e' | k, v₁⟩ <;> rw [hreceived] at h
  · exact absurd (Prod.mk.inj h).1 (by simp)
  obtain ⟨hk, rfl⟩ := Prod.mk.inj h
  rw [World.user_logged] at hr
  obtain rfl : k = n := Except.ok.inj hk
  obtain ⟨t, hv₁, hstands⟩ := received_ok hreceived
  have hsink : v₁.sink = w.sink := by rw [hv₁, World.sink_say]
  have hfilter : v₁.filter = w.filter := by rw [hv₁, World.filter_say]
  have hevents : v₁.events = w.events ++ (p.transfer site).requests.map .requested ++
      ([p.downloadedLine k].filter w.filter.keeps).map .logged := by
    rw [hv₁, World.events_say]
  rcases hstands with ⟨loc, id', g, hlook, hg, hbody⟩ | ⟨loc, d, hlook⟩
  · have hlook₁ : v₁.files.lookup true p.archivePath = .ok (loc, .file id') := by
      rw [hv₁]
      exact World.lookup_say _ hlook
    obtain ⟨-, hid⟩ := lookup_unique (lookup_logged _ hlook₁) hl
    obtain rfl : id' = id := Node.file.inj hid
    have hg₁ : v₁.files.file? id' = some g := by
      rw [hv₁, World.say_eq]
      exact file?_logged _ hg hs
    have hgf := file?_logged (digestLines p.config p.archivePath v₁) hg₁ (by rwa [hsink])
    obtain rfl : f = g := Option.some.inj (hf.symm.trans hgf)
    have hpair : [p.downloadedLine k, bodyLine e (p.transfer site).pieces.flatten] =
        [p.downloadedLine k] ++ [bodyLine e (p.transfer site).pieces.flatten] := rfl
    refine ⟨hbody, ?_⟩
    rw [World.events_logged, hevents,
      digestLines_of_readAll he (FileOp.readAll_file hlook₁ hg₁ hr), hbody, hfilter, hpair,
      List.filter_append, List.map_append, List.append_assoc]
  · have hlook₁ : v₁.files.lookup true p.archivePath = .ok (loc, .device d) := by
      rw [hv₁]
      exact World.lookup_say _ hlook
    cases (lookup_logged _ hlook₁).symm.trans hl

/-- **The digest of a download**: the verdict is as it should be, and the log says of a download
that succeeds whether its body has the digest on record, if the archive is a file that can be read
and is not the log. -/
structure ToldOf (p : BuildPlan) (site : Site) (w : World) : Prop where
  judged t archive : Digest.Judged p.config t archive
  /-- To read the archive leaves the files as they are. -/
  kept t archive b u : (FileOp.readAll archive).run t = .ok (b, u) → u = t
  /-- Nothing but the log is touched. -/
  quiet (ε : Type) archive : ∃ lines : List LogLine, lines.length ≤ 1 ∧
    (tellDigest p.config archive : Act ε Unit).run w = (.ok (), w.logged lines)
  told n v e l id f : (p.download site).run w = (.ok n, v) →
    p.config.expectedSha256 = some e → v.files.lookup true p.archivePath = .ok (l, .file id) →
    v.files.file? id = some f → v.files.user.mayRead f.mode = true → w.sink ≠ .file id →
    f.content = (p.transfer site).pieces.flatten ∧
      v.events = w.events ++ (p.transfer site).requests.map .requested ++
        ([p.downloadedLine n, bodyLine e (p.transfer site).pieces.flatten].filter
          w.filter.keeps).map .logged

/-- What the verdict and the log rest on holds of every download. -/
theorem digest_toldOf (p : BuildPlan) (site : Site) (w : World) : p.ToldOf site w where
  judged := Digest.judged p.config
  kept _ _ _ _ h := Digest.readAll_kept h
  quiet _ archive := ⟨_, length_digestLines .., run_tellDigest p.config archive w⟩
  told _ _ _ _ _ _ h he hl hf hr hs := download_told h he hl hf hr hs

/-- A build without a digest on record, in the root directory. -/
def unrecorded : BuildPlan where
  config := { commit := "", archiveName := "a", expectedSha256 := none }
  workDir := [Path.slash]
  archiveUrl := "http://h/f"

/-- The log is a file beside the archive. -/
def loggedRoot : World where
  files := (FileTree.empty.putFile [[108]] newFileMode).2
  sink := .file 0

def idleSite : Site where
  network := Download.greeting
  shop := ⟨[], fun _ t => .ok (.exited 0, t)⟩

/-- The body of the greeting has the digest that is on record. -/
def recorded : BuildPlan := unrecorded.withDigest (some (hexDigest [104, 105]))

lemma transfer_recorded : recorded.transfer idleSite = ⟨["/f"], [[104, 105]], .ok 200⟩ := by
  show transferOf Download.greeting "http://h/f" {} = _
  simp [transferOf, Download.greeting]

lemma asciiLower_hexDigest (b : Bytes) : asciiLower (hexDigest b) = hexDigest b := by
  unfold asciiLower
  rw [Digest.toLower_hexDigest, String.ofList_toList]

/-- The world once the greeting has been received into a file. -/
def greeted (id : Nat) (u : FileTree) (w : World) : World :=
  ({ w with files := u.append id [104, 105], events := w.events ++ [.requested "/f"] } : World).say
    (recorded.downloadedLine 2)

lemma run_greeted {u : FileTree} (hc : (FileOp.create recorded.archivePath).run w.files =
    .ok (.file id, u)) : (recorded.download idleSite).run w =
      (.ok 2, (greeted id u w).logged
        (digestLines recorded.config recorded.archivePath (greeted id u w))) := by
  have hreceived : (recorded.received idleSite).run w = (.ok 2, greeted id u w) := by
    rw [run_received hc, transfer_recorded]
    rfl
  rw [run_download, hreceived]

/-- The log is a file, but not the archive, and takes the line that the digests match. -/
theorem digest_toldOf_loggedRoot : ∃ v, (recorded.download idleSite).run loggedRoot = (.ok 2, v) ∧
    v.files.lookup true recorded.archivePath = .ok ([[97]], .file 1) ∧
    v.events = [.requested "/f", .logged (recorded.downloadedLine 2), .logged matchedLine] := by
  let u : FileTree := ((FileTree.empty.putFile [[108]] newFileMode).2.putFile [[97]] newFileMode).2
  have hc : (FileOp.create recorded.archivePath).run loggedRoot.files = .ok (.file 1, u) := rfl
  have hrun := run_greeted hc
  have hsink : (greeted 1 u loggedRoot).sink = .file 0 := World.sink_say ..
  have hl : (greeted 1 u loggedRoot).files.lookup true recorded.archivePath =
      .ok ([[97]], .file 1) := World.lookup_say _ rfl
  have hf : (greeted 1 u loggedRoot).files.file? 1 = some ⟨[104, 105], newFileMode⟩ := by
    unfold greeted
    rw [World.say_eq]
    exact file?_logged _ rfl (by simp [loggedRoot])
  obtain ⟨-, hevents⟩ := (digest_toldOf recorded idleSite loggedRoot).told 2 _ _ _ _ _ hrun rfl
    (lookup_logged _ hl) (file?_logged _ hf (by simp [hsink])) (FileOp.mayRead_newFileMode _)
    (by simp [loggedRoot])
  refine ⟨_, hrun, lookup_logged _ hl, ?_⟩
  rw [hevents, transfer_recorded]
  simp [bodyLine, asciiLower_hexDigest, loggedRoot, downloadedLine, matchedLine]

/-- A file that may be written and not read. -/
def writeOnly : World := { files := (FileTree.empty.putFile [[97]] 0o200).2 }

/-- A log that drops all but warnings and errors. -/
def hushed : World where
  files := (FileTree.empty.putFile [[97]] 0o644).2
  filter := [{ rank := 2 }]

/-- A log that is the archive itself. -/
def loggedInto : World := { files := (FileTree.empty.putFile [[97]] 0o644).2, sink := .file 0 }

lemma matched_of_mem {c : Config} {archive : Path} (h : matchedLine ∈ digestLines c archive w) :
    Digest.check c w.files archive = .matched ∧ w.filter.keeps matchedLine = true := by
  obtain ⟨hline, hkept⟩ := List.mem_filter.mp h
  refine ⟨?_, hkept⟩
  rcases hv : Digest.check c w.files archive with _ | _ | d | m
  case matched => rfl
  all_goals rw [hv] at hline
  · simp [Digest.Verdict.line?] at hline
  · simp [Digest.Verdict.line?, matchedLine] at hline
  · simp [Digest.Verdict.line?, matchedLine] at hline

lemma untold {u : FileTree} (hc : (FileOp.create recorded.archivePath).run w.files =
      .ok (.file 0, u)) (hl : u.lookup true recorded.archivePath = .ok ([[97]], .file 0))
    (hw : w.events = [])
    (hsilent : matchedLine ∉ digestLines recorded.config recorded.archivePath (greeted 0 u w)) :
    ∃ v, (recorded.download idleSite).run w = (.ok 2, v) ∧
      v.files.lookup true recorded.archivePath = .ok ([[97]], .file 0) ∧
      .logged matchedLine ∉ v.events := by
  have hgreeted : (greeted 0 u w).files.lookup true recorded.archivePath = .ok ([[97]], .file 0) :=
    World.lookup_say _ (FileOp.lookup_modifyFile _ hl)
  have hevents : (greeted 0 u w).events = .requested "/f" ::
      ([recorded.downloadedLine 2].filter w.filter.keeps).map .logged := by
    unfold greeted
    rw [World.events_say, hw]
    rfl
  have hne : matchedLine ≠ recorded.downloadedLine 2 := by decide +kernel
  refine ⟨_, run_greeted hc, lookup_logged _ hgreeted, fun hm => ?_⟩
  rw [World.events_logged, hevents] at hm
  simp only [List.cons_append, List.mem_cons, List.mem_append, List.mem_map, List.mem_filter,
    List.not_mem_nil, or_false, Event.logged.injEq, reduceCtorEq, exists_eq_right, false_or] at hm
  rcases hm with ⟨hsame, -⟩ | hm
  · exact hne hsame
  · exact hsilent hm

/-- An archive that cannot be read, a log that drops the line, and a log that is the archive: in
each case the download succeeds, and that the digests match is not said. -/
theorem download_untold : recorded.config.expectedSha256 = some (hexDigest [104, 105]) ∧
    (recorded.transfer idleSite).pieces.flatten = [104, 105] ∧
    ∀ w ∈ [writeOnly, hushed, loggedInto], ∃ v,
      (recorded.download idleSite).run w = (.ok 2, v) ∧
      v.files.lookup true recorded.archivePath = .ok ([[97]], .file 0) ∧
      .logged matchedLine ∉ v.events := by
  refine ⟨rfl, by rw [transfer_recorded]; rfl, ?_⟩
  simp only [List.forall_mem_cons, List.not_mem_nil, false_implies, implies_true, and_true]
  refine ⟨untold rfl rfl rfl ?_, untold rfl rfl rfl ?_, untold rfl rfl rfl ?_⟩ <;> intro hm <;>
    obtain ⟨hmatched, hkept⟩ := matched_of_mem hm
  · -- the archive cannot be read
    obtain ⟨-, b, t, -, hb, -⟩ := Digest.check_eq_matched.mp hmatched
    cases hb
  · -- the line is dropped
    rw [greeted, World.filter_say] at hkept
    exact absurd hkept (by decide)
  · -- the line before has been added to the archive
    obtain ⟨e, b, t, he, hb, hsame⟩ := Digest.check_eq_matched.mp hmatched
    obtain rfl := Option.some.inj he
    rw [asciiLower_hexDigest, ← Digest.toHex_hash, ← Digest.toHex_hash] at hsame
    have hread : (FileOp.readAll recorded.archivePath).run
        (greeted 0 loggedInto.files loggedInto).files = .ok (_, _) := rfl
    obtain ⟨rfl, -⟩ := Prod.mk.inj (Except.ok.inj (hb.symm.trans hread))
    revert hsame
    decide +kernel

end BuildPlan

end PinnedBuild
