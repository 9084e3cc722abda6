import Mathlib
import PinnedBuild.Proofs.Archive.Extract
import PinnedBuild.Proofs.Build.Run
import PinnedBuild.Proofs.Download.Fetch
import PinnedBuild.Proofs.LogFilter
import PinnedBuild.Proofs.Text.Utf8
import PinnedBuild.Proofs.Tool.Spawn

/-!
The recorded digest is compared with the archive and told of in the log, and that is all that
becomes of it: two builds that differ only in what is recorded do the same and come to the same.
-/

namespace PinnedBuild

open Files FileTree

variable {ε δ α : Type} {w v : World} {s : Sink} {t u : FileTree} {front back : List Event}

/-! ### What is told of a digest -/

/-- The line tells how the digest of an archive compares with the recorded one, or why it does not
have one. -/
def AboutDigest (archive : Path) (l : LogLine) : Prop :=
  l.text = "archive sha256 matches recorded digest" ∨
    (∃ actual recorded,
      l.text = "archive sha256 " ++ actual ++ " differs from recorded " ++ recorded) ∨
    ∃ cause, l.text = "could not hash " ++ archive.display ++ ": " ++ cause

lemma aboutDigest_line? {c : Config} {archive : Path} {verdict : Digest.Verdict} {l : LogLine}
    (h : verdict.line? c archive = some l) : AboutDigest archive l := by
  rcases verdict with _ | _ | actual | cause
  · simp [Digest.Verdict.line?] at h
  all_goals obtain rfl := Option.some.inj h
  · exact .inl rfl
  · exact .inr (.inl ⟨actual, _, rfl⟩)
  · exact .inr (.inr ⟨cause, rfl⟩)

namespace BuildPlan

/-- The lines, none or one, that the log takes about the digest. -/
def digestLines (c : Config) (archive : Path) (w : World) : List LogLine :=
  ((Digest.check c w.files archive).line? c archive).toList.filter w.filter.keeps

lemma run_tellDigest (c : Config) (archive : Path) (w : World) :
    (tellDigest c archive : Act ε Unit).run w = (.ok (), w.logged (digestLines c archive w)) := by
  unfold tellDigest digestLines
  rw [run_bind, Act.run_get]
  simp only
  rcases (Digest.check c w.files archive).line? c archive with _ | l
  · rfl
  · have hfilter : (some l).toList.filter w.filter.keeps =
        if w.filter.keeps l then [l] else [] := by simp [List.filter_cons]
    simp only
    rw [Act.run_modify, World.say_eq, hfilter]

lemma length_digestLines (c : Config) (archive : Path) (w : World) :
    (digestLines c archive w).length ≤ 1 := by
  unfold digestLines
  refine (List.length_filter_le _ _).trans ?_
  rcases (Digest.check c w.files archive).line? c archive with _ | l <;> simp

lemma aboutDigest_of_mem {c : Config} {archive : Path} {l : LogLine}
    (h : l ∈ digestLines c archive w) : AboutDigest archive l := by
  unfold digestLines at h
  exact aboutDigest_line? (Option.mem_toList.mp (List.mem_filter.mp h).1)

/-- The same build with another digest on record, or with none. -/
def withDigest (p : BuildPlan) (d : Option String) : BuildPlan :=
  { p with config := { p.config with expectedSha256 := d } }

/-! ### Downloading -/

def downloadedLine (p : BuildPlan) (n : Nat) : LogLine :=
  ⟨.info, .driver, "downloaded " ++ p.archivePath.display ++ " (" ++ toString n ++ " bytes)"⟩

/-- Up to the digest. -/
def received (p : BuildPlan) (site : Site) : Act DownloadError Nat := do
  let bytes ← Act.withError (DownloadError.mk p.archiveUrl)
    (Download.fetch site.network p.archiveUrl p.archivePath site.options)
  Act.say .info .driver
    ("downloaded " ++ p.archivePath.display ++ " (" ++ toString bytes ++ " bytes)")
  return bytes

lemma run_download (p : BuildPlan) (site : Site) (w : World) :
    (p.download site).run w = match (p.received site).run w with
      | (.ok n, v) => (.ok n, v.logged (digestLines p.config p.archivePath v))
      | (.error e, v) => (.error e, v) := by
  unfold download received
  rw [run_bind, run_bind]
  rcases (Act.withError (DownloadError.mk p.archiveUrl) (Download.fetch site.network p.archiveUrl
    p.archivePath site.options)).run w with ⟨e | n, v⟩
  · rfl
  · simp only
    rw [run_bind, run_bind, Act.run_say]
    simp only
    rw [run_bind, run_tellDigest]
    rfl

lemma sink_received (p : BuildPlan) (site : Site) (w : World) :
    ((p.received site).run w).2.sink = w.sink := by
  have hfetch :
      ((Download.fetch site.network p.archiveUrl p.archivePath site.options).run w).2.sink =
        w.sink := by
    rcases hc : (FileOp.create p.archivePath).run w.files with e | ⟨h, u⟩
    · unfold Download.fetch Download.fetchOnto
      rw [run_bind, Act.run_op, hc]
    · exact congrArg (fun r => r.2.sink) (Download.run_fetchOnto _ _ _ _ _ hc)
  unfold received
  rw [run_bind, Act.run_withError]
  rcases hr : (Download.fetch site.network p.archiveUrl p.archivePath site.options).run w with
    ⟨e | n, v⟩ <;> rw [hr] at hfetch
  · exact hfetch
  · exact (World.sink_say v _).trans hfetch

/-- What two builds have been told of the digest of the archive, one line each at most. -/
structure DigestLines (archive : Path) (mine yours : List LogLine) : Prop where
  mine_le : mine.length ≤ 1
  yours_le : yours.length ≤ 1
  about : ∀ l ∈ mine ++ yours, AboutDigest archive l

/-- Only the digest is told differently. -/
lemma beside_download (p : BuildPlan) (d : Option String) (site : Site) (w : World) :
    ∃ before mine yours, DigestLines p.archivePath mine yours ∧
      Twin (World.Beside w.sink (before ++ mine.map .logged) (before ++ yours.map .logged))
        (p.download site) ((p.withDigest d).download site) w w := by
  have hsink := sink_received p site w
  have hsame : (p.withDigest d).received site = p.received site := rfl
  unfold Twin
  rw [run_download, run_download, hsame]
  rcases hr : (p.received site).run w with ⟨e | n, v⟩ <;> rw [hr] at hsink
  · refine ⟨v.events, [], [], ⟨by simp, by simp, by simp⟩, rfl, ?_⟩
    have hv := World.Beside.refl v
    rw [show v.sink = w.sink from hsink] at hv
    simpa using hv
  · refine ⟨v.events, digestLines p.config p.archivePath v,
      digestLines (p.withDigest d).config p.archivePath v, ⟨length_digestLines _ _ _,
        length_digestLines _ _ _, fun l hl => ?_⟩, rfl, ?_⟩
    · rcases List.mem_append.mp hl with hl | hl
      · exact aboutDigest_of_mem hl
      · exact aboutDigest_of_mem hl
    · have hv := World.beside_logged v (digestLines p.config p.archivePath v)
        (digestLines (p.withDigest d).config p.archivePath v)
      rw [show v.sink = w.sink from hsink] at hv
      exact hv

/-! ### What follows the download -/

lemma beside_attempted (stage : Stage) (message : ε → String) {a b : Except ε α × World}
    (h : b.1 = a.1) (hw : World.Beside s front back a.2 b.2) :
    World.Beside s front back (attempted stage message a) (attempted stage message b) := by
  obtain ⟨r, w⟩ := a
  obtain ⟨q, v⟩ := b
  obtain rfl : q = r := h
  rcases q with e | x
  · exact (World.lifts_beside s front back).say _ hw
  · exact hw

lemma fileMode_alike (h : s.Alike t u) (id : Nat) :
    FileOp.Match s.Alike ((FileOp.fileMode id).run t) ((FileOp.fileMode id).run u) := by
  unfold FileOp.fileMode
  refine FileOp.Match.get_bind ?_
  rcases h.file?_cases id with ⟨hf, hf'⟩ | ⟨f, f', hf, hf', hmode⟩ <;> rw [hf, hf']
  · exact .error
  · simp only [hmode]
    exact .ok h

lemma openRead_alike (h : s.Alike t u) (p : Path) :
    FileOp.Match s.Alike ((FileOp.openRead p).run t) ((FileOp.openRead p).run u) := by
  unfold FileOp.openRead
  refine (FileOp.match_lookup (Sink.Alike.enduring s).toLasting h true p).bind fun r t u h => ?_
  have hguard : ∀ (mode : Mode) (f : Handle) {t' u' : FileTree}, s.Alike t' u' →
      FileOp.Match s.Alike
        ((if t.user.mayRead mode then pure f else FileOp.fail .accessDenied : FileOp Handle).run t')
        ((if u.user.mayRead mode then pure f else FileOp.fail .accessDenied :
          FileOp Handle).run u') := by
    intro mode f t' u' h'
    rw [h.user]
    split
    · exact .ok h'
    · exact .error
  rcases r with ⟨l, m | q | id | d⟩
  · exact .get_bind (hguard m _ h)
  · exact .error
  · exact .get_bind ((fileMode_alike h id).bind fun m _ _ h' => hguard m _ h')
  · exact .ok h

/-- An archive that is not the log is read the same. -/
lemma feedOf_alike (h : s.Alike t u) {archive : Path}
    (hlog : ∀ id l, s = .file id → t.lookup true archive ≠ .ok (l, .file id)) :
    FileOp.Match s.Alike ((Archive.feedOf archive).run t) ((Archive.feedOf archive).run u) := by
  unfold Archive.feedOf
  rw [FileOp.run_bind, FileOp.run_bind]
  have ho := openRead_alike h archive
  rcases hr : (FileOp.openRead archive).run t with e | ⟨f, t'⟩ <;> rw [hr] at ho
  · generalize (FileOp.openRead archive).run u = q at ho
    cases ho
    exact .error
  obtain ⟨rfl, hfile⟩ := FileOp.openRead_ok hr
  generalize (FileOp.openRead archive).run u = q at ho
  rcases ho with ⟨h⟩
  rcases f with l | id | d
  · exact .ok h
  · obtain ⟨l, g, hl, hg, -⟩ := hfile id rfl
    have hsame := h.others id fun hs => hlog id l hs hl
    simp only [FileOp.contents, FileOp.run_bind, FileOp.run_get, hsame, hg]
    exact .ok h
  · exact .ok h

lemma beside_enter (p : BuildPlan) (h : World.Beside s front back w v) :
    Twin (World.Beside s front back) p.enter p.enter w v := by
  have hS := World.lifts_beside s front back
  refine twin_get_bind ?_
  rw [h.files.isDirectory]
  split
  · have hmake := FileOp.match_makeDirectory (Sink.Alike.enduring s).toLasting h.files p.buildDir
    refine (Act.twin_onFiles hS h (hmake.toAct h.files)).bind fun _ w v h => ?_
    exact (Act.twin_say hS h _ _ _).bind fun _ _ _ h => twin_pure _ h
  · exact twin_throw _ h

lemma beside_runTool {shop : Workshop} (hshop : shop.Ignores s) (toolDir : Option Path)
    (buildDir : Path) (step : Stage × ToolStep) (h : World.Beside s front back w v) :
    Twin (World.Beside s front back) (runTool shop toolDir buildDir step)
      (runTool shop toolDir buildDir step) w v := by
  have hlocated : Twin (World.Beside s front back) (located toolDir step.2)
      (located toolDir step.2) w v := by
    unfold located
    split
    · refine twin_get_bind ?_
      have hthere := fun p => congrArg Except.isOk (h.files.lookup true p)
      unfold ToolStep.searchAt FileTree.isThere
      simp only [hthere]
      exact twin_pure _ h
    · exact twin_pure _ h
  refine hlocated.bind fun found w v h => ?_
  refine (ToolStep.beside_runIn hshop h found buildDir).bind fun ended w v h => ?_
  split
  · exact twin_pure _ h
  · exact (Act.twin_say (World.lifts_beside s front back) h _ _ _).bind fun _ _ _ h => twin_pure _ h

lemma beside_runTools {shop : Workshop} (hshop : shop.Ignores s) (c : Config)
    (toolDir : Option Path) (buildDir : Path) (h : World.Beside s front back w v) :
    Twin (World.Beside s front back) (runTools shop c toolDir buildDir)
      (runTools shop c toolDir buildDir) w v :=
  twin_mapM (fun step _ _ h => beside_runTool hshop toolDir buildDir step h) (toolSteps c) h

/-- Whatever is logged is not read by the build: the log, if it is a file, is not taken for the
archive, and the tools ignore it. -/
structure LogUnread (p : BuildPlan) (site : Site) (w : World) : Prop where
  archive : ∀ id l, w.sink = .file id →
    (p.afterDownload site w).files.lookup true p.archivePath ≠ .ok (l, .file id)
  tools : site.shop.Ignores w.sink

lemma beside_run (p : BuildPlan) (d : Option String) (site : Site) (w : World)
    (hlog : p.LogUnread site w)
    (h : Twin (World.Beside w.sink front back) (p.download site)
      ((p.withDigest d).download site) w w) :
    Twin (World.Beside w.sink front back) (p.run site) ((p.withDigest d).run site) w w := by
  have hdownload : World.Beside w.sink front back (p.afterDownload site w)
      ((p.withDigest d).afterDownload site w) :=
    beside_attempted _ _ h.1.symm h.2
  have htwin : Twin (World.Beside w.sink front back) p.extract p.extract (p.afterDownload site w)
      ((p.withDigest d).afterDownload site w) :=
    Archive.twin_extract (World.lifts_beside _ front back) (Sink.Alike.enduring _) hdownload
      (feedOf_alike hdownload.files hlog.archive)
  have hextract : World.Beside w.sink front back (p.afterExtract site w)
      ((p.withDigest d).afterExtract site w) :=
    beside_attempted _ _ htwin.1.symm htwin.2
  have hattempts : (p.withDigest d).attempts site w = p.attempts site w := by
    have hx : ((p.withDigest d).extract.run ((p.withDigest d).afterDownload site w)).1 =
        (p.extract.run (p.afterDownload site w)).1 := htwin.1.symm
    unfold attempts
    rw [h.1, hx]
  unfold Twin
  rw [run_eq, run_eq, hattempts]
  have henter : (p.withDigest d).enter = p.enter := rfl
  have htools : runTools site.shop (p.withDigest d).config = runTools site.shop p.config := rfl
  rw [henter, htools]
  rcases (beside_enter p hextract).cases with
    ⟨dir, w', v', hw, hv, hs⟩ | ⟨e, w', v', hw, hv, hs⟩ <;> rw [hw, hv]
  · simp only
    rcases (beside_runTools hlog.tools p.config site.toolDir dir hs).cases with
      ⟨records, w', v', hw, hv, hs⟩ | ⟨e, w', v', hw, hv, hs⟩ <;> rw [hw, hv]
    · exact ⟨rfl, hs⟩
    · exact ⟨rfl, hs⟩
  · exact ⟨rfl, hs⟩

/-! ### Two builds -/

/-- Two runs from the same world come to the same, do the same, and log the same but for the lines
about a digest. -/
structure Unswayed (archive : Path) (w : World) (a b : Except ε α × World) : Prop where
  outcome : b.1 = a.1
  files : w.sink.Alike a.2.files b.2.files
  whole : (∀ id, w.sink ≠ .file id) → b.2.files = a.2.files
  seen : ∃ before mine yours after, DigestLines archive mine yours ∧
    a.2.events = before ++ mine.map .logged ++ after ∧
    b.2.events = before ++ yours.map .logged ++ after
  requests : b.2.events.filterMap Event.request? = a.2.events.filterMap Event.request?
  launches : b.2.events.filterMap Event.launch? = a.2.events.filterMap Event.launch?
  log : ∀ keep : LogLine → Bool, (∀ l, AboutDigest archive l → keep l = false) →
    (b.2.events.filterMap Event.line?).filter keep = (a.2.events.filterMap Event.line?).filter keep

lemma filterMap_logged {f : Event → Option α} (hf : ∀ l, f (.logged l) = none)
    (lines : List LogLine) : (lines.map Event.logged).filterMap f = [] := by
  simp [List.filterMap_map, hf]

lemma unswayed_of_twin {archive : Path} {before : List Event} {mine yours : List LogLine}
    {a b : Act ε α} (hlines : DigestLines archive mine yours)
    (h : Twin (World.Beside w.sink (before ++ mine.map .logged) (before ++ yours.map .logged))
      a b w w) : Unswayed archive w (a.run w) (b.run w) := by
  obtain ⟨hval, hbeside⟩ := h
  obtain ⟨after, ha, hb⟩ := hbeside.events
  constructor
  case outcome => exact hval.symm
  case files => exact hbeside.files
  case whole => exact hbeside.files.eq
  case seen => exact ⟨before, mine, yours, after, hlines, ha, hb⟩
  case requests =>
    rw [ha, hb]
    simp [filterMap_logged (f := Event.request?) fun _ => rfl]
  case launches =>
    rw [ha, hb]
    simp [filterMap_logged (f := Event.launch?) fun _ => rfl]
  case log =>
    intro keep hkeep
    have hdrop : ∀ lines : List LogLine, (∀ l ∈ lines, AboutDigest archive l) →
        ((lines.map Event.logged).filterMap Event.line?).filter keep = [] := by
      intro lines habout
      rw [filterMap_line?_logged, List.filter_eq_nil_iff]
      exact fun l hl => by simp [hkeep l (habout l hl)]
    have hmine := hdrop mine fun l hl => hlines.about l (List.mem_append_left _ hl)
    have hyours := hdrop yours fun l hl => hlines.about l (List.mem_append_right _ hl)
    rw [ha, hb]
    simp only [List.filterMap_append, List.filter_append, hmine, hyours]

/-- **The recorded digest sways nothing**: with another one on record, or with none, the same is
downloaded. A run in which nothing reads the log does the same and comes to the same, whatever
becomes of its stages. -/
theorem run_unswayed (p : BuildPlan) (d : Option String) (site : Site) (w : World) :
    Unswayed p.archivePath w ((p.download site).run w) (((p.withDigest d).download site).run w) ∧
      (p.LogUnread site w →
        Unswayed p.archivePath w ((p.run site).run w) (((p.withDigest d).run site).run w)) := by
  obtain ⟨before, mine, yours, hlines, h⟩ := beside_download p d site w
  exact ⟨unswayed_of_twin hlines h, fun hlog =>
    unswayed_of_twin hlines (beside_run p d site w hlog h)⟩

/-! ### A log beside the archive -/

/-- A build without a digest on record, which needs two tools. -/
def plain : BuildPlan where
  config :=
    { commit := "", archiveName := "a", expectedSha256 := none, buildJobs := 1,
      installWithSudo := false }
  workDir := [Path.slash]
  archiveUrl := "http://h/f"

/-- The log, the archive, two tools, a file for their notes, and the source tree. -/
def toolTree (log archive notes : Bytes) : FileTree where
  nodes :=
    [([], .directory 0o755), ([Path.ofString "llvm-project-"], .directory 0o755),
     ([[108]], .file 0), ([[97]], .file 1), ([Path.ofString "cmake"], .file 2),
     ([Path.ofString "ninja"], .file 2), ([[110]], .file 3)]
  files := [⟨log, newFileMode⟩, ⟨archive, newFileMode⟩, ⟨[], 0o755⟩, ⟨notes, newFileMode⟩]
  cwd := []

/-- The same when two bytes have been received. -/
abbrev receivedTree (log : Bytes) : FileTree := toolTree log [104, 105] []

/-- The same when the build directory has been made, too. -/
def enteredTree (log notes : Bytes) : FileTree :=
  (toolTree log [104, 105] notes).put
    [Path.ofString "llvm-project-", Path.ofString "build"] (.directory 0o755)

def loggedSources : World where
  files := toolTree [] [] []
  sink := .file 0

def siteWith (behaviour : ToolBehaviour) : Site where
  network := Download.greeting
  shop := ⟨[[Path.slash]], behaviour⟩

/-- What the log holds, in a tree of which the rest is known. -/
structure Logs (tree : Bytes → FileTree) (log : Bytes) (w : World) : Prop where
  files : w.files = tree log
  sink : w.sink = .file 0
  filter : w.filter = .standard
  time : w.time = ""

variable {tree : Bytes → FileTree} {log notes : Bytes} {behaviour : ToolBehaviour}

/-- What a line adds to the log. -/
def lineBytes (l : LogLine) : Bytes := Bytes.ofString (l.stamped "")

lemma lineBytes_ne_nil (l : LogLine) : lineBytes l ≠ [] := by
  have hend : Bytes.ofString "\n" = [10] := rfl
  rw [lineBytes, LogLine.stamped, Text.Utf8.ofString_append, hend]
  simp

namespace Logs

lemma say (htree : ∀ b x, (tree b).append 0 x = tree (b ++ x)) (h : Logs tree log w)
    (l : LogLine) : Logs tree (log ++ lineBytes l) (w.say l) := by
  unfold World.say World.record
  rw [h.filter, LogFilter.standard_keeps, if_pos rfl, h.sink, h.time]
  exact ⟨(congrArg (FileTree.append · 0 _) h.files).trans (htree _ _), rfl, rfl, rfl⟩

/-- A digest that is on record is told of. -/
lemma tellDigest (htree : ∀ b x, (tree b).append 0 x = tree (b ++ x)) (h : Logs tree log w)
    (p : BuildPlan) (expected : String) : ∃ told ≠ [], Logs tree (log ++ told)
      (w.logged (digestLines (p.withDigest (some expected)).config p.archivePath w)) := by
  obtain ⟨l, hline⟩ : ∃ l,
      (Digest.check (p.withDigest (some expected)).config w.files p.archivePath).line?
        (p.withDigest (some expected)).config p.archivePath = some l := by
    unfold Digest.check withDigest
    simp only
    rcases Digest.hashFile w.files p.archivePath with e | actual
    · exact ⟨_, rfl⟩
    · simp only
      split <;> exact ⟨_, rfl⟩
  refine ⟨lineBytes l, lineBytes_ne_nil l, ?_⟩
  have hsay := h.say htree l
  rw [World.say_eq, h.filter] at hsay
  rw [digestLines, hline, h.filter]
  simpa using hsay

end Logs

lemma fetch_loggedSources : (Download.fetch (siteWith behaviour).network plain.archiveUrl
    plain.archivePath (siteWith behaviour).options).run loggedSources =
      (.ok 2, { loggedSources with files := receivedTree [], events := [.requested "/f"] }) := by
  have hc : (FileOp.create plain.archivePath).run loggedSources.files =
      .ok (.file 1, toolTree [] [] []) := rfl
  have ht : Download.transferOf Download.greeting "http://h/f" {} =
      ⟨["/f"], [[104, 105]], .ok 200⟩ := by
    simp [Download.transferOf, Download.greeting]
  have hrun := Download.run_fetchOnto (w := loggedSources) .roomy Download.greeting "http://h/f"
    plain.archivePath {} hc
  rw [ht] at hrun
  exact hrun

/-- The log tells of a digest just if one is on record. -/
lemma logs_afterDownload (behaviour : ToolBehaviour) (d : Option String) :
    ∃ told, (d = none ↔ told = []) ∧ Logs receivedTree (lineBytes (plain.downloadedLine 2) ++ told)
      ((plain.withDigest d).afterDownload (siteWith behaviour) loggedSources) := by
  obtain ⟨v, hv⟩ : ∃ v, v = World.say (plain.downloadedLine 2)
    { loggedSources with files := receivedTree [], events := [.requested "/f"] } := ⟨_, rfl⟩
  have hlogs : Logs receivedTree (lineBytes (plain.downloadedLine 2)) v := by
    rw [hv]
    have hnone : Logs receivedTree []
        { loggedSources with files := receivedTree [], events := [.requested "/f"] } :=
      ⟨rfl, rfl, rfl, rfl⟩
    exact hnone.say (fun _ _ => rfl) (plain.downloadedLine 2)
  have hreceived : ((plain.withDigest d).received (siteWith behaviour)).run loggedSources =
      (.ok 2, v) := by
    have hsame : (plain.withDigest d).received (siteWith behaviour) =
        plain.received (siteWith behaviour) := rfl
    rw [hsame, received, run_bind, Act.run_withError, fetch_loggedSources, hv]
    rfl
  have hdownload : (plain.withDigest d).afterDownload (siteWith behaviour) loggedSources =
      v.logged (digestLines (plain.withDigest d).config plain.archivePath v) := by
    rw [afterDownload, run_download, hreceived]
    rfl
  rw [hdownload]
  rcases d with _ | expected
  · refine ⟨[], by simp, ?_⟩
    rw [List.append_nil]
    exact hlogs
  · obtain ⟨told, hne, h⟩ := hlogs.tellDigest (fun _ _ => rfl) plain expected
    exact ⟨told, by simp [hne], h⟩

/-- What has been received is no archive. -/
lemma run_extract_received (h : Logs receivedTree log w) :
    plain.extract.run w = (.error (.corrupted [47, 97]), w) := by
  have hfeed : (Archive.feedOf [47, 97]).run w.files =
      .ok (Archive.Gzip.feed [104, 105], w.files) := by
    rw [h.files]
    rfl
  have hmembers : Archive.members (Archive.Gzip.feed [104, 105]) = ([], false) := by cbv
  have hpath : plain.archivePath = [47, 97] := rfl
  unfold extract Archive.extract
  rw [run_bind, Act.run_op, hpath, hfeed]
  simp only [hmembers]
  rfl

def corruptedLine : LogLine := ⟨.warn, .driver, Stage.extract.name ++
  " failed, continuing: " ++ Archive.ExtractError.message (.corrupted [47, 97])⟩

def createdLine : LogLine := ⟨.info, .driver, "created " ++ plain.buildDir.display⟩

lemma logs_enter (d : Option String) (h : Logs receivedTree log w) : ∃ v,
    (plain.withDigest d).enter.run w = (.ok plain.buildDir, v) ∧
      Logs (enteredTree · []) (log ++ lineBytes createdLine) v := by
  have hdir : w.files.isDirectory (plain.withDigest d).sourceDir = true := by
    rw [h.files]
    rfl
  have hmake : (FileOp.makeDirectory (plain.withDigest d).buildDir).run w.files =
      .ok ((), enteredTree log []) := by
    rw [h.files]
    cbv
  have hentered : Logs (enteredTree · []) log { w with files := enteredTree log [] } :=
    ⟨rfl, h.sink, h.filter, h.time⟩
  refine ⟨_, ?_, hentered.say (fun _ _ => rfl) createdLine⟩
  unfold enter
  rw [run_bind, Act.run_get]
  simp only
  rw [hdir, if_pos rfl, run_bind, Act.run_op, hmake]
  rfl

/-! ### Tools beside the log -/

lemma mem_steps {s : ToolStep} (hs : s ∈ (toolSteps plain.config).map Prod.snd) :
    s = .configure plain.config.cmake ∨ s = .build 1 ∨ s = .install false := by
  simpa [toolSteps, plain] using hs

/-- Neither the tools nor their arguments hold a zero byte. -/
lemma nonzero_steps {s : ToolStep} (hs : s ∈ (toolSteps plain.config).map Prod.snd) :
    (Path.ofString s.program).contains 0 = false ∧
      s.args.any (fun a => a.contains '\x00') = false := by
  rcases mem_steps hs with rfl | rfl | rfl <;>
    simp [ToolStep.configure, ToolStep.build, ToolStep.install, plain,
      ToolStep.sourceRelative, ToolStep.onOff] <;> decide

def runningLine (s : ToolStep) : LogLine :=
  ⟨.info, .toolchain, "running `" ++ s.display ++ "` in " ++ plain.buildDir.display⟩

/-- A tool that is found is started. -/
lemma startOf_found {shop : Workshop} {buildDir path : Path} {place found : Location}
    {content : Bytes} {s : ToolStep} (hw : (announced buildDir s w).files = t)
    (hs : (Path.ofString s.program).contains 0 = false ∧
      s.args.any (fun a => a.contains '\x00') = false)
    (hcwd : buildDir.contains 0 = false) (henter : Spawn.enter t buildDir = .ok place)
    (hfind : Spawn.find { t with cwd := place } shop.searchPath (Path.ofString s.program) =
      .ok (path, found, content)) :
    startOf shop none buildDir w s =
      (shop.behaviour ⟨found, path, content, s.args, place⟩ t).mapError .file := by
  unfold startOf atHand ToolStep.start
  simp only
  rw [hw, Spawn.prepare_found hs.1 hs.2 hcwd henter hfind]
  rfl

lemma startOf_siteWith (behaviour : ToolBehaviour) {s : ToolStep}
    (hs : s ∈ (toolSteps plain.config).map Prod.snd)
    (h : (announced plain.buildDir s w).files = enteredTree log notes) :
    ∃ process, process.args = s.args ∧
      startOf (siteWith behaviour).shop none plain.buildDir w s =
        (behaviour process (enteredTree log notes)).mapError .file := by
  obtain ⟨path, place, content, hf⟩ : ∃ path place content,
      Spawn.find { enteredTree log notes with
          cwd := [Path.ofString "llvm-project-", Path.ofString "build"] }
        (siteWith behaviour).shop.searchPath (Path.ofString s.program) =
          .ok (path, place, content) := by
    rcases mem_steps hs with rfl | rfl | rfl <;> exact ⟨_, _, _, rfl⟩
  have henter : Spawn.enter (enteredTree log notes) plain.buildDir =
      .ok [Path.ofString "llvm-project-", Path.ofString "build"] := rfl
  have hstart := startOf_found h (nonzero_steps hs) (by decide) henter hf
  exact ⟨_, rfl, hstart⟩

/-- Tools that leave all as it is but for what they note. -/
def Noting (behaviour : ToolBehaviour) : Prop := ∀ process log notes, ∃ ending notes',
  behaviour process (enteredTree log notes) = .ok (ending, enteredTree log notes')

lemma logs_left (r : ToolTurn) (notes' : Bytes) (h : Logs (enteredTree · notes) log w) :
    ∃ log', Logs (enteredTree · notes') log' (left plain.buildDir r
      (enteredTree (log ++ lineBytes (runningLine r.step)) notes') w) := by
  have ha := h.say (fun _ _ => rfl) (runningLine r.step)
  have hv : Logs (enteredTree · notes') _
      { (announced plain.buildDir r.step w).emit (.launched (r.launch plain.buildDir)) with
        files := enteredTree (log ++ lineBytes (runningLine r.step)) notes' } :=
    ⟨rfl, ha.sink, ha.filter, ha.time⟩
  unfold left
  simp only
  split
  · exact ⟨_, hv⟩
  · exact ⟨_, hv.say (fun _ _ => rfl) _⟩

lemma worked_noting (hb : Noting behaviour) (steps : List (Stage × ToolStep))
    (hsteps : ∀ s ∈ steps.map Prod.snd, s ∈ (toolSteps plain.config).map Prod.snd)
    (h : Logs (enteredTree · notes) log w) :
    ∃ turns u, Worked (siteWith behaviour).shop none plain.buildDir w steps turns u := by
  refine exists_worked (P := fun w => ∃ log notes, Logs (enteredTree · notes) log w)
    ⟨log, notes, h⟩ ?_
  rintro ⟨stage, s⟩ hmem w ⟨log, notes, h⟩
  have ha := h.say (fun _ _ => rfl) (runningLine s)
  obtain ⟨process, -, hstart⟩ :=
    startOf_siteWith behaviour (hsteps s (List.mem_map_of_mem hmem)) ha.files
  obtain ⟨ending, notes', hend⟩ := hb process (log ++ lineBytes (runningLine s)) notes
  rw [hend] at hstart
  obtain ⟨log', hleft⟩ := logs_left ⟨stage, s, ending⟩ notes' h
  exact ⟨_, _, hstart, log', notes', hleft⟩

/-- The log as the first tool finds it, with what is told of the digest. -/
def foundLog (told : Bytes) : Bytes :=
  lineBytes (plain.downloadedLine 2) ++ told ++ lineBytes corruptedLine ++ lineBytes createdLine ++
    lineBytes (runningLine (.configure plain.config.cmake))

/-- All tools come to their ends, and the first one has found what is told of the digest. -/
lemma run_noting (hb : Noting behaviour) (d : Option String) :
    ∃ told process ending notes more, (d = none ↔ told = []) ∧
      process.args = (ToolStep.configure plain.config.cmake).args ∧
      behaviour process (enteredTree (foundLog told) []) =
        .ok (ending, enteredTree (foundLog told) notes) ∧
      (((plain.withDigest d).run (siteWith behaviour)).run loggedSources).1 =
        .ok ⟨plain.buildDir,
          (plain.withDigest d).attempts (siteWith behaviour) loggedSources ++
            ⟨.configure, ending.status⟩ :: more⟩ := by
  obtain ⟨told, htold, hlogs⟩ := logs_afterDownload behaviour d
  have hextract : (plain.withDigest d).afterExtract (siteWith behaviour) loggedSources =
      ((plain.withDigest d).afterDownload (siteWith behaviour) loggedSources).say corruptedLine :=
    congrArg (attempted .extract Archive.ExtractError.message) (run_extract_received hlogs)
  obtain ⟨v, henter, hentered⟩ := logs_enter d (hlogs.say (fun _ _ => rfl) corruptedLine)
  rw [← hextract] at henter
  have ha := hentered.say (fun _ _ => rfl) (runningLine (.configure plain.config.cmake))
  obtain ⟨process, hargs, hstart⟩ := startOf_siteWith behaviour
    (s := .configure plain.config.cmake) (by simp [toolSteps]) ha.files
  obtain ⟨ending, notes, hend⟩ := hb process (foundLog told) []
  have hstart : startOf _ none _ v (.configure plain.config.cmake) =
      .ok (ending, enteredTree (foundLog told) notes) :=
    hstart.trans (congrArg (Except.mapError SpawnError.file) hend)
  obtain ⟨log', hleft⟩ := logs_left
    ⟨.configure, .configure plain.config.cmake, ending⟩ notes hentered
  obtain ⟨turns, u, hw⟩ := worked_noting hb [(.build, .build 1), (.install, .install false)]
    (by simp [toolSteps, plain]) hleft
  have hworked : Worked (siteWith behaviour).shop none plain.buildDir v
      (toolSteps (plain.withDigest d).config) _ u := .tool hstart hw
  refine ⟨told, process, ending, notes, turns.map ToolTurn.record, htold, hargs, hend, ?_⟩
  have hrun := run_of_worked (p := plain.withDigest d) henter hworked
  rw [hrun]
  rfl

/-- Tools that note a byte and end with the number of their arguments. -/
def busy : ToolBehaviour := fun process t =>
  .ok (.exited (UInt8.ofNat process.args.length), t.append 3 [10])

/-- The log is a file, but the build leaves it alone: the archive is another file, and the tools do
not look at it. They all run, and none ends well. -/
theorem run_unswayed_busy : plain.LogUnread (siteWith busy) loggedSources ∧
    (∃ report, ((plain.run (siteWith busy)).run loggedSources).1 = .ok report ∧
      ⟨.configure, .exited (some 9)⟩ ∈ report.stages) ∧
    Unswayed plain.archivePath loggedSources ((plain.run (siteWith busy)).run loggedSources)
      (((plain.withDigest (some "0")).run (siteWith busy)).run loggedSources) := by
  have hlog : plain.LogUnread (siteWith busy) loggedSources := by
    refine ⟨fun id l hs hl => ?_, fun id _ process content t u h _ => ?_⟩
    · obtain ⟨told, -, h⟩ := logs_afterDownload busy none
      have hfiles : (plain.afterDownload (siteWith busy) loggedSources).files = _ := h.files
      have hplace : (receivedTree (lineBytes (plain.downloadedLine 2) ++ told)).lookup true
          plain.archivePath = .ok ([[97]], .file 1) := rfl
      obtain rfl := Sink.file.inj hs
      rw [hfiles, hplace] at hl
      simp at hl
    · exact .ok ((Sink.Alike.enduring _).append h 3 _)
  have hnoting : Noting busy := fun _ _ notes => ⟨_, notes ++ [10], rfl⟩
  obtain ⟨told, process, ending, notes, more, -, hargs, hend, hrun⟩ := run_noting hnoting none
  obtain rfl : ToolEnd.exited (UInt8.ofNat process.args.length) = ending :=
    (Prod.mk.inj (Except.ok.inj hend)).1
  have hstatus : (ToolEnd.exited (UInt8.ofNat process.args.length)).status = .exited (some 9) := by
    rw [hargs]
    rfl
  rw [hstatus] at hrun
  exact ⟨hlog, ⟨_, hrun, List.mem_append_right _ (List.mem_cons_self ..)⟩,
    (run_unswayed plain (some "0") (siteWith busy) loggedSources).2 hlog⟩

/-- Tools that fail once the log has more than a number of bytes. -/
def limited (n : Nat) : ToolBehaviour := fun _ t =>
  .ok (.exited (if (t.file? 0).any fun f => n < f.content.length then 1 else 0), t)

lemma limited_entered (n : Nat) (process : Process) :
    limited n process (enteredTree log notes) =
      .ok (.exited (if n < log.length then 1 else 0), enteredTree log notes) := by
  simp [limited, enteredTree, toolTree, FileTree.put, FileTree.erase, FileTree.file?]

/-- A tool that looks at the log may well be swayed by what is said there of the digest. -/
theorem run_swayed : ¬ ∀ (p : BuildPlan) (d : Option String) (site : Site) (w : World),
    Unswayed p.archivePath w ((p.run site).run w) (((p.withDigest d).run site).run w) := by
  intro h
  obtain ⟨n, hn⟩ : ∃ n, n = (foundLog []).length := ⟨_, rfl⟩
  have hnoting : Noting (limited n) := fun process log notes => ⟨_, _, limited_entered n process⟩
  obtain ⟨told, process, ending, _, more, htold, -, hend, hrun⟩ := run_noting hnoting none
  obtain ⟨told', process', ending', _, more', htold', -, hend', hrun'⟩ :=
    run_noting hnoting (some "0")
  obtain rfl := htold.mp rfl
  have hlonger : n < (foundLog told').length := by
    have hpos : 0 < told'.length :=
      List.length_pos_iff.mpr fun hnil => by simpa using htold'.mpr hnil
    simp only [hn, foundLog, List.length_append, List.length_nil]
    omega
  rw [limited_entered, if_neg (by omega)] at hend
  rw [limited_entered, if_pos hlonger] at hend'
  obtain ⟨rfl, -⟩ := Prod.mk.inj (Except.ok.inj hend)
  obtain ⟨rfl, -⟩ := Prod.mk.inj (Except.ok.inj hend')
  have hnone : plain.withDigest none = plain := rfl
  have hsame := (h plain (some "0") (siteWith (limited n)) loggedSources).outcome
  rw [← hnone, hrun] at hsame
  have hstages := (BuildReport.mk.inj (Except.ok.inj (hrun'.symm.trans hsame))).2
  obtain ⟨-, hmore⟩ := List.append_inj hstages rfl
  have hstatus := (StageRecord.mk.inj (List.cons.inj hmore).1).2
  simp [ToolEnd.status] at hstatus

end BuildPlan

end PinnedBuild
