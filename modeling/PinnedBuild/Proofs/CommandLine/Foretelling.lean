import Mathlib
import PinnedBuild.Proofs.CommandLine.Traces

/-!
The address that is printed when it is asked for is the one that a build prints first, and the one
that it downloads from. Both load the configuration alike, and fail alike where there is none.
-/

namespace PinnedBuild

open Files FileTree

variable {w v u : World}

/-- Networks that answer an address alike are alike for its download. -/
lemma Download.fetch_congr {net net' : Network} {url : String} {options : FetchOptions}
    (h : transferOf net' url options = transferOf net url options) (dest : Path) :
    fetch net' url dest options = fetch net url dest options := by
  unfold fetch fetchOnto
  rw [h]

namespace BuildPlan

variable {p : BuildPlan} {site : Site}

/-- A run turns to its network for one address only. -/
lemma run_network {net : Download.Network}
    (h : Download.transferOf net p.archiveUrl site.options =
      Download.transferOf site.network p.archiveUrl site.options) :
    p.run { site with network := net } = p.run site := by
  have hdownload : p.download { site with network := net } = p.download site := by
    unfold download
    rw [Download.fetch_congr h]
  unfold run
  rw [hdownload]

/-- What a run asks for in front of all else: what the transfer of its address does, unless the
archive cannot be opened. -/
def asked (p : BuildPlan) (site : Site) (t : FileTree) : List String :=
  match (FileOp.create p.archivePath).run t with
  | .ok _ => (Download.transferOf site.network p.archiveUrl site.options).requests
  | .error _ => []

lemma events_fetch (p : BuildPlan) (site : Site) (w : World) :
    ((Download.fetch site.network p.archiveUrl p.archivePath site.options).run w).2.events =
      w.events ++ (p.asked site w.files).map .requested := by
  unfold asked
  rcases hc : (FileOp.create p.archivePath).run w.files with e | ⟨h, t⟩
  · unfold Download.fetch Download.fetchOnto
    rw [run_bind, Act.run_op, hc]
    simp
  · unfold Download.fetch
    rw [Download.run_fetchOnto _ _ _ _ _ hc]

/-- After the transfer a download asks for nothing more. -/
lemma shown_download (p : BuildPlan) (site : Site) (w : World) :
    ((Download.fetch site.network p.archiveUrl p.archivePath site.options).run w).2.Shown
      ((p.download site).run w).2 [] [] := by
  rw [run_download]
  unfold received
  rw [run_bind, Act.run_withError]
  rcases (Download.fetch site.network p.archiveUrl p.archivePath site.options).run w with
    ⟨e | n, v⟩
  · exact .refl v
  · exact (World.shown_say v _).trans (World.shown_logged _ _)

/-- Nor does any of the rest. -/
lemma shown_run (p : BuildPlan) (site : Site) (w : World) :
    ∃ launches, (p.afterDownload site w).Shown ((p.run site).run w).2 launches [] := by
  obtain ⟨turns, hcourse⟩ := exists_course p site w
  have hextract : (p.afterDownload site w).Shown (p.afterExtract site w) [] [] :=
    (after_extract p (p.afterDownload site w)).state.trans (shown_attempted _ _ _)
  exact ⟨_, hextract.trans hcourse.launched⟩

/-- A run begins with the requests of its download and sends no others. -/
lemma exists_requested (p : BuildPlan) (site : Site) (w : World) :
    ∃ rest, ((p.run site).run w).2.events =
        w.events ++ (p.asked site w.files).map .requested ++ rest ∧
      rest.filterMap Event.request? = [] := by
  obtain ⟨launches, hrun⟩ := shown_run p site w
  have hdownload := (shown_download p site w).trans (shown_attempted .download
    DownloadError.message ((p.download site).run w))
  obtain ⟨rest, hrest, -, hnone⟩ := hdownload.trans hrun
  exact ⟨rest, by rw [hrest, events_fetch], by simpa using hnone⟩

end BuildPlan

namespace CommandLine

variable {site : Site} {e : Environment} {config workDir : Option Path}
  {commit : Option String} {jobs : Option UInt32} {noSudo : Bool} {c : Config} {dir : Path}

/-- A build prints the address, sends the requests of its download, and then no others. -/
lemma exists_first (site : Site) (c : Config) (dir : Path) (w : World) :
    ∃ rest, ((build site c dir).run w).2.events = w.events ++ .printed c.archiveUrl ::
        ((BuildPlan.ofConfig c dir).asked site w.files).map .requested ++ rest ∧
      rest.filterMap Event.request? = [] := by
  obtain ⟨rest, hrest, hnone⟩ := BuildPlan.exists_requested (BuildPlan.ofConfig c dir) site
    (w.emit (.printed c.archiveUrl))
  rcases hr : ((BuildPlan.ofConfig c dir).run site).run (w.emit (.printed c.archiveUrl)) with
    ⟨err | report, u⟩ <;> rw [hr] at hrest
  · rw [run_build_failed site c dir hr]
    exact ⟨rest, by simpa [World.emit] using hrest, hnone⟩
  · rw [run_build site c dir hr]
    obtain ⟨v, hv, hevents⟩ := run_finish report u
    have hu : u.events = _ := hrest
    rw [hv]
    refine ⟨rest ++ report.stages.map (fun r => .printed (reportLine r)) ++
      (closingLines report u.filter).map .logged, ?_, ?_⟩
    · simp only [hevents, hu, World.emit, List.append_assoc, List.cons_append, List.nil_append]
    · simp [hnone, Event.request?]

lemma build_network {net : Download.Network}
    (h : Download.transferOf net c.archiveUrl site.options =
      Download.transferOf site.network c.archiveUrl site.options) (dir : Path) :
    build { site with network := net } c dir = build site c dir := by
  have hrun : (BuildPlan.ofConfig c dir).run { site with network := net } =
    (BuildPlan.ofConfig c dir).run site := BuildPlan.run_network h
  unfold build
  simp only [hrun]

/-- The address that is built from is the one that is printed on demand. -/
lemma archiveUrl_apply (commit : Option String) (jobs : Option UInt32) (noSudo : Bool)
    (c : Config) :
    ((⟨commit, jobs, noSudo⟩ : BuildOverrides).apply c).archiveUrl =
      Snapshot.archiveUrl (commit.getD c.commit) := rfl

/-- A directory that the program was started in, or that is given, is there to build in. -/
lemma chosenDirectory_ok (h : workDir = none →
      ∃ m, w.files.node? w.files.cwd = some (.directory m)) :
    ∃ dir, (chosenDirectory workDir).run w = (.ok dir, w) := by
  rcases workDir with _ | d
  · obtain ⟨m, hm⟩ := h rfl
    refine ⟨Path.slash :: List.intercalate [Path.slash] w.files.cwd, ?_⟩
    unfold chosenDirectory startDirectory
    simp only
    rw [run_bind, Act.run_get]
    simp only
    rw [hm]
    rfl
  · exact ⟨d, rfl⟩

/-- What one who has been told the address knows of the build: it prints the same up to there, and
then sends just the requests of the download from there before all else. -/
structure Foretells (site : Site) (plan : BuildPlan) (w asking building : World) : Prop where
  printed : ∃ before : List LogLine,
    asking.events = w.events ++ before.map .logged ++ [.printed plan.archiveUrl]
  requested : ∃ rest, building.events =
      asking.events ++ (plan.asked site asking.files).map .requested ++ rest ∧
    rest.filterMap Event.request? = []

/-- **Asking for the address foretells the build.** If the address is printed, a build with the same
configuration and commit, whatever else is asked of it, prints the same address first and downloads
from there, and from nowhere else. If there is no configuration, the build fails alike, and nothing
comes of it that does not come of asking. -/
theorem url_foretells (site : Site) (e : Environment) {uargs bargs : List Bytes}
    {config workDir : Option Path} {commit : Option String} {jobs : Option UInt32} {noSudo : Bool}
    {w : World}
    (hu : parse uargs = .ok ⟨config, .url commit⟩)
    (hb : parse bargs = .ok ⟨config, .build workDir commit jobs noSudo⟩)
    (hdir : workDir = none → ∃ m, w.files.node? w.files.cwd = some (.directory m)) :
    ((run site e uargs w).1.exitStatus = 0 → ∃ c dir v,
      (prepare e config workDir commit jobs noSudo).run (startLog e w) = (.ok (c, dir), v) ∧
      Foretells site (.ofConfig c dir) w (run site e uargs w).2 (run site e bargs w).2 ∧
      ∀ net, Download.transferOf net c.archiveUrl site.options =
          Download.transferOf site.network c.archiveUrl site.options →
        run { site with network := net } e bargs w = run site e bargs w) ∧
    ((run site e uargs w).1.exitStatus ≠ 0 →
      (∃ x, (run site e uargs w).1 = .failed (.config x)) ∧
      run site e bargs w = run site e uargs w ∧
      w.Quiet (run site e bargs w).2 ∧
      ∀ loc id, (run site e bargs w).2.files.node? loc = some (.file id) →
        (startLog e w).files.node? loc = some (.file id)) := by
  have hurun : run site e uargs w = _ := dispatch_command (w := startLog e w) hu
  have hbrun : ∀ site', run site' e bargs w = _ :=
    fun site' => dispatch_command (w := startLog e w) hb
  have hquiet := (quiet_startLog e w).trans (quiet_loadConfig e config (startLog e w))
  have hlong := (lengthens_startLog e w).trans (lengthens_loadConfig e config (startLog e w))
  rw [hurun, hbrun site, run_url, run_build_prepared, run_prepare]
  rcases hload : (loadConfig e config).run (startLog e w) with ⟨err | c, v⟩ <;>
    rw [hload] at hquiet hlong
  · obtain ⟨x, rfl⟩ := loadConfig_error (congrArg Prod.fst hload)
    refine ⟨fun h => absurd h (by simp [endingOf, Ending.exitStatus]), fun _ => ?_⟩
    exact ⟨⟨x, rfl⟩, rfl, hquiet, fun loc id hn => loadConfig_file hload hn⟩
  · have hstart : workDir = none → ∃ m, v.files.node? v.files.cwd = some (.directory m) := by
      intro hnone
      obtain ⟨m, hm⟩ := hdir hnone
      rw [hlong.cwd]
      exact ⟨m, hlong.keeps.node _ _ hm⟩
    obtain ⟨dir, hchosen⟩ := chosenDirectory_ok hstart
    simp only [hchosen, Except.map]
    refine ⟨fun _ => ⟨_, dir, v, rfl, ⟨?_, ?_⟩, fun net hnet => ?_⟩,
      fun h => absurd h (by simp [endingOf, Ending.exitStatus])⟩
    · obtain ⟨lines, hlines⟩ := hquiet
      exact ⟨lines, congrArg (· ++ _) hlines⟩
    · obtain ⟨rest, hrest, hnone⟩ := exists_first site
        ((⟨commit, jobs, noSudo⟩ : BuildOverrides).apply c) dir v
      refine ⟨rest, ?_, hnone⟩
      rw [hrest]
      simp [World.emit, archiveUrl_apply]
    · rw [hbrun, run_build_prepared, run_prepare, hload]
      simp only [hchosen, Except.map]
      rw [build_network hnet]

def urlArgs : List Bytes := [.ofString "url"]

def buildArgs : List Bytes := [.ofString "build", .ofString "--no-sudo"]

/-- Neither command finds a configuration, and both make the default one. -/
theorem url_foretells_bareWorld :
    parse urlArgs = .ok ⟨none, .url none⟩ ∧
    parse buildArgs = .ok ⟨none, .build none none none true⟩ ∧
    (run idleTools ownDirectories urlArgs bareWorld).1.exitStatus = 0 ∧
    ∃ c dir v, (prepare ownDirectories none none none none true).run
        (startLog ownDirectories bareWorld) = (.ok (c, dir), v) ∧
      Foretells idleTools (.ofConfig c dir) bareWorld
        (run idleTools ownDirectories urlArgs bareWorld).2
        (run idleTools ownDirectories buildArgs bareWorld).2 := by
  have hu : parse urlArgs = .ok ⟨none, .url none⟩ := rfl
  have hb : parse buildArgs = .ok ⟨none, .build none none none true⟩ := rfl
  have hdone : (run idleTools ownDirectories urlArgs bareWorld).1.exitStatus = 0 := rfl
  obtain ⟨hforetold, -⟩ := url_foretells idleTools ownDirectories hu hb (w := bareWorld)
    fun _ => ⟨_, rfl⟩
  obtain ⟨c, dir, v, hprepared, hforetells, -⟩ := hforetold hdone
  exact ⟨hu, hb, hdone, c, dir, v, hprepared, hforetells⟩

end CommandLine

end PinnedBuild
