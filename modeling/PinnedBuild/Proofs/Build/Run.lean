import Mathlib
import PinnedBuild.Build.Run
import PinnedBuild.Proofs.Build.Tools

/-!
A whole build in its order: download and extraction are tried whatever comes of them, then the
source tree is entered, and then the tools are run.
-/

namespace PinnedBuild

open Files FileTree

variable {ε δ α : Type} {w v : World}

/-! ### What is seen of the download and of the extraction -/

lemma after_requests (requests : List String) (w : World) :
    After (requests.forM fun r => (Act.emit (.requested r) : Act ε Unit)) w
      (fun _ v => w.Shown v [] requests) (fun _ _ => False) := by
  induction requests generalizing w with
  | nil => exact after_pure (.refl w)
  | cons r rs ih =>
    refine after_bind (after_modify ((ih _).mono (fun _ v hv => ?_) fun _ _ h => h))
    exact (World.shown_requested w r).trans hv

/-- Either nothing is asked for, or all that the transfer asks for. -/
def Asked (net : Download.Network) (url : String) (options : Download.FetchOptions)
    (w v : World) : Prop :=
  ∃ requests, w.Shown v [] requests ∧
    (requests = [] ∨ requests = (Download.transferOf net url options).requests)

lemma Asked.shown {net : Download.Network} {url : String} {options : Download.FetchOptions}
    {u : World} (h : Asked net url options w v) (hu : v.Shown u [] []) :
    Asked net url options w u := by
  obtain ⟨rs, hs, hr⟩ := h
  refine ⟨rs, ?_, hr⟩
  simpa using hs.trans hu

lemma after_fetch (net : Download.Network) (url : String) (dest : Path)
    (options : Download.FetchOptions) (w : World) :
    After (Download.fetch net url dest options) w
      (fun _ => Asked net url options w) (fun _ => Asked net url options w) := by
  refine after_bind (Act.after_onFiles (after_of_forall (fun h t => ?_) fun e t => ?_))
  · refine after_bind ((after_requests _ _).mono (fun _ v hv => ?_) fun _ _ h => h.elim)
    have hfile : w.Shown { w with files := t } [] [] := .of_events_eq rfl
    have ha : Asked net url options w v := ⟨_, hfile.trans hv, .inr rfl⟩
    refine after_bind ((Act.after_onFiles_of_shown fun _ hx => ha.shown hx).mono
      (fun received u hu => ?_) fun _ _ h => h)
    obtain ⟨written, failure⟩ := received
    simp only
    split
    · exact after_throw hu
    · exact after_throw hu
    · split
      · exact after_pure hu
      · exact after_throw hu
  · exact ⟨[], .of_events_eq rfl, .inl rfl⟩

namespace BuildPlan

variable {p : BuildPlan} {site : Site}

lemma after_tellDigest (c : Config) (archive : Path) {Q E : World → Prop}
    (hQ : ∀ v, w.Shown v [] [] → Q v) :
    After (tellDigest c archive : Act ε Unit) w (fun _ => Q) (fun _ => E) := by
  refine after_bind (after_get ?_)
  split
  · exact after_modify (hQ _ (World.shown_say w _))
  · exact after_pure (hQ _ (.refl w))

lemma after_download (p : BuildPlan) (site : Site) (w : World) :
    After (p.download site) w (fun _ => Asked site.network p.archiveUrl site.options w)
      (fun _ => Asked site.network p.archiveUrl site.options w) := by
  have hfetch := after_fetch site.network p.archiveUrl p.archivePath site.options w
  refine after_bind (Act.after_withError (hfetch.mono (fun bytes v hv => ?_) fun _ _ h => h))
  refine after_bind (after_modify ?_)
  refine after_bind (after_tellDigest p.config p.archivePath fun u hu => ?_)
  exact after_pure ((hv.shown (World.shown_say v _)).shown hu)

lemma after_extractMember (dest : Path) (names : List Name) (m : Archive.Member)
    (h : w.Shown v [] []) :
    After (Archive.extractMember dest names m) v
      (fun _ u => w.Shown u [] []) (fun _ u => w.Shown u [] []) := by
  have hfrom : ∀ u, v.Shown u [] [] → w.Shown u [] [] := fun u hu => by simpa using h.trans hu
  unfold Archive.extractMember
  split
  · exact after_pure h
  · refine after_bind ((Act.after_onFiles_of_shown hfrom).mono (fun unpacked u hu => ?_)
      fun _ _ hu => hu)
    split
    · exact after_pure hu
    · exact after_bind (after_modify (after_pure (by simpa using hu.trans (World.shown_say u _))))

lemma after_extract (p : BuildPlan) (w : World) :
    After p.extract w (fun _ v => w.Shown v [] []) (fun _ v => w.Shown v [] []) := by
  refine after_bind ((Act.after_onFiles_of_shown fun _ hv => hv).mono (fun feed v hv => ?_)
    fun _ _ hv => hv)
  refine after_bind ((after_foldlM (fun names m u hu => after_extractMember _ names m hu)
    (Archive.members feed).1 [] v hv).mono (fun names u hu => ?_) fun _ _ hu => hu)
  split
  · exact after_pure hu
  · exact after_throw hu

/-! ### The whole run -/

/-- What is put on record of an attempt. -/
def attemptStatus (message : ε → String) : Except ε α → StageStatus
  | .ok _ => .ok
  | .error e => .failed (message e)

/-- The world after an attempt, in which a failure is told. -/
def attempted (stage : Stage) (message : ε → String) (out : Except ε α × World) : World :=
  match out with
  | (.ok _, v) => v
  | (.error e, v) => v.say ⟨.warn, .driver, stage.name ++ " failed, continuing: " ++ message e⟩

lemma run_attempt (stage : Stage) (message : ε → String) (a : Act ε α) (w : World) :
    (attempt stage message a : Act δ StageRecord).run w =
      (.ok ⟨stage, attemptStatus message (a.run w).1⟩, attempted stage message (a.run w)) := by
  unfold attempt
  simp only [run_bind, Act.run_outcome]
  rcases a.run w with ⟨e | x, v⟩ <;> rfl

lemma shown_attempted (stage : Stage) (message : ε → String) (out : Except ε α × World) :
    out.2.Shown (attempted stage message out) [] [] := by
  rcases out with ⟨e | x, v⟩
  · exact World.shown_say v _
  · exact .refl v

lemma attemptStatus_isOk (message : ε → String) (r : Except ε α) :
    (attemptStatus message r).isOk = true ↔ ∃ x, r = .ok x := by
  rcases r with e | x <;> simp [attemptStatus, StageStatus.isOk]

/-- The world that the attempt to download leaves. -/
def afterDownload (p : BuildPlan) (site : Site) (w : World) : World :=
  attempted .download DownloadError.message ((p.download site).run w)

/-- The world that the attempt to extract leaves after that. -/
def afterExtract (p : BuildPlan) (site : Site) (w : World) : World :=
  attempted .extract Archive.ExtractError.message (p.extract.run (p.afterDownload site w))

/-- What is put on record of both attempts. -/
def attempts (p : BuildPlan) (site : Site) (w : World) : List StageRecord :=
  [⟨.download, attemptStatus DownloadError.message ((p.download site).run w).1⟩,
   ⟨.extract, attemptStatus Archive.ExtractError.message
    (p.extract.run (p.afterDownload site w)).1⟩]

/-- The three ways that a run can take, with the tools that were run to their ends on it. -/
inductive Course (p : BuildPlan) (site : Site) (w : World) :
    List ToolTurn → Except BuildError BuildReport × World → Prop
  | notEntered {e : EnterError}
      (enter : p.enter.run (p.afterExtract site w) = (.error e, p.afterExtract site w)) :
      Course p site w [] (.error (.enter e), p.afterExtract site w)
  | notStarted {v u : World} {before after : List (Stage × ToolStep)} {stage : Stage}
      {s : ToolStep} {turns : List ToolTurn} {e : SpawnError}
      (enter : p.enter.run (p.afterExtract site w) = (.ok p.buildDir, v))
      (steps : toolSteps p.config = before ++ (stage, s) :: after)
      (worked : Worked site.shop site.toolDir p.buildDir v before turns u)
      (stuck : startOf site.shop site.toolDir p.buildDir u s = .error e) :
      Course p site w turns (.error (.tool ⟨(atHand site.toolDir u s).display, e⟩),
        announced p.buildDir (atHand site.toolDir u s) u)
  | finished {v u : World} {turns : List ToolTurn}
      (enter : p.enter.run (p.afterExtract site w) = (.ok p.buildDir, v))
      (worked : Worked site.shop site.toolDir p.buildDir v (toolSteps p.config) turns u) :
      Course p site w turns
        (.ok ⟨p.buildDir, p.attempts site w ++ turns.map ToolTurn.record⟩, u)

lemma run_eq (p : BuildPlan) (site : Site) (w : World) :
    (p.run site).run w = match p.enter.run (p.afterExtract site w) with
      | (.error e, v) => (.error (.enter e), v)
      | (.ok dir, v) => match (runTools site.shop p.config site.toolDir dir).run v with
        | (.error e, u) => (.error (.tool e), u)
        | (.ok records, u) => (.ok ⟨dir, p.attempts site w ++ records⟩, u) := by
  unfold run
  simp only [run_bind, run_attempt, Act.run_withError]
  have hx : attempted .extract Archive.ExtractError.message (p.extract.run
      (attempted .download DownloadError.message ((p.download site).run w))) =
      p.afterExtract site w := rfl
  rw [hx]
  rcases p.enter.run (p.afterExtract site w) with ⟨e | dir, v⟩
  · rfl
  · simp only [Except.mapError]
    rcases (runTools site.shop p.config site.toolDir dir).run v with ⟨e | records, u⟩
    · rfl
    · rfl

lemma run_of_worked {u : World} {turns : List ToolTurn}
    (enter : p.enter.run (p.afterExtract site w) = (.ok p.buildDir, v))
    (worked : Worked site.shop site.toolDir p.buildDir v (toolSteps p.config) turns u) :
    (p.run site).run w =
      (.ok ⟨p.buildDir, p.attempts site w ++ turns.map ToolTurn.record⟩, u) := by
  rw [run_eq, enter]
  simp only
  rw [runTools, worked.run]

/-- Every run takes one of the three ways. -/
lemma exists_course (p : BuildPlan) (site : Site) (w : World) :
    ∃ turns, Course p site w turns ((p.run site).run w) := by
  rcases run_enter p (p.afterExtract site w) with ⟨e, he⟩ | ⟨l, m, -, he, -⟩
  · refine ⟨[], ?_⟩
    rw [run_eq, he]
    exact .notEntered he
  · rcases worked_or_stuck site.shop site.toolDir p.buildDir (toolSteps p.config) _ with
      ⟨turns, u, h⟩ | ⟨before, stage, s, after, turns, u, e, hs, h, hstuck⟩
    · refine ⟨turns, ?_⟩
      rw [run_of_worked he h]
      exact .finished he h
    · refine ⟨turns, ?_⟩
      rw [run_eq, he]
      simp only
      rw [runTools, hs, h.run_stuck hstuck]
      exact .notStarted he hs h hstuck

lemma shown_enter {dir : Path} (h : p.enter.run w = (.ok dir, v)) : w.Shown v [] [] := by
  rcases run_enter p w with ⟨e, he⟩ | ⟨l, m, -, he, -⟩
  · exact absurd (Prod.mk.inj (he.symm.trans h)).1 (by simp)
  · obtain ⟨-, rfl⟩ := Prod.mk.inj (he.symm.trans h)
    simpa using (World.Shown.of_events_eq (w := w) (by rfl)).trans (World.shown_say _ _)

lemma Course.launched {turns : List ToolTurn} {out : Except BuildError BuildReport × World}
    (h : Course p site w turns out) :
    (p.afterExtract site w).Shown out.2 (turns.map (ToolTurn.launch p.buildDir)) [] := by
  cases h with
  | notEntered _ => exact .refl _
  | notStarted enter _ worked _ =>
    simpa using ((shown_enter enter).trans worked.shown).trans (shown_announced _ _ _)
  | finished enter worked => exact (shown_enter enter).trans worked.shown

lemma Course.inOrder {turns : List ToolTurn} {out : Except BuildError BuildReport × World}
    (h : Course p site w turns out) :
    turns.map ToolTurn.stage <+: [.configure, .build, .install] := by
  have hsteps : (toolSteps p.config).map Prod.fst = [.configure, .build, .install] := rfl
  cases h with
  | notEntered _ => exact List.nil_prefix
  | notStarted _ steps worked _ =>
    rw [worked.stages, ← hsteps, steps, List.map_append]
    exact List.prefix_append _ _
  | finished _ worked => rw [worked.stages, hsteps]

lemma status_isOk (ending : ToolEnd) : ending.status.isOk = true ↔ ending = .exited 0 := by
  rcases ending with code | signal
  · by_cases h : code = 0 <;> simp [ToolEnd.status, StageStatus.isOk, h]
  · simp [ToolEnd.status, StageStatus.isOk]

/-- What holds of a run: the way that it takes, with the tools run to their ends on it, and what
follows for its report and for what is seen of it. -/
structure Sequenced (p : BuildPlan) (site : Site) (w : World) (turns : List ToolTurn)
    (out : Except BuildError BuildReport × World) : Prop where
  course : Course p site w turns out
  reports : (∃ report, out.1 = .ok report) ↔ ∃ v u turns,
    p.enter.run (p.afterExtract site w) = (.ok p.buildDir, v) ∧
      Worked site.shop site.toolDir p.buildDir v (toolSteps p.config) turns u
  /-- The report names the directory that entering has just made. -/
  created : ∀ report, out.1 = .ok report → ∃ l m v,
    (p.afterExtract site w).files.node? l = none ∧
      p.enter.run (p.afterExtract site w) = (.ok report.buildDir, v) ∧
      v.files.lookup true report.buildDir = .ok (l, .directory m)
  stages : ∀ report, out.1 = .ok report →
    report.stages.map StageRecord.stage = [.download, .extract, .configure, .build, .install]
  allOk : ∀ report, out.1 = .ok report → (report.allOk = true ↔
    (∃ bytes, ((p.download site).run w).1 = .ok bytes) ∧
      (∃ names, (p.extract.run (p.afterDownload site w)).1 = .ok names) ∧
      ∀ r ∈ turns, r.ending = .exited 0)
  inOrder : turns.map ToolTurn.stage <+: [.configure, .build, .install]
  /-- Requests are only sent for the download. -/
  requested : Asked site.network p.archiveUrl site.options w (p.afterDownload site w)
  unpacked : (p.afterDownload site w).Shown (p.afterExtract site w) [] []
  /-- Tools are started once each, and only after the extraction. -/
  launched : (p.afterExtract site w).Shown out.2 (turns.map (ToolTurn.launch p.buildDir)) []

/-- **Sequencing**: download, extraction, entering and the tools come in this order, each at most
once, and what the run returns is what became of just these steps. -/
theorem run_sequenced (p : BuildPlan) (site : Site) (w : World) :
    ∃ turns, Sequenced p site w turns ((p.run site).run w) := by
  obtain ⟨turns, h⟩ := exists_course p site w
  have hreport : ∀ report, ((p.run site).run w).1 = .ok report →
      report = ⟨p.buildDir, p.attempts site w ++ turns.map ToolTurn.record⟩ ∧
        ∃ v u, p.enter.run (p.afterExtract site w) = (.ok p.buildDir, v) ∧
          Worked site.shop site.toolDir p.buildDir v (toolSteps p.config) turns u := by
    intro report hr
    generalize (p.run site).run w = out at h hr
    cases h with
    | notEntered _ => simp at hr
    | notStarted _ _ _ _ => simp at hr
    | finished enter worked => exact ⟨(Except.ok.inj hr).symm, _, _, enter, worked⟩
  refine ⟨turns, ?_⟩
  constructor
  case course => exact h
  case reports =>
    constructor
    · rintro ⟨report, hr⟩
      obtain ⟨-, v, u, he, hw⟩ := hreport report hr
      exact ⟨v, u, turns, he, hw⟩
    · rintro ⟨v, u, turns', he, hw⟩
      exact ⟨_, by rw [run_of_worked he hw]⟩
  case created =>
    intro report hr
    obtain ⟨rfl, v, u, he, -⟩ := hreport report hr
    rcases run_enter p (p.afterExtract site w) with ⟨e, he'⟩ | ⟨l, m, hl, he', hd⟩
    · exact absurd (Prod.mk.inj (he'.symm.trans he)).1 (by simp)
    · exact ⟨l, m, _, hl, he', World.lookup_say _ hd⟩
  case stages =>
    intro report hr
    obtain ⟨rfl, v, u, -, hw⟩ := hreport report hr
    have hstages : (turns.map ToolTurn.record).map StageRecord.stage =
        turns.map ToolTurn.stage := by
      simp [ToolTurn.record, Function.comp_def]
    rw [List.map_append, hstages, hw.stages]
    rfl
  case allOk =>
    intro report hr
    obtain ⟨rfl, -⟩ := hreport report hr
    simp only [BuildReport.allOk, PinnedBuild.allOk, attempts, List.cons_append, List.nil_append,
      List.all_cons, List.all_map, Bool.and_eq_true, List.all_eq_true, Function.comp_apply,
      ToolTurn.record, attemptStatus_isOk, status_isOk]
  case inOrder => exact h.inOrder
  case requested =>
    exact Asked.shown (after_download p site w).state (shown_attempted _ _ _)
  case unpacked =>
    exact (after_extract p (p.afterDownload site w)).state.trans (shown_attempted _ _ _)
  case launched => exact h.launched

end BuildPlan

end PinnedBuild
