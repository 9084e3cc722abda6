import Mathlib
import PinnedBuild.CommandLine.Run
import PinnedBuild.Proofs.Build.Digest

/-!
What became of the stages of a build is told in three places: in its report, on standard output,
and in the log. All three tell the same.
-/

namespace PinnedBuild

open Files FileTree

variable {ε δ α : Type} {w v u : World} {rs rs' : List StageRecord}

def Event.printed? : Event → Option String
  | .printed line => some line
  | _ => none

/-! ### Lines about stages -/

def LogLine.opens (l : LogLine) (s : String) : Bool := s.toList.isPrefixOf l.text.toList

/-- How a line begins that tells of a stage which did not end well. -/
def stageOpenings : List String :=
  [Stage.download, .extract, .configure, .build, .install].flatMap fun s =>
    [s.name ++ " failed, continuing: ", s.name ++ " step `"]

def closingOpening : String := "build finished with failed steps"

def LogLine.isStageWarning (l : LogLine) : Bool := l.level == .warn && stageOpenings.any l.opens

def LogLine.isClosing (l : LogLine) : Bool := l.level == .warn && l.opens closingOpening

/-- The line tells what is on record of a stage that did not end well. -/
def StageRecord.Warns (r : StageRecord) (l : LogLine) : Prop :=
  l.level = .warn ∧ l.speaker = .driver ∧ match r.status with
    | .ok => False
    | .failed message => l.text = r.stage.name ++ " failed, continuing: " ++ message
    | .exited code => ∃ (command : String) (ending : ToolEnd), ending.code? = code ∧
      l.text = r.stage.name ++ " step `" ++ command ++ "` exited with " ++ ending.display

/-- The lines among those seen that tell of a stage. -/
def stageWarnings (es : List Event) : List LogLine :=
  (es.filterMap Event.line?).filter LogLine.isStageWarning

def closings (es : List Event) : List LogLine :=
  (es.filterMap Event.line?).filter LogLine.isClosing

/-- A log that takes the warnings of the driver has one, in order, for each record of a stage that
did not end well. Any other has none. -/
def Warned (f : LogFilter) (rs : List StageRecord) (lines : List LogLine) : Prop :=
  if f.admits .driver .warn = true then
    List.Forall₂ StageRecord.Warns (rs.filter fun r => !r.status.isOk) lines
  else lines = []

lemma Warned.nil (f : LogFilter) : Warned f [] [] := by
  unfold Warned
  split
  · exact .nil
  · rfl

lemma Warned.append {f : LogFilter} {lines lines' : List LogLine} (h : Warned f rs lines)
    (h' : Warned f rs' lines') : Warned f (rs ++ rs') (lines ++ lines') := by
  unfold Warned at h h' ⊢
  split
  · rename_i hr
    rw [if_pos hr] at h h'
    rw [List.filter_append]
    exact List.rel_append h h'
  · rename_i hr
    rw [if_neg hr] at h h'
    rw [h, h', List.append_nil]

/-! ### Lines about other things -/

/-- The line tells neither of a stage nor that the build has failed. -/
def LogLine.Aside (l : LogLine) : Prop := l.isStageWarning = false ∧ l.isClosing = false

lemma LogLine.opens_of_text {l : LogLine} {s t : String} (h : l.text = s ++ t) :
    l.opens s = true := by
  simp [LogLine.opens, h]

/-- Of two ways to begin one begins with the other. -/
lemma LogLine.not_opens {l : LogLine} {s t : String} (hs : l.opens s = true)
    (h : ¬ s.toList <+: t.toList ∧ ¬ t.toList <+: s.toList) : l.opens t = false := by
  by_contra ht
  have hs' := List.isPrefixOf_iff_prefix.mp hs
  have ht' := List.isPrefixOf_iff_prefix.mp (eq_true_of_ne_false ht)
  rcases List.prefix_or_prefix_of_prefix hs' ht' with hst | hts
  · exact h.1 hst
  · exact h.2 hts

lemma LogLine.aside_of_level {l : LogLine} (h : l.level ≠ .warn) : l.Aside := by
  have hl : (l.level == Level.warn) = false := by simpa using h
  exact ⟨by rw [isStageWarning, hl, Bool.false_and], by rw [isClosing, hl, Bool.false_and]⟩

lemma LogLine.aside_of_opens {l : LogLine} {s : String} (hs : l.opens s = true)
    (h : ∀ t ∈ closingOpening :: stageOpenings, ¬ s.toList <+: t.toList ∧ ¬ t.toList <+: s.toList) :
    l.Aside := by
  have hno : ∀ t ∈ closingOpening :: stageOpenings, l.opens t = false :=
    fun t ht => not_opens hs (h t ht)
  constructor
  · have hany : stageOpenings.any l.opens = false := by
      rw [List.any_eq_false]
      exact fun t ht => by simp [hno t (List.mem_cons_of_mem _ ht)]
    rw [isStageWarning, hany, Bool.and_false]
  · rw [isClosing, hno _ (List.mem_cons_self ..), Bool.and_false]

lemma aside_of_aboutDigest {archive : Path} {l : LogLine} (h : AboutDigest archive l) :
    l.Aside := by
  rcases h with h | ⟨actual, recorded, h⟩ | ⟨cause, h⟩
  · exact LogLine.aside_of_opens (LogLine.opens_of_text (t := "") (by simpa using h)) (by decide)
  · rw [String.append_assoc, String.append_assoc] at h
    exact LogLine.aside_of_opens (LogLine.opens_of_text h) (by decide)
  · rw [String.append_assoc, String.append_assoc] at h
    exact LogLine.aside_of_opens (LogLine.opens_of_text h) (by decide)

/-- A line that tells of a stage begins in one of the ways for that. -/
lemma StageRecord.Warns.opening {r : StageRecord} {l : LogLine} (h : r.Warns l) :
    ∃ s ∈ stageOpenings, l.opens s = true := by
  obtain ⟨-, -, htext⟩ := h
  rcases hstatus : r.status with _ | code | message <;> rw [hstatus] at htext
  · exact htext.elim
  · obtain ⟨command, ending, -, ht⟩ := htext
    rw [String.append_assoc, String.append_assoc] at ht
    refine ⟨_, ?_, LogLine.opens_of_text ht⟩
    cases r.stage <;> decide
  · refine ⟨_, ?_, LogLine.opens_of_text htext⟩
    cases r.stage <;> decide

lemma StageRecord.Warns.isStageWarning {r : StageRecord} {l : LogLine} (h : r.Warns l) :
    l.isStageWarning = true := by
  rw [LogLine.isStageWarning, h.1, List.any_eq_true.mpr h.opening]
  rfl

/-- No line begins both as one about a stage and as the one at the end. -/
lemma closingOpening_apart : ∀ s ∈ stageOpenings, ¬ s.toList <+: closingOpening.toList ∧
    ¬ closingOpening.toList <+: s.toList := by decide

lemma StageRecord.Warns.isClosing {r : StageRecord} {l : LogLine} (h : r.Warns l) :
    l.isClosing = false := by
  obtain ⟨s, hs, ho⟩ := h.opening
  rw [LogLine.isClosing, LogLine.not_opens ho (closingOpening_apart s hs), Bool.and_false]

/-! ### Worlds -/

/-- From the one world to the other nothing is printed, the log does not say that the build has
failed, and it tells of stages what is on record. -/
structure World.Tells (w v : World) (rs : List StageRecord) : Prop where
  filter : v.filter = w.filter
  seen : ∃ es, v.events = w.events ++ es ∧ es.filterMap Event.printed? = [] ∧ closings es = [] ∧
    Warned w.filter rs (stageWarnings es)

namespace World

lemma Tells.refl (w : World) : w.Tells w [] := ⟨rfl, [], by simp, rfl, rfl, .nil _⟩

lemma Tells.trans (h : w.Tells v rs) (h' : v.Tells u rs') : w.Tells u (rs ++ rs') := by
  obtain ⟨hfilter, es, he, hp, hc, hw⟩ := h
  obtain ⟨hfilter', es', he', hp', hc', hw'⟩ := h'
  refine ⟨hfilter'.trans hfilter, es ++ es', by rw [he', he, List.append_assoc], ?_, ?_, ?_⟩
  · rw [List.filterMap_append, hp, hp', List.append_nil]
  · unfold closings at hc hc' ⊢
    rw [List.filterMap_append, List.filter_append, hc, hc', List.append_nil]
  · rw [hfilter] at hw'
    have hsplit : stageWarnings (es ++ es') = stageWarnings es ++ stageWarnings es' := by
      simp [stageWarnings]
    rw [hsplit]
    exact hw.append hw'

lemma Tells.aside (h : w.Tells v rs) (h' : v.Tells u []) : w.Tells u rs := by
  simpa using h.trans h'

/-- Events that are neither lines nor printed tell nothing. -/
lemma tells_of_events (es : List Event) (hfilter : v.filter = w.filter)
    (he : v.events = w.events ++ es)
    (h : ∀ e ∈ es, e.printed? = none ∧ e.line? = none) : w.Tells v [] := by
  have hp : es.filterMap Event.printed? = [] := by
    rw [List.filterMap_eq_nil_iff]
    exact fun e he => (h e he).1
  have hl : es.filterMap Event.line? = [] := by
    rw [List.filterMap_eq_nil_iff]
    exact fun e he => (h e he).2
  refine ⟨hfilter, es, he, hp, ?_, ?_⟩
  · rw [closings, hl]
    rfl
  · rw [stageWarnings, hl]
    exact .nil _

lemma tells_files (w : World) (t : FileTree) : w.Tells { w with files := t } [] :=
  tells_of_events [] rfl (by simp) (by simp)

lemma tells_logged (w : World) {lines : List LogLine} (h : ∀ l ∈ lines, l.Aside) :
    w.Tells (w.logged lines) [] := by
  refine ⟨(steady_logged w lines).1, lines.map .logged, events_logged w lines, ?_, ?_, ?_⟩
  · simp [List.filterMap_map, Event.printed?]
  · rw [closings, filterMap_line?_logged, List.filter_eq_nil_iff]
    exact fun l hl => by simp [(h l hl).2]
  · have hnone : stageWarnings (lines.map .logged) = [] := by
      rw [stageWarnings, filterMap_line?_logged, List.filter_eq_nil_iff]
      exact fun l hl => by simp [(h l hl).1]
    rw [hnone]
    exact .nil _

lemma tells_say (w : World) {line : LogLine} (h : line.Aside) : w.Tells (w.say line) [] := by
  rw [say_eq]
  refine tells_logged w fun l hl => ?_
  split at hl
  · rwa [List.mem_singleton.mp hl]
  · simp at hl

/-- A warning of a stage is logged where the log takes those of the driver. -/
lemma tells_warning (w : World) {r : StageRecord} {line : LogLine} (h : r.Warns line) :
    w.Tells (w.say line) [r] := by
  have hbad : (!r.status.isOk) = true := by
    rcases hstatus : r.status with _ | code | message
    · have := h.2.2
      rw [hstatus] at this
      exact this.elim
    · rfl
    · rfl
  rw [say_eq, LogFilter.keeps, h.1, h.2.1]
  by_cases hwarn : w.filter.admits .driver .warn = true
  · rw [if_pos hwarn]
    refine ⟨(steady_logged w _).1, [.logged line], events_logged w _, rfl, ?_, ?_⟩
    · simp [closings, Event.line?, h.isClosing]
    · have hone : stageWarnings [.logged line] = [line] := by
        simp [stageWarnings, Event.line?, h.isStageWarning]
      rw [Warned, if_pos hwarn, hone, List.filter_singleton, hbad]
      exact .cons h .nil
  · rw [if_neg hwarn]
    refine ⟨rfl, [], by simp [logged], rfl, rfl, ?_⟩
    rw [Warned, if_neg hwarn]
    rfl

lemma tells_ok (w : World) {r : StageRecord} (h : r.status.isOk = true) : w.Tells w [r] := by
  refine ⟨rfl, [], by simp, rfl, rfl, ?_⟩
  unfold Warned
  split
  · simp [h, stageWarnings]
  · rfl

end World

/-! ### The build -/

lemma Act.after_onFiles_of_tells {wrap : δ → ε} {a : ExceptT δ (StateM FileTree) α}
    (h : w.Tells v rs) :
    After (onFiles wrap a) v (fun _ u => w.Tells u rs) fun _ u => w.Tells u rs :=
  after_onFiles (after_of_forall (fun _ t => h.aside (World.tells_files v t))
    fun _ t => h.aside (World.tells_files v t))

namespace BuildPlan

variable {p : BuildPlan} {site : Site}

lemma tells_fetch (net : Download.Network) (url : String) (dest : Path)
    (options : Download.FetchOptions) (w : World) :
    w.Tells ((Download.fetch net url dest options).run w).2 [] := by
  rcases hc : (FileOp.create dest).run w.files with e | ⟨h, t⟩
  · have hrun : (Download.fetch net url dest options).run w = (.error (.storage dest e), w) := by
      unfold Download.fetch Download.fetchOnto
      rw [run_bind, Act.run_op, hc]
    rw [hrun]
    exact .refl w
  · unfold Download.fetch
    rw [Download.run_fetchOnto _ _ _ _ _ hc]
    refine World.tells_of_events _ rfl rfl fun e he => ?_
    obtain ⟨r, -, rfl⟩ := List.mem_map.mp he
    exact ⟨rfl, rfl⟩

lemma tells_download (p : BuildPlan) (site : Site) (w : World) :
    w.Tells ((p.download site).run w).2 [] := by
  have hfetch := tells_fetch site.network p.archiveUrl p.archivePath site.options w
  have hreceived : w.Tells ((p.received site).run w).2 [] := by
    unfold received
    rw [run_bind, Act.run_withError]
    rcases hr : (Download.fetch site.network p.archiveUrl p.archivePath site.options).run w with
      ⟨e | n, v⟩ <;> rw [hr] at hfetch
    · exact hfetch
    · exact hfetch.aside (World.tells_say v (LogLine.aside_of_level (by simp)))
  rw [run_download]
  rcases hr : (p.received site).run w with ⟨e | n, v⟩ <;> rw [hr] at hreceived
  · exact hreceived
  · exact hreceived.aside (World.tells_logged v fun l hl =>
      aside_of_aboutDigest (aboutDigest_of_mem hl))

lemma aside_skipped (name : String) :
    LogLine.Aside ⟨.warn, .extract, "skipped archive entry outside destination: " ++ name⟩ :=
  LogLine.aside_of_opens (LogLine.opens_of_text rfl) (by decide)

lemma tells_extractMember (dest : Path) (names : List Name) (m : Archive.Member)
    (h : w.Tells v []) :
    After (Archive.extractMember dest names m) v (fun _ u => w.Tells u [])
      fun _ u => w.Tells u [] := by
  unfold Archive.extractMember
  split
  · exact after_pure h
  · refine after_bind
      ((Act.after_onFiles_of_tells h).mono (fun unpacked u hu => ?_) fun _ _ hu => hu)
    split
    · exact after_pure hu
    · exact after_bind (after_modify (after_pure (hu.aside (World.tells_say u (aside_skipped _)))))

lemma tells_extract (p : BuildPlan) (w : World) : w.Tells (p.extract.run w).2 [] := by
  refine After.state (P := fun v => w.Tells v []) ?_
  refine after_bind ((Act.after_onFiles_of_tells (.refl w)).mono (fun feed v hv => ?_)
    fun _ _ hv => hv)
  refine after_bind ((after_foldlM (fun names m u hu => tells_extractMember _ names m hu)
    (Archive.members feed).1 [] v hv).mono (fun names u hu => ?_) fun _ _ hu => hu)
  split
  · exact after_pure hu
  · exact after_throw hu

lemma tells_attempted (stage : Stage) (message : ε → String) {out : Except ε α × World}
    (h : w.Tells out.2 []) :
    w.Tells (attempted stage message out) [⟨stage, attemptStatus message out.1⟩] := by
  obtain ⟨e | x, v⟩ := out
  · exact h.trans (World.tells_warning v ⟨rfl, rfl, rfl⟩)
  · exact h.trans (World.tells_ok v rfl)

lemma tells_attempts (p : BuildPlan) (site : Site) (w : World) :
    w.Tells (p.afterExtract site w) (p.attempts site w) :=
  (tells_attempted .download _ (tells_download p site w)).trans
    (tells_attempted .extract _ (tells_extract p (p.afterDownload site w)))

lemma tells_enter {dir : Path} (h : p.enter.run w = (.ok dir, v)) : w.Tells v [] := by
  rcases run_enter p w with ⟨e, he⟩ | ⟨l, m, -, he, -⟩
  · exact absurd (Prod.mk.inj (he.symm.trans h)).1 (by simp)
  · obtain ⟨-, rfl⟩ := Prod.mk.inj (he.symm.trans h)
    exact (World.tells_files w _).aside (World.tells_say _ (LogLine.aside_of_level (by simp)))

lemma tells_left (buildDir : Path) (r : ToolTurn) (files : FileTree) (w : World) :
    w.Tells (left buildDir r files w) [r.record] := by
  have hannounced : w.Tells (announced buildDir r.step w) [] :=
    World.tells_say w (LogLine.aside_of_level (by simp))
  have hlaunched : w.Tells { (announced buildDir r.step w).emit (.launched (r.launch buildDir)) with
      files := files } [] :=
    hannounced.aside (World.tells_of_events [.launched (r.launch buildDir)] rfl rfl
      (by simp [Event.printed?, Event.line?]))
  have hstatus := status_eq r.ending
  unfold left
  split
  · rename_i hok
    rw [if_pos hok] at hstatus
    exact hlaunched.trans (World.tells_ok _ (by simp [ToolTurn.record, hstatus, StageStatus.isOk]))
  · rename_i hbad
    rw [if_neg hbad] at hstatus
    refine hlaunched.trans (World.tells_warning _ ⟨rfl, rfl, ?_⟩)
    simp only [ToolTurn.record, hstatus]
    exact ⟨r.step.display, r.ending, rfl, rfl⟩

lemma Worked.tells {shop : Workshop} {toolDir : Option Path} {buildDir : Path}
    {steps : List (Stage × ToolStep)} {turns : List ToolTurn}
    (h : Worked shop toolDir buildDir w steps turns v) : w.Tells v (turns.map ToolTurn.record) := by
  induction h with
  | none w => exact .refl w
  | tool _ _ ih => exact (tells_left _ _ _ _).trans ih

/-- What a run has on record is what its log tells. -/
lemma tells_run {report : BuildReport} (h : (p.run site).run w = (.ok report, v)) :
    w.Tells v report.stages := by
  obtain ⟨turns, hcourse⟩ := exists_course p site w
  rw [h] at hcourse
  cases hcourse with
  | finished enter worked =>
    exact ((tells_attempts p site w).aside (tells_enter enter)).trans worked.tells

end BuildPlan

namespace CommandLine

/-- What is said at the end of a build of which some stage did not end well. -/
def closingLine (report : BuildReport) : LogLine :=
  ⟨.warn, .buildCommand, "build finished with failed steps in " ++ report.buildDir.display⟩

lemma opens_closingLine (report : BuildReport) :
    (closingLine report).opens closingOpening = true := by
  refine LogLine.opens_of_text (t := " in " ++ report.buildDir.display) ?_
  rw [← String.append_assoc]
  rfl

lemma isClosing_closingLine (report : BuildReport) : (closingLine report).isClosing = true := by
  rw [LogLine.isClosing, opens_closingLine]
  rfl

lemma isStageWarning_closingLine (report : BuildReport) :
    (closingLine report).isStageWarning = false := by
  have hany : stageOpenings.any (closingLine report).opens = false := by
    rw [List.any_eq_false]
    exact fun s hs => by
      simp [LogLine.not_opens (opens_closingLine report) (closingOpening_apart s hs).symm]
  rw [LogLine.isStageWarning, hany, Bool.and_false]

lemma reportLine_eq (r : StageRecord) : reportLine r = r.stage.name ++
    String.ofList (List.replicate (10 - r.stage.name.length) ' ') ++ " " ++
      statusText r.status := by
  unfold reportLine
  congr 2
  cases r.stage <;> rfl

lemma statusText_ok (s : StageStatus) : statusText s = "ok" ↔ s.isOk = true := by
  have hne : ∀ a b : String, ¬ a.toList <+: "ok".toList → a ++ b ≠ "ok" := by
    intro a b ha h
    exact ha ⟨b.toList, by rw [← String.toList_append, h]⟩
  rcases s with _ | (_ | code) | message
  · exact iff_of_true rfl rfl
  · exact iff_of_false (hne "terminated" " by signal" (by decide)) Bool.false_ne_true
  · exact iff_of_false (hne "exited with status " (toString code) (by decide)) Bool.false_ne_true
  · exact iff_of_false (hne "failed: " message (by decide)) Bool.false_ne_true

/-- What is seen of a build tells what its report does: on standard output the address and then a
line for each record, and in the log one for each record of a stage that did not end well, and one
at the end if there is any. A log that does not take the warnings of the driver, or those of the
command, has none of the ones or of the others. -/
structure SameStory (c : Config) (report : BuildReport) (f : LogFilter) (es : List Event) :
    Prop where
  printed : es.filterMap Event.printed? = c.archiveUrl :: report.stages.map reportLine
  columns : ∀ r ∈ report.stages, ∃ text, reportLine r = r.stage.name ++
      String.ofList (List.replicate (10 - r.stage.name.length) ' ') ++ " " ++ text ∧
    (text = "ok" ↔ r.status.isOk = true)
  warned : f.admits .driver .warn = true → List.Forall₂ StageRecord.Warns
    (report.stages.filter fun r => !r.status.isOk) (stageWarnings es)
  unwarned : f.admits .driver .warn = false → stageWarnings es = []
  closed : f.admits .buildCommand .warn = true →
    (∃ r ∈ report.stages, r.status.isOk = false) ∧ closings es = [closingLine report] ∨
      (∀ r ∈ report.stages, r.status.isOk = true) ∧ closings es = []
  unclosed : f.admits .buildCommand .warn = false → closings es = []

/-- The end of a build that has a report. -/
def finish (report : BuildReport) : Act CommandError Unit := do
  report.stages.forM fun r => Act.emit (.printed (reportLine r))
  if report.allOk then pure ()
  else
    Act.say .warn .buildCommand ("build finished with failed steps in " ++ report.buildDir.display)

lemma run_build (site : Site) (c : Config) (dir : Path) {report : BuildReport}
    (h : ((BuildPlan.ofConfig c dir).run site).run (w.emit (.printed c.archiveUrl)) =
      (.ok report, u)) :
    (build site c dir).run w = (finish report).run u := by
  unfold build finish
  rw [run_bind, Act.run_emit]
  simp only
  rw [run_bind, Act.run_withError]
  have h' : ((BuildPlan.ofConfig c dir).run site).run
      (w.emit (.printed (BuildPlan.ofConfig c dir).archiveUrl)) = (.ok report, u) := h
  rw [h']
  rfl

/-- The lines that the log takes at the end. -/
def closingLines (report : BuildReport) (f : LogFilter) : List LogLine :=
  if report.allOk = false ∧ f.keeps (closingLine report) = true then [closingLine report] else []

lemma run_finish (report : BuildReport) (u : World) :
    ∃ v, (finish report).run u = (.ok (), v) ∧
      v.events = u.events ++ report.stages.map (fun r => .printed (reportLine r)) ++
        (closingLines report u.filter).map .logged := by
  unfold finish closingLines
  rw [run_bind, Act.run_emits (fun r => .printed (reportLine r))]
  simp only
  rcases report.allOk with _ | _
  · refine ⟨_, rfl, ?_⟩
    rw [World.say_eq, World.events_logged]
    simp [closingLine]
  · exact ⟨_, rfl, by simp⟩

/-- All that is seen of a build whose run is seen to do `told`. -/
def seenOf (c : Config) (report : BuildReport) (f : LogFilter) (told : List Event) :
    List Event :=
  .printed c.archiveUrl :: told ++ report.stages.map (fun r => .printed (reportLine r)) ++
    (closingLines report f).map .logged

lemma printed_seenOf (c : Config) (report : BuildReport) (f : LogFilter) {told : List Event}
    (h : told.filterMap Event.printed? = []) :
    (seenOf c report f told).filterMap Event.printed? =
      c.archiveUrl :: report.stages.map reportLine := by
  have hreports : (report.stages.map fun r => Event.printed (reportLine r)).filterMap
      Event.printed? = report.stages.map reportLine := by
    simp [List.filterMap_map, Function.comp_def, Event.printed?]
  have hlogged : ((closingLines report f).map Event.logged).filterMap Event.printed? = [] := by
    simp [Event.printed?]
  have hfront : (Event.printed c.archiveUrl :: told).filterMap Event.printed? =
      c.archiveUrl :: told.filterMap Event.printed? := rfl
  rw [seenOf, List.filterMap_append, List.filterMap_append, hreports, hlogged, hfront, h,
    List.append_nil]
  rfl

lemma line?_seenOf (c : Config) (report : BuildReport) (f : LogFilter) (told : List Event) :
    (seenOf c report f told).filterMap Event.line? =
      told.filterMap Event.line? ++ closingLines report f := by
  have hreports : (report.stages.map fun r => Event.printed (reportLine r)).filterMap
      Event.line? = [] := by
    simp [Event.line?]
  have hfront : (Event.printed c.archiveUrl :: told).filterMap Event.line? =
      told.filterMap Event.line? := rfl
  rw [seenOf, List.filterMap_append, List.filterMap_append, hreports, filterMap_line?_logged,
    hfront, List.append_nil]

lemma eq_of_mem_closingLines {report : BuildReport} {f : LogFilter} {l : LogLine}
    (h : l ∈ closingLines report f) : l = closingLine report := by
  unfold closingLines at h
  split at h
  · exact List.mem_singleton.mp h
  · simp at h

lemma stageWarnings_seenOf (c : Config) (report : BuildReport) (f : LogFilter) (told : List Event) :
    stageWarnings (seenOf c report f told) = stageWarnings told := by
  have hnone : (closingLines report f).filter LogLine.isStageWarning = [] := by
    rw [List.filter_eq_nil_iff]
    exact fun l hl => by simp [eq_of_mem_closingLines hl, isStageWarning_closingLine]
  rw [stageWarnings, line?_seenOf, List.filter_append, hnone, List.append_nil]
  rfl

lemma closings_seenOf (c : Config) (report : BuildReport) (f : LogFilter) {told : List Event}
    (h : closings told = []) :
    closings (seenOf c report f told) = closingLines report f := by
  have hall : (closingLines report f).filter LogLine.isClosing = closingLines report f := by
    rw [List.filter_eq_self]
    exact fun l hl => by rw [eq_of_mem_closingLines hl, isClosing_closingLine]
  rw [closings, line?_seenOf, List.filter_append, hall]
  rw [closings] at h
  rw [h, List.nil_append]

lemma sameStory_seenOf (c : Config) (report : BuildReport) (f : LogFilter) {told : List Event}
    (hprinted : told.filterMap Event.printed? = []) (hclosings : closings told = [])
    (hwarned : Warned f report.stages (stageWarnings told)) :
    SameStory c report f (seenOf c report f told) := by
  unfold Warned at hwarned
  constructor
  case printed => exact printed_seenOf c report f hprinted
  case columns => exact fun r _ => ⟨_, reportLine_eq r, statusText_ok r.status⟩
  case warned =>
    intro hwarn
    rw [if_pos hwarn] at hwarned
    rwa [stageWarnings_seenOf]
  case unwarned =>
    intro hwarn
    rw [if_neg (ne_true_of_eq_false hwarn)] at hwarned
    rwa [stageWarnings_seenOf]
  case closed =>
    intro hwarn
    rw [closings_seenOf c report f hclosings]
    unfold closingLines BuildReport.allOk PinnedBuild.allOk
    by_cases hbad : ∃ r ∈ report.stages, r.status.isOk = false
    · refine .inl ⟨hbad, if_pos ⟨?_, hwarn⟩⟩
      simpa [List.all_eq_false] using hbad
    · have hall : ∀ r ∈ report.stages, r.status.isOk = true := by simpa using hbad
      refine .inr ⟨hall, if_neg fun h => ?_⟩
      rw [List.all_eq_true.mpr hall] at h
      exact absurd h.1 (by simp)
  case unclosed =>
    intro hwarn
    rw [closings_seenOf c report f hclosings]
    exact if_neg fun h => ne_true_of_eq_false hwarn h.2

lemma exists_seen (site : Site) (c : Config) (dir : Path) {w u : World} {report : BuildReport}
    (h : ((BuildPlan.ofConfig c dir).run site).run (w.emit (.printed c.archiveUrl)) =
      (.ok report, u)) :
    ∃ told v, (build site c dir).run w = (.ok (), v) ∧
      v.events = w.events ++ seenOf c report w.filter told ∧
      SameStory c report w.filter (seenOf c report w.filter told) := by
  obtain ⟨hfilter, told, htold, hprinted, hclosings, hwarned⟩ := BuildPlan.tells_run h
  have hfilter' : u.filter = w.filter := hfilter
  obtain ⟨v, hv, hevents⟩ := run_finish report u
  refine ⟨told, v, ?_, ?_, sameStory_seenOf c report w.filter hprinted hclosings hwarned⟩
  · rw [run_build site c dir h, hv]
  · rw [hevents, htold, hfilter']
    simp [World.emit, seenOf]

/-! ### A build without an archive -/

/-- The archive would be put into a directory that is not there. -/
def misplaced : Config :=
  { commit := "", archiveName := "x/y", buildJobs := 1, installWithSudo := false }

def misplacedPlan : BuildPlan := .ofConfig misplaced [Path.slash]

/-- Tools that do nothing. -/
def idleTools : Site where
  network := fun _ _ => .failed .couldNotConnect
  shop := ⟨[[Path.slash]], fun _ t => .ok (.exited 0, t)⟩

/-- The tools, and the source tree of an earlier build. -/
def unpackedTree : FileTree :=
  (((FileTree.empty.put [Path.ofString "llvm-project-"] (.directory 0o755)).putFile
    [Path.ofString "cmake"] 0o755).2.putFile [Path.ofString "ninja"] 0o755).2

/-- The same after the build directory has been made. -/
def enteredTree : FileTree :=
  unpackedTree.put [Path.ofString "llvm-project-", Path.ofString "build"] (.directory 0o755)

lemma startOf_idleTools {w : World} {s : ToolStep}
    (hs : s ∈ (BuildPlan.toolSteps misplaced).map Prod.snd)
    (hw : (BuildPlan.announced misplacedPlan.buildDir s w).files = enteredTree) :
    BuildPlan.startOf idleTools.shop none misplacedPlan.buildDir w s =
      .ok (.exited 0, enteredTree) := by
  obtain ⟨path, place, content, hf⟩ : ∃ path place content,
      Spawn.find { enteredTree with cwd := [Path.ofString "llvm-project-", Path.ofString "build"] }
        idleTools.shop.searchPath (Path.ofString s.program) = .ok (path, place, content) := by
    rcases BuildPlan.mem_steps hs with rfl | rfl | rfl <;> exact ⟨_, _, _, rfl⟩
  exact BuildPlan.startOf_found hw (BuildPlan.nonzero_steps hs) (by decide) rfl hf

/-- In a world that the build directory has been made in, tools come to their ends. -/
lemma worked_idleTools {w : World} (hw : w.files = enteredTree) (hs : w.sink = .none) :
    ∃ turns u, BuildPlan.Worked idleTools.shop none misplacedPlan.buildDir w
      (BuildPlan.toolSteps misplaced) turns u := by
  refine BuildPlan.exists_worked (P := fun w => w.files = enteredTree ∧ w.sink = .none) ⟨hw, hs⟩ ?_
  rintro ⟨stage, s⟩ hmem w ⟨hw, hs⟩
  have hannounced : (BuildPlan.announced misplacedPlan.buildDir s w).files = enteredTree :=
    (World.files_say_unlogged _ fun id hid => by simp [hs] at hid).trans hw
  exact ⟨_, _, startOf_idleTools (List.mem_map_of_mem hmem) hannounced, rfl,
    (World.sink_say w _).trans hs⟩

/-- Keeps what the library says, and nothing that a command says. -/
def coreOnly : LogFilter := [{ target := some "llvm_prep_core", rank := 4 }]

def errorsOnly : LogFilter := [{ rank := 1 }]

/-- There is a report, in which the download has failed. -/
lemma exists_report_misplaced {f : LogFilter} (hf : f = coreOnly ∨ f = errorsOnly) :
    ∃ report u, (misplacedPlan.run idleTools).run
        (World.emit (.printed misplaced.archiveUrl) { files := unpackedTree, filter := f }) =
          (.ok report, u) ∧
      ∃ r ∈ report.stages, r.status.isOk = false := by
  obtain ⟨w, hw⟩ : ∃ w, w = World.emit (.printed misplaced.archiveUrl)
    { files := unpackedTree, filter := f } := ⟨_, rfl⟩
  rw [← hw]
  have henter : ∃ v, misplacedPlan.enter.run (misplacedPlan.afterExtract idleTools w) =
      (.ok misplacedPlan.buildDir, v) ∧ v.files = enteredTree ∧ v.sink = .none := by
    rcases hf with rfl | rfl <;> subst hw <;> exact ⟨_, rfl, rfl, rfl⟩
  obtain ⟨v, hv, hfiles, hsink⟩ := henter
  obtain ⟨turns, u, hworked⟩ := worked_idleTools hfiles hsink
  refine ⟨_, u, BuildPlan.run_of_worked hv hworked, ?_⟩
  refine ⟨⟨.download, BuildPlan.attemptStatus DownloadError.message
    ((misplacedPlan.download idleTools).run w).1⟩, by simp [BuildPlan.attempts], ?_⟩
  subst hw
  rfl

/-! ### What is seen of a build -/

/-- **One story**: a build that has a report is done, and what is printed and what is logged tell
what is reported, as far as the log takes warnings of either speaker. -/
theorem build_told (site : Site) (c : Config) (dir : Path) {w u : World} {report : BuildReport}
    (h : ((BuildPlan.ofConfig c dir).run site).run (w.emit (.printed c.archiveUrl)) =
      (.ok report, u)) :
    ∃ es v, (build site c dir).run w = (.ok (), v) ∧ v.events = w.events ++ es ∧
      SameStory c report w.filter es := by
  obtain ⟨told, v, hv, hevents, hstory⟩ := exists_seen site c dir h
  exact ⟨seenOf c report w.filter told, v, hv, hevents, hstory⟩

/-- The download fails, of which the log tells. It does not take what is said at the end. -/
theorem build_told_misplaced : ∃ report u, (misplacedPlan.run idleTools).run
      (World.emit (.printed misplaced.archiveUrl) { files := unpackedTree, filter := coreOnly }) =
        (.ok report, u) ∧
    (∃ r ∈ report.stages, r.status.isOk = false) ∧
    ∃ es v, (build idleTools misplaced [Path.slash]).run
        { files := unpackedTree, filter := coreOnly } = (.ok (), v) ∧
      v.events = es ∧ SameStory misplaced report coreOnly es := by
  obtain ⟨report, u, hrun, hbad⟩ := exists_report_misplaced (.inl rfl)
  obtain ⟨es, v, hv, hevents, hstory⟩ := build_told idleTools misplaced [Path.slash] hrun
  exact ⟨report, u, hrun, hbad, es, v, hv, hevents, hstory⟩

/-- What the log does not take it does not tell. -/
theorem build_unheard : ¬ ∀ (site : Site) (c : Config) (dir : Path) (w u v : World)
    (report : BuildReport) (es : List Event),
    ((BuildPlan.ofConfig c dir).run site).run (w.emit (.printed c.archiveUrl)) = (.ok report, u) →
      (build site c dir).run w = (.ok (), v) → v.events = w.events ++ es →
      List.Forall₂ StageRecord.Warns (report.stages.filter fun r => !r.status.isOk)
          (stageWarnings es) ∧
        ((∃ r ∈ report.stages, r.status.isOk = false) → closings es ≠ []) := by
  intro h
  obtain ⟨report, u, hrun, hbad⟩ := exists_report_misplaced (.inr rfl)
  obtain ⟨told, v, hv, hevents, hstory⟩ := exists_seen _ _ _ hrun
  obtain ⟨-, hclosed⟩ := h _ _ _ _ u v report _ hrun hv hevents
  exact hclosed hbad (hstory.unclosed (by decide))

end CommandLine

end PinnedBuild
