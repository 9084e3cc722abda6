import Mathlib
import PinnedBuild.Proofs.CommandLine.Commands

/-!
How the program ends: with which exit status, with what on standard output, and with what last on
standard error.
-/

namespace PinnedBuild

open Files

variable {w v u : World}

/-! ### Causes -/

/-- What an error is told with, from what was tried to what went wrong in it. -/
def Digest.HashError.causes : Digest.HashError → List String
  | .cannotOpen path e => ["open " ++ path.display, e.message]
  | .cannotRead path cause => ["hash " ++ path.display, "read", cause]

def Config.LoadError.causes : Config.LoadError → List String
  | .cannotRead path e => ["read config " ++ path.display, e.message]
  | .notText path => ["read config " ++ path.display, "stream did not contain valid UTF-8"]
  | .noConfig path .noDocument =>
    ["parse config " ++ path.display, "TOML parse error: not a document"]
  | .noConfig path (.data e) => ["parse config " ++ path.display, "TOML parse error: " ++ e.message]
  | .cannotWrite e => [e.message]

def BuildError.causes : BuildError → List String
  | .enter (.noSource dir) => ["source directory " ++ dir.display ++ " not found"]
  | .enter (.cannotCreate dir e) => ["create build directory " ++ dir.display, e.message]
  | .tool e => ["failed to run `" ++ e.command ++ "`", e.cause.message]

/-- The causes as they are told together. -/
def chain (causes : List String) : String := ": ".intercalate causes

@[simp] lemma chain_singleton (s : String) : chain [s] = s := String.intercalate_singleton

lemma chain_cons_cons (s t : String) (causes : List String) :
    chain (s :: t :: causes) = s ++ ": " ++ chain (t :: causes) := String.intercalate_cons_cons

lemma Digest.HashError.message_eq (e : Digest.HashError) : e.message = chain e.causes := by
  rcases e with ⟨path, e⟩ | ⟨path, cause⟩
  · rfl
  · calc "hash " ++ path.display ++ (": " ++ "read" ++ ": ") ++ cause
      _ = chain ["hash " ++ path.display, "read", cause] := by
        simp only [chain_cons_cons, chain_singleton, String.append_assoc]

lemma Config.LoadError.message_eq (e : Config.LoadError) : e.message = chain e.causes := by
  rcases e with ⟨path, e⟩ | path | ⟨path, _ | e⟩ | e
  · rfl
  · calc "read config " ++ path.display ++ (": " ++ "stream did not contain valid UTF-8")
      _ = chain ["read config " ++ path.display, "stream did not contain valid UTF-8"] := by
        simp only [chain_cons_cons, chain_singleton, String.append_assoc]
  · calc "parse config " ++ path.display ++ (": " ++ "TOML parse error: not a document")
      _ = chain ["parse config " ++ path.display, "TOML parse error: not a document"] := by
        simp only [chain_cons_cons, chain_singleton, String.append_assoc]
  · calc "parse config " ++ path.display ++ (": " ++ "TOML parse error: ") ++ e.message
      _ = chain ["parse config " ++ path.display, "TOML parse error: " ++ e.message] := by
        simp only [chain_cons_cons, chain_singleton, String.append_assoc]
  · rfl

lemma BuildError.message_eq (e : BuildError) : e.message = chain e.causes := by
  rcases e with (dir | ⟨dir, e⟩) | e
  · rfl
  · rfl
  · calc "failed to run `" ++ e.command ++ ("`" ++ ": ") ++ e.cause.message
      _ = chain ["failed to run `" ++ e.command ++ "`", e.cause.message] := by
        simp only [chain_cons_cons, chain_singleton, String.append_assoc]

namespace CommandLine

def CommandError.causes : CommandError → List String
  | hash e => e.causes
  | config e => e.causes
  | build e => e.causes
  | noDirectory => [FileError.notFound.message]

/-- A message tells all the causes and nothing else. -/
lemma CommandError.message_eq (err : CommandError) : err.message = chain err.causes := by
  rcases err with e | e | e | _
  · exact e.message_eq
  · exact e.message_eq
  · exact e.message_eq
  · rfl

/-! ### What is printed -/

/-- The lines on standard output. -/
def printedLines (es : List Event) : List String := es.filterMap Event.printed?

/-- The lines on standard error: the log where it goes there, and then the error if there is one. -/
def errorLines (out : Ending × World) (es : List Event) : List String :=
  (if out.2.sink = .standardError then (es.filterMap Event.line?).map LogLine.display else [])
    ++ out.1.errorLine?.toList

end CommandLine

namespace BuildPlan

variable {p : BuildPlan} {site : Site} {turns : List ToolTurn}
  {out : Except BuildError BuildReport × World}

/-- Whatever way a run takes, it prints nothing. -/
lemma Course.unprinted (h : Course p site w turns out) :
    ∃ es, out.2.events = w.events ++ es ∧ es.filterMap Event.printed? = [] := by
  have htells : ∃ rs, w.Tells out.2 rs := by
    have hattempts := tells_attempts p site w
    cases h with
    | notEntered _ => exact ⟨_, hattempts⟩
    | notStarted enter _ worked _ =>
      have hworked := (hattempts.aside (tells_enter enter)).trans worked.tells
      exact ⟨_, hworked.aside (World.tells_say _ (LogLine.aside_of_level (by simp)))⟩
    | finished enter worked => exact ⟨_, (hattempts.aside (tells_enter enter)).trans worked.tells⟩
  obtain ⟨rs, -, es, hes, hprinted, -⟩ := htells
  exact ⟨es, hes, hprinted⟩

end BuildPlan

namespace CommandLine

variable {site : Site} {e : Environment} {config workDir : Option Path}
  {commit : Option String} {jobs : Option UInt32} {noSudo : Bool} {c : Config} {dir : Path}
  {err : CommandError}

/-- A build ends as its run does. The address comes first, and the stages are only told of if the
run has a report. -/
structure Builds (c : Config) (ran : Except BuildError BuildReport)
    (out : Except CommandError Unit) (es : List Event) : Prop where
  ok : ∀ report, ran = .ok report →
    out = .ok () ∧ printedLines es = c.archiveUrl :: report.stages.map reportLine
  error : ∀ err, ran = .error err → out = .error (.build err) ∧ printedLines es = [c.archiveUrl]

lemma exists_builds (site : Site) (c : Config) (dir : Path) (w : World) :
    ∃ es, ((build site c dir).run w).2.events = w.events ++ es ∧
      Builds c (((BuildPlan.ofConfig c dir).run site).run (w.emit (.printed c.archiveUrl))).1
        ((build site c dir).run w).1 es := by
  rcases hr : ((BuildPlan.ofConfig c dir).run site).run (w.emit (.printed c.archiveUrl)) with
    ⟨err | report, u⟩
  · obtain ⟨turns, hcourse⟩ := BuildPlan.exists_course (BuildPlan.ofConfig c dir) site
      (w.emit (.printed c.archiveUrl))
    rw [hr] at hcourse
    obtain ⟨es, hes, hprinted⟩ := hcourse.unprinted
    rw [run_build_failed site c dir hr]
    refine ⟨.printed c.archiveUrl :: es, by simpa [World.emit] using hes, ?_, ?_⟩
    · rintro _ ⟨⟩
    · rintro _ ⟨⟩
      exact ⟨rfl, congrArg (c.archiveUrl :: ·) hprinted⟩
  · obtain ⟨told, v, hv, hes, hstory⟩ := exists_seen site c dir hr
    rw [hv]
    refine ⟨_, hes, ?_, ?_⟩
    · rintro _ ⟨⟩
      exact ⟨rfl, hstory.printed⟩
    · rintro _ ⟨⟩

/-- A command adds to what is seen and takes nothing back. -/
lemma exists_seen_carryOut (site : Site) (e : Environment) (i : Invocation) (w : World) :
    ∃ es, ((carryOut site e i).run w).2.events = w.events ++ es := by
  obtain ⟨config, path | commit | ⟨workDir, commit, jobs, noSudo⟩⟩ := i
  · rw [run_checksum]
    rcases Digest.hashFile w.files path with err | digest
    · exact ⟨[], by simp⟩
    · exact ⟨_, rfl⟩
  · obtain ⟨lines, hq⟩ := quiet_loadConfig e config w
    rw [run_url]
    rcases hr : (loadConfig e config).run w with ⟨err | c, v⟩ <;> rw [hr] at hq
    · exact ⟨_, hq⟩
    · have hv : v.events = w.events ++ lines.map .logged := hq
      exact ⟨_, (congrArg (· ++ _) hv).trans (List.append_assoc ..)⟩
  · obtain ⟨lines, hq⟩ := quiet_prepare e config workDir commit jobs noSudo w
    rw [run_build_prepared]
    rcases hr : (prepare e config workDir commit jobs noSudo).run w with ⟨err | ⟨c, dir⟩, v⟩ <;>
      rw [hr] at hq
    · exact ⟨_, hq⟩
    · obtain ⟨es, hes, -⟩ := exists_builds site c dir v
      exact ⟨_, by rw [hes, hq, List.append_assoc]⟩

/-! ### How a run ends -/

/-- How a run that starts in `w` ends, of which `es` is seen. -/
structure Ends (site : Site) (e : Environment) (args : List Bytes) (w : World)
    (out : Ending × World) (es : List Event) : Prop where
  seen : out.2.events = w.events ++ es
  usage : out.1.exitStatus = 2 ↔ ∃ r, parse args = .error r ∧ ∀ topic, r ≠ .help topic
  usagePrints : out.1.exitStatus = 2 → printedLines es = []
  help : ∀ topic, parse args = .error (.help topic) →
    out.1.exitStatus = 0 ∧ printedLines es = [helpText topic] ∧ out.1.errorLine? = none
  done : ∀ i, parse args = .ok i →
    (out.1.exitStatus = 0 ↔ ((carryOut site e i).run (startLog e w)).1 = .ok ())
  failed : ∀ i, parse args = .ok i →
    (out.1.exitStatus = 1 ↔ ∃ err, ((carryOut site e i).run (startLog e w)).1 = .error err)
  told : ∀ i err, parse args = .ok i → ((carryOut site e i).run (startLog e w)).1 = .error err →
    (errorLines out es).getLast? = some ("llvm-prep error: " ++ chain err.causes)
  /-- Without a configuration or a directory there is no build. -/
  unprepared : ∀ config workDir commit jobs noSudo err v,
    parse args = .ok ⟨config, .build workDir commit jobs noSudo⟩ →
    (prepare e config workDir commit jobs noSudo).run (startLog e w) = (.error err, v) →
    out.1.exitStatus = 1 ∧ printedLines es = []
  /-- With both, what counts is whether the run of the build has a report. -/
  built : ∀ config workDir commit jobs noSudo c dir v,
    parse args = .ok ⟨config, .build workDir commit jobs noSudo⟩ →
    (prepare e config workDir commit jobs noSudo).run (startLog e w) = (.ok (c, dir), v) →
    (out.1.exitStatus = 0 ↔ ∃ report, (((BuildPlan.ofConfig c dir).run site).run
      (v.emit (.printed c.archiveUrl))).1 = .ok report) ∧
    (out.1.exitStatus = 1 → printedLines es = [c.archiveUrl])

lemma exitStatus_usage {r : Refusal} (hr : ∀ topic, r ≠ .help topic) :
    (Ending.refused r).exitStatus = 2 := by
  cases r with
  | help topic => exact absurd rfl (hr topic)
  | _ => rfl

lemma exitStatus_endingOf (r : Except CommandError Unit) :
    ((endingOf r).exitStatus = 0 ↔ r = .ok ()) ∧
      ((endingOf r).exitStatus = 1 ↔ ∃ err, r = .error err) ∧ (endingOf r).exitStatus ≠ 2 := by
  rcases r with err | ⟨⟩ <;> simp [endingOf, Ending.exitStatus]

lemma Builds.ended {ran : Except BuildError BuildReport} {out : Except CommandError Unit}
    {es : List Event} (h : Builds c ran out es) :
    ((endingOf out).exitStatus = 0 ↔ ∃ report, ran = .ok report) ∧
      ((endingOf out).exitStatus = 1 → printedLines es = [c.archiveUrl]) := by
  rcases ran with err | report
  · obtain ⟨rfl, hprinted⟩ := h.error err rfl
    exact ⟨by simp [endingOf, Ending.exitStatus], fun _ => hprinted⟩
  · obtain ⟨rfl, -⟩ := h.ok report rfl
    exact ⟨by simp [endingOf, Ending.exitStatus], by simp [endingOf, Ending.exitStatus]⟩

/-- What is seen of the start is not printed. -/
lemma printedLines_logged (lines : List LogLine) (es : List Event) :
    printedLines (lines.map .logged ++ es) = printedLines es := by
  simp [printedLines, Event.printed?]

/-- Of a command line that is no command only what is refused has to be said. -/
lemma Ends.of_refused {site : Site} {e : Environment} {args : List Bytes} {w : World}
    {out : Ending × World} {es : List Event} {r : Refusal} (hp : parse args = .error r)
    (seen : out.2.events = w.events ++ es)
    (usage : out.1.exitStatus = 2 ↔ ∀ topic, r ≠ .help topic)
    (prints : out.1.exitStatus = 2 → printedLines es = [])
    (help : ∀ topic, r = .help topic →
      out.1.exitStatus = 0 ∧ printedLines es = [helpText topic] ∧ out.1.errorLine? = none) :
    Ends site e args w out es := by
  have hno : ∀ i, parse args ≠ .ok i := by
    intro i h
    cases hp.symm.trans h
  constructor
  case seen => exact seen
  case usage =>
    refine usage.trans ⟨fun h => ⟨r, hp, h⟩, ?_⟩
    rintro ⟨r', hr', h⟩
    obtain rfl : r = r' := Except.error.inj (hp.symm.trans hr')
    exact h
  case usagePrints => exact prints
  case help => exact fun topic h => help topic (Except.error.inj (hp.symm.trans h))
  case done => exact fun i h => absurd h (hno i)
  case failed => exact fun i h => absurd h (hno i)
  case told => exact fun i err h => absurd h (hno i)
  case unprepared => exact fun _ _ _ _ _ _ _ h => absurd h (hno _)
  case built => exact fun _ _ _ _ _ _ _ _ h => absurd h (hno _)

/-- **Endings**: usage errors have status 2 and print nothing, help has status 0 and prints just
that, and a command has status 0 if it is carried out and 1 if it fails, with all the causes told at
the end of standard error. A build is carried out if its run has a report, whatever that says; one
that fails has printed its address and nothing of its stages. -/
theorem run_ends (site : Site) (e : Environment) (args : List Bytes) (w : World) :
    ∃ es, Ends site e args w (run site e args w) es := by
  obtain ⟨lines, hstart⟩ := quiet_startLog e w
  have hrun : run site e args w = dispatch site e args (startLog e w) := rfl
  rcases hp : parse args with r | i
  · by_cases hr : ∃ topic, r = .help topic
    · obtain ⟨topic, rfl⟩ := hr
      rw [hrun, dispatch_help hp]
      refine ⟨lines.map .logged ++ [.printed (helpText topic)], .of_refused hp ?_ ?_ ?_ ?_⟩
      · rw [World.emit, hstart, List.append_assoc]
      · simp [Ending.exitStatus, Refusal.exitStatus]
      · simp [Ending.exitStatus, Refusal.exitStatus]
      · intro topic' h
        obtain rfl := Refusal.help.inj h
        exact ⟨rfl, printedLines_logged lines _, rfl⟩
    · have hr' : ∀ topic, r ≠ .help topic := fun topic h => hr ⟨topic, h⟩
      rw [hrun, dispatch_usage hp hr']
      refine ⟨lines.map .logged, .of_refused hp hstart ?_ ?_ ?_⟩
      · exact iff_of_true (exitStatus_usage hr') hr'
      · exact fun _ => by simp [printedLines, Event.printed?]
      · exact fun topic h => absurd h (hr' topic)
  · obtain ⟨es, hes⟩ := exists_seen_carryOut site e i (startLog e w)
    rw [hrun, dispatch_command hp]
    refine ⟨lines.map .logged ++ es, ?_⟩
    constructor
    case seen => rw [hes, hstart, List.append_assoc]
    case usage => exact iff_of_false (exitStatus_endingOf _).2.2 (by simp [hp])
    case usagePrints => exact fun h => absurd h (exitStatus_endingOf _).2.2
    case help => simp [hp]
    case done =>
      rintro i' h
      obtain rfl := Except.ok.inj (hp.symm.trans h)
      exact (exitStatus_endingOf _).1
    case failed =>
      rintro i' h
      obtain rfl := Except.ok.inj (hp.symm.trans h)
      exact (exitStatus_endingOf _).2.1
    case told =>
      rintro i' err h herr
      obtain rfl := Except.ok.inj (hp.symm.trans h)
      simp [errorLines, herr, endingOf, Ending.errorLine?, err.message_eq]
    case unprepared =>
      rintro config workDir commit jobs noSudo err v h hprep
      obtain rfl := Except.ok.inj (hp.symm.trans h)
      obtain ⟨ls, hq⟩ := quiet_prepare e config workDir commit jobs noSudo (startLog e w)
      rw [run_build_prepared, hprep] at hes ⊢
      rw [hprep] at hq
      obtain rfl : es = ls.map .logged := List.append_cancel_left (hes.symm.trans hq)
      exact ⟨rfl, by simp [printedLines, Event.printed?]⟩
    case built =>
      rintro config workDir commit jobs noSudo c dir v h hprep
      obtain rfl := Except.ok.inj (hp.symm.trans h)
      obtain ⟨ls, hq⟩ := quiet_prepare e config workDir commit jobs noSudo (startLog e w)
      obtain ⟨es', hes', hbuilds⟩ := exists_builds site c dir v
      rw [run_build_prepared, hprep] at hes ⊢
      rw [hprep] at hq
      obtain rfl : es = ls.map .logged ++ es' := by
        refine List.append_cancel_left (hes.symm.trans (hes'.trans ?_))
        rw [hq, List.append_assoc]
      rw [← List.append_assoc, ← List.map_append, printedLines_logged]
      exact hbuilds.ended

end CommandLine

end PinnedBuild
