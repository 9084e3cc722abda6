import Mathlib
import PinnedBuild.Proofs.CommandLine.ParallelRuns

/-!
The log beside the commands that build nothing. It only ever gets longer, and whether it can be
opened makes no difference to them, as long as it makes none to the ways of their files.
-/

namespace PinnedBuild

open Files FileTree

namespace CommandLine

variable {e : Environment} {site : Site} {args : List Bytes} {w w' : World} {loc : Location}
  {p : Path} {t u t' u' : FileTree}

/-! ### History -/

/-- An invocation, with the time at which it is made. -/
structure Call where
  args : List Bytes
  time : String := ""

/-- The files after invocations one after the other in one environment. -/
def after (site : Site) (e : Environment) (t : FileTree) (calls : List Call) : FileTree :=
  calls.foldl (fun t call => (run site e call.args { files := t, time := call.time }).2.files) t

lemma lengthens_dispatch (site : Site) (e : Environment) (hb : NoBuild args) (w : World) :
    w.files.Lengthens (dispatch site e args w).2.files := by
  rcases hb.cases with ⟨r, hp⟩ | ⟨config, path, hp⟩ | ⟨config, commit, hp⟩
  · rw [files_refused site e w hp]
    exact .refl _
  · rw [dispatch_command hp, files_checksum]
    exact .refl _
  · rw [dispatch_command hp, files_url]
    exact lengthens_loadConfig e config w

/-- One invocation takes nothing away, whether it succeeds or fails. -/
lemma lengthens_run (site : Site) (e : Environment) (hb : NoBuild args) (w : World) :
    w.files.Lengthens (run site e args w).2.files :=
  (lengthens_startLog e w).trans (lengthens_dispatch site e hb _)

lemma lengthens_after (site : Site) (e : Environment) (t : FileTree) {calls : List Call}
    (hb : ∀ call ∈ calls, NoBuild call.args) : t.Lengthens (after site e t calls) := by
  induction calls generalizing t with
  | nil => exact .refl t
  | cons call calls ih =>
    have hfirst := lengthens_run site e (hb call (by simp)) { files := t, time := call.time }
    exact hfirst.trans (ih _ fun c hc => hb c (by simp [hc]))

lemma after_append (site : Site) (e : Environment) (t : FileTree) (front back : List Call) :
    after site e t (front ++ back) = after site e (after site e t front) back :=
  List.foldl_append ..

/-! ### With the log and without -/

/-- What starting the log tells. -/
def opening (e : Environment) : List Event :=
  if e.filter.keeps (openingLine e) then [.logged (openingLine e)] else []

/-- Of all that has changed from the one tree to the other this is for the log: its file, or a
directory on the way to it. -/
def OfLog (e : Environment) (t u : FileTree) (loc : Location) : Prop :=
  MadeFor e.stateDir t u loc ∨ LogStands e u loc

/-- The log was opened from `w` and could not be opened from `w'`, and nothing else is different:
the runs end alike, and `es` is what both tell. With a log that is a file, its lines stand there,
and without one on standard error. -/
structure Unimpeded (e : Environment) (w w' : World) (out out' : Ending × World)
    (es : List Event) : Prop where
  ending : out'.1 = out.1
  seen : out.2.events = w.events ++ (opening e ++ es)
  seen' : out'.2.events = w'.events ++ es
  printed : printedLines (opening e ++ es) = printedLines es
  errors : errorLines out (opening e ++ es) = out.1.errorLine?.toList
  errors' : errorLines out' es =
    (es.filterMap Event.line?).map LogLine.display ++ out.1.errorLine?.toList
  kept : ∀ id, out.2.sink = .file id →
    stampedLines w.time (opening e ++ es) <:+ logText e out.2.files
  places : ∀ loc, out'.2.files.object? loc = out.2.files.object? loc ∨
    w'.files.object? loc ≠ w.files.object? loc ∨
    OfLog e w.files out.2.files loc ∨ OfLog e w'.files out'.2.files loc

lemma startLog_failed (h : ((openLog e).run w.files).1.isOk = false) :
    startLog e w = logging e w := by rw [startLog_eq, h, if_neg (by simp)]

lemma logs_startLog (h : ((openLog e).run w.files).1.isOk = true) :
    Logs e (logging e w) (startLog e w) (opening e) := by
  rw [startLog_eq, if_pos h]
  exact (logLeads_logging e w).logs_say (openingLine e)

lemma sink_logging (e : Environment) (w : World) :
    (logging e w).sink = .standardError ↔ ((openLog e).run w.files).1.isOk = false := by
  show sinkOf ((openLog e).run w.files).1 = .standardError ↔ _
  rcases ((openLog e).run w.files).1 with x | (l | id | d) <;>
    simp [sinkOf, Except.isOk, Except.toBool]

lemma filter_startLog (e : Environment) (w : World) : (startLog e w).filter = e.filter := by
  refine startLog_of (P := fun v => v.filter = e.filter) rfl fun line h => ?_
  unfold World.say
  split
  · exact (World.filter_record _ line).trans h
  · exact h

lemma printedLines_opening (e : Environment) (es : List Event) :
    printedLines (opening e ++ es) = printedLines es := by
  unfold opening
  split
  · exact printedLines_logged [openingLine e] es
  · rfl

lemma errorLines_kept {out : Ending × World} (h : out.2.sink ≠ .standardError) (es : List Event) :
    errorLines out es = out.1.errorLine?.toList := by
  unfold errorLines
  rw [if_neg h, List.nil_append]

/-- What is the same in two runs beside the log, for a place that neither has changed since. -/
lemma BesidesLog.both (h : BesidesLog e t u loc) (h' : BesidesLog e t' u' loc) :
    u'.object? loc = u.object? loc ∨ t'.object? loc ≠ t.object? loc ∨
      OfLog e t u loc ∨ OfLog e t' u' loc := by
  by_cases hbefore : t'.object? loc = t.object? loc
  · rcases h with h | h
    · rcases h' with h' | h'
      · exact .inl ((h'.trans hbefore).trans h.symm)
      · exact .inr (.inr (.inr h'))
    · exact .inr (.inr (.inl h))
  · exact .inr (.inl hbefore)

/-- **A log that cannot be opened changes nothing else.** -/
lemma run_unimpeded (site : Site) (hb : NoBuild args) (hs : w.files.Sound) (hs' : w'.files.Sound)
    (hopens : ((openLog e).run w.files).1.isOk = true)
    (hfails : ((openLog e).run w'.files).1.isOk = false)
    (hu : Uses e args ((startLog e w).files.SameWay (startLog e w').files)
      ((startLog e w).files.SameRoom (startLog e w').files)) :
    ∃ es, Unimpeded e w w' (run site e args w) (run site e args w') es := by
  have habreast := dispatch_abreast (logLeads_startLog e w) (logLeads_startLog e w') site
    hb hu (sound_startLog e hs) (sound_startLog e hs')
    ((filter_startLog e w').trans (filter_startLog e w).symm)
  obtain ⟨es, hlogs, hlogs'⟩ := habreast.told
  have hwhole := (logs_startLog hopens).trans hlogs
  rw [startLog_failed hfails] at hlogs'
  have hsink : (run site e args w).2.sink ≠ .standardError := by
    intro hstderr
    have hlogging := (sink_logging e w).mp (hwhole.sink.symm.trans hstderr)
    rw [hopens] at hlogging
    cases hlogging
  have hsink' : (run site e args w').2.sink = .standardError := by
    unfold run
    rw [startLog_failed hfails, hlogs'.sink]
    exact (sink_logging e w').mpr hfails
  refine ⟨es, habreast.answer, hwhole.seen, ?_, printedLines_opening e es, errorLines_kept hsink _,
    ?_, fun id hid => ?_, fun loc => ?_⟩
  · unfold run
    rw [startLog_failed hfails]
    exact hlogs'.seen
  · have hending : (run site e args w').1 = (run site e args w).1 := habreast.answer
    unfold errorLines
    rw [if_pos hsink', hending]
  · have htext := hwhole.text id (hwhole.sink.symm.trans hid)
    exact ⟨_, htext.symm⟩
  · have hbesides := besides_startLog e hs loc
    have hbesides' := besides_startLog e hs' loc
    obtain ⟨hlong, hlong'⟩ := habreast.lengthens
    rcases habreast.places loc with ⟨hsame, hsame'⟩ | heq | hstands | hstands'
    · exact (hbesides.same hlong hsame).both (hbesides'.same hlong' hsame')
    · exact .inl heq
    · exact .inr (.inr (.inl (.inr hstands)))
    · exact .inr (.inr (.inr (.inr hstands')))

/-! ### Ways that have nothing to do with the log -/

/-- The place is not the log's, whichever of the two worlds the log is started in. -/
def OffLog (e : Environment) (w w' : World) (loc : Location) : Prop :=
  ¬ OfLog e w.files (startLog e w).files loc ∧ ¬ OfLog e w'.files (startLog e w').files loc

/-- The way looks alike in both worlds, and no place on it is the log's. -/
structure WayOffLog (e : Environment) (w w' : World) (p : Path) : Prop
    extends w.files.SameWay w'.files p where
  off : ∀ loc ∈ w.files.trail p, OffLog e w w' loc

/-- What is missing on the way is missing from the same directory, which is not the log's either. -/
structure RoomOffLog (e : Environment) (w w' : World) (p : Path) : Prop
    extends w.files.SameRoom w'.files p where
  off : ∀ loc ∈ w.files.trail p, OffLog e w w' loc
  above : ∀ loc ∈ w.files.trail p, w.files.node? loc = none → OffLog e w w' loc.dropLast

/-- What stands there as before is not the log's, unless it is a file. -/
lemma not_ofLog (hsame : u.node? loc = t.node? loc) (hfile : ∀ id, t.node? loc ≠ some (.file id)) :
    ¬ OfLog e t u loc := by
  rintro (⟨hn, q, -, m, hl⟩ | ⟨l, id, -, hn⟩)
  · cases (lookup_node hl).symm.trans (hsame.trans hn)
  · exact hfile id (hsame.symm.trans hn)

lemma node?_startLog (hs : w.files.Sound) (hoff : ¬ OfLog e w.files (startLog e w).files loc) :
    (startLog e w).files.node? loc = w.files.node? loc := by
  have hobject := (besides_startLog e hs loc).resolve_right hoff
  rcases hn : w.files.node? loc with _ | n
  · have hnone : (startLog e w).files.object? loc = none := by
      rw [hobject, FileTree.object?, hn]
    exact node?_of_object?_eq_none (sound_startLog e hs) hnone
  · exact (lengthens_startLog e w).keeps.node loc n hn

lemma file?_startLog {id : Nat} (hs : w.files.Sound)
    (hoff : ¬ OfLog e w.files (startLog e w).files loc)
    (hn : w.files.node? loc = some (.file id)) :
    (startLog e w).files.file? id = w.files.file? id := by
  have hobject := (besides_startLog e hs loc).resolve_right hoff
  unfold FileTree.object? at hobject
  rw [node?_startLog hs hoff, hn] at hobject
  exact Option.map_injective (fun _ _ => Object.file.inj) hobject

/-- To start the log makes no links. -/
lemma link?_startLog (hs : w.files.Sound) (loc : Location) :
    (startLog e w).files.link? loc = w.files.link? loc := by
  by_cases hoff : OfLog e w.files (startLog e w).files loc
  · have hnolink : ∀ target, (startLog e w).files.node? loc ≠ some (.link target) := by
      rintro target hlink
      rcases hoff with ⟨-, q, -, m, hl⟩ | ⟨l, id, -, hn⟩
      · rw [lookup_node hl] at hlink
        cases hlink
      · rw [hn] at hlink
        cases hlink
    unfold FileTree.link?
    rcases hn : w.files.node? loc with _ | n
    · split
      · exact absurd (by assumption) (hnolink _)
      · rfl
    · rw [(lengthens_startLog e w).keeps.node loc n hn]
  · unfold FileTree.link?
    rw [node?_startLog hs hoff]

lemma trail_startLog (hs : w.files.Sound) (p : Path) :
    (startLog e w).files.trail p = w.files.trail p :=
  trail_congr (lengthens_startLog e w).cwd (link?_startLog hs) p

section

variable (hs : w.files.Sound) (hs' : w'.files.Sound)

include hs hs'

lemma looksAlike_startLog (hoff : OffLog e w w' loc) (h : w.files.LooksAlike w'.files loc) :
    (startLog e w).files.LooksAlike (startLog e w').files loc := by
  have huser := (lengthens_startLog e w).keeps.user
  have huser' := (lengthens_startLog e w').keeps.user
  unfold LooksAlike at h ⊢
  rw [node?_startLog hs hoff.1, node?_startLog hs' hoff.2]
  rcases hn : w.files.node? loc with _ | n <;> rcases hn' : w'.files.node? loc with _ | n' <;>
    rw [hn, hn'] at h
  · exact .gap
  · cases h
  · cases h
  · cases h with
    | directory reads searches =>
      rw [← huser, ← huser'] at reads searches
      exact .directory reads searches
    | link target => exact .link target
    | file same =>
      refine .file ?_
      rw [file?_startLog hs hoff.1 hn, file?_startLog hs' hoff.2 hn', same]
    | device d => exact .device d

lemma WayOffLog.started (h : WayOffLog e w w' p) :
    (startLog e w).files.SameWay (startLog e w').files p where
  cwd := by rw [(lengthens_startLog e w).cwd, (lengthens_startLog e w').cwd, h.cwd]
  user := by rw [(lengthens_startLog e w).keeps.user, (lengthens_startLog e w').keeps.user, h.user]
  looks loc hloc := by
    rw [trail_startLog hs] at hloc
    exact looksAlike_startLog hs hs' (h.off loc hloc) (h.looks loc hloc)

lemma RoomOffLog.started (h : RoomOffLog e w w' p) :
    (startLog e w).files.SameRoom (startLog e w').files p where
  toSameWay := WayOffLog.started hs hs' ⟨h.toSameWay, h.off⟩
  room loc hloc hn := by
    rw [trail_startLog hs] at hloc
    rw [node?_startLog hs (h.off loc hloc).1] at hn
    have habove := h.above loc hloc hn
    rw [node?_startLog hs habove.1, node?_startLog hs' habove.2]
    exact h.room loc hloc hn

end

/-- **Logging is unobtrusive.** Whatever has been called, commands that build nothing leave the log
with all that it held. If it can be opened in one world and not in the other, a command comes to the
same in both if the ways of its files then look alike; and they do if they looked alike before and
have nothing to do with the log. -/
theorem logging_unobtrusive (site : Site) (e : Environment) :
    (∀ (t : FileTree) (front back : List Call), (∀ call ∈ back, NoBuild call.args) →
      logText e (after site e t front) <+: logText e (after site e t (front ++ back))) ∧
    (∀ (args : List Bytes) (w w' : World), NoBuild args → w.files.Sound → w'.files.Sound →
      ((openLog e).run w.files).1.isOk = true → ((openLog e).run w'.files).1.isOk = false →
      Uses e args ((startLog e w).files.SameWay (startLog e w').files)
        ((startLog e w).files.SameRoom (startLog e w').files) →
      ∃ es, Unimpeded e w w' (run site e args w) (run site e args w') es) ∧
    ∀ (args : List Bytes) (w w' : World), w.files.Sound → w'.files.Sound →
      Uses e args (WayOffLog e w w') (RoomOffLog e w w') →
      Uses e args ((startLog e w).files.SameWay (startLog e w').files)
        ((startLog e w).files.SameRoom (startLog e w').files) := by
  refine ⟨fun t front back hb => ?_, fun args w w' hb hs hs' hopens hfails hu => ?_,
    fun args w w' hs hs' hu => ?_⟩
  · rw [after_append]
    exact logText_prefix (lengthens_after site e _ hb)
  · exact run_unimpeded site hb hs hs' hopens hfails hu
  · exact hu.mono (fun _ h => h.started hs hs') fun _ h => h.started hs hs'

/-- A directory stands where the log would. -/
def blockedWorld : World where
  files := ((FileTree.empty.put [Path.ofString "s"] (.directory 0o755)).put
    [Path.ofString "s", Path.ofString "llvm-prep"] (.directory 0o755)).put
    [Path.ofString "s", Path.ofString "llvm-prep", Path.ofString "llvm-prep.log"]
    (.directory 0o755)

lemma sound_blockedWorld : blockedWorld.files.Sound :=
  ((sound_empty.put (by simp)).put (by simp)).put (by simp)

/-- The root, and all that is missing on the ways of the default configuration. -/
def configPlaces : List Location :=
  [[], [Path.ofString "c"], [Path.ofString "c", Path.ofString "llvm-prep"],
    [Path.ofString "c", Path.ofString "llvm-prep", Path.ofString "config.toml"]]

/-- At these places the two worlds are the same, before the log is started and afterwards. -/
lemma node?_configPlaces : ∀ loc ∈ configPlaces,
    ((startLog ownDirectories bareWorld).files.node? loc = bareWorld.files.node? loc ∧
      (startLog ownDirectories blockedWorld).files.node? loc = blockedWorld.files.node? loc) ∧
    blockedWorld.files.node? loc = bareWorld.files.node? loc ∧
    (bareWorld.files.node? loc = none ∨ bareWorld.files.node? loc = some (.directory 0o755)) := by
  decide +kernel

lemma offLog_configPlaces (h : loc ∈ configPlaces) :
    OffLog ownDirectories bareWorld blockedWorld loc := by
  obtain ⟨⟨hbare, hblocked⟩, hsame, hnode⟩ := node?_configPlaces loc h
  have hfile : ∀ id, bareWorld.files.node? loc ≠ some (.file id) := by
    intro id hn
    rcases hnode with hnode | hnode <;> rw [hnode] at hn <;> cases hn
  exact ⟨not_ofLog hbare hfile, not_ofLog hblocked (hsame ▸ hfile)⟩

lemma roomOffLog_configWays
    (hp : p ∈ ownDirectories.configFile :: Config.configWays ownDirectories) :
    RoomOffLog ownDirectories bareWorld blockedWorld p := by
  have htrail : ∀ p ∈ ownDirectories.configFile :: Config.configWays ownDirectories,
      bareWorld.files.trail p ⊆ configPlaces := by decide +kernel
  have habove : ∀ loc ∈ configPlaces, loc.dropLast ∈ configPlaces := by decide +kernel
  refine ⟨⟨⟨rfl, rfl, fun loc hloc => ?_⟩, fun loc hloc _ => ?_⟩,
    fun loc hloc => offLog_configPlaces (htrail p hp hloc),
    fun loc hloc _ => offLog_configPlaces (habove loc (htrail p hp hloc))⟩
  · obtain ⟨-, hsame, hnode⟩ := node?_configPlaces loc (htrail p hp hloc)
    unfold LooksAlike
    rw [hsame]
    rcases hnode with hnode | hnode <;> rw [hnode]
    · exact .gap
    · exact .directory rfl rfl
  · exact (node?_configPlaces _ (habove loc (htrail p hp hloc))).2.1

/-- The same call, once with a log and once where none can be made. -/
theorem logging_unobtrusive_blockedWorld :
    (∀ call ∈ [(⟨[.ofString "url"], ""⟩ : Call)], NoBuild call.args) ∧
    logText ownDirectories
        (after idleTools ownDirectories bareWorld.files
          [⟨[.ofString "checksum", .ofString "/x"], ""⟩]) <+:
      logText ownDirectories (after idleTools ownDirectories bareWorld.files
        ([⟨[.ofString "checksum", .ofString "/x"], ""⟩] ++ [⟨[.ofString "url"], ""⟩])) ∧
    bareWorld.files.Sound ∧ blockedWorld.files.Sound ∧
    ((openLog ownDirectories).run bareWorld.files).1.isOk = true ∧
    ((openLog ownDirectories).run blockedWorld.files).1.isOk = false ∧
    Uses ownDirectories [.ofString "url"] (WayOffLog ownDirectories bareWorld blockedWorld)
      (RoomOffLog ownDirectories bareWorld blockedWorld) ∧
    ∃ es, Unimpeded ownDirectories bareWorld blockedWorld
      (run idleTools ownDirectories [.ofString "url"] bareWorld)
      (run idleTools ownDirectories [.ofString "url"] blockedWorld) es := by
  have hparse : parse [.ofString "url"] = .ok ⟨none, .url none⟩ := rfl
  have hb : NoBuild [.ofString "url"] := by
    intro config workDir commit jobs noSudo h
    cases hparse.symm.trans h
  have hcalls : ∀ call ∈ [(⟨[.ofString "url"], ""⟩ : Call)], NoBuild call.args := by
    intro call hcall
    obtain rfl := List.mem_singleton.mp hcall
    exact hb
  have huses : Uses ownDirectories [.ofString "url"]
      (WayOffLog ownDirectories bareWorld blockedWorld)
      (RoomOffLog ownDirectories bareWorld blockedWorld) := by
    refine ⟨fun config path h => ?_, fun f commit h => ?_, fun _ _ p hp => roomOffLog_configWays hp⟩
    · cases hparse.symm.trans h
    · cases hparse.symm.trans h
  obtain ⟨hhistory, hsame, hways⟩ := logging_unobtrusive idleTools ownDirectories
  exact ⟨hcalls, hhistory _ _ _ hcalls, sound_empty, sound_blockedWorld, rfl, rfl, huses,
    hsame _ _ _ hb sound_empty sound_blockedWorld rfl rfl
      (hways _ _ _ sound_empty sound_blockedWorld huses)⟩

/-! ### A way through the directory of the log -/

/-- No place on the way of the path is a link, or the log, or below the log. -/
def Elsewhere (e : Environment) (t : FileTree) (p : Path) : Prop :=
  ∀ loc ∈ t.trail p, t.link? loc = none ∧ ∀ at_ ∈ (t.trail e.logFile).getLast?, ¬ at_ <+: loc

/-- The trees are the same but for one directory on the way to the log, in which nothing can be made
in the second. -/
def WriteProtected (e : Environment) (t u : FileTree) : Prop :=
  ∃ loc ∈ t.trail e.logFile, ∃ m, t.node? loc = some (.directory m) ∧
    u = t.put loc (.directory (m &&& 0o555))

/-- A directory for the log, and a file beside it. -/
def fileBesideState : World where
  files := ((FileTree.empty.put [Path.ofString "s"] (.directory 0o755)).putFile [Path.ofString "x"]
    newFileMode).2

def protectedState : World where
  files := fileBesideState.files.put [Path.ofString "s"] (.directory (0o755 &&& 0o555))

/-- It is not enough that a file is elsewhere than the log: the way to it may lead through the
directory that is made for the log. -/
theorem logging_obtrusive : ¬ ∀ (site : Site) (e : Environment) (path : Path) (w w' : World),
    w.files.Sound → w'.files.Sound →
    (∀ t ∈ [w.files, w'.files], ∀ p ∈ [path, e.configFile], Elsewhere e t p) →
    WriteProtected e w.files w'.files →
    ((openLog e).run w.files).1.isOk = true → ((openLog e).run w'.files).1.isOk = false →
    (run site e [.ofString "checksum", path] w').1.exitStatus =
      (run site e [.ofString "checksum", path] w).1.exitStatus := by
  intro h
  have hsound : fileBesideState.files.Sound := (sound_empty.put (by simp)).putFile _
  have helsewhere : ∀ t ∈ [fileBesideState.files, protectedState.files],
      ∀ p ∈ [Path.ofString "/s/llvm-prep/../../x", ownDirectories.configFile],
        Elsewhere ownDirectories t p := by
    unfold Elsewhere
    decide +kernel
  have hprotected : WriteProtected ownDirectories fileBesideState.files protectedState.files :=
    ⟨[Path.ofString "s"], by decide +kernel, 0o755, rfl, rfl⟩
  have hsame := h idleTools ownDirectories (.ofString "/s/llvm-prep/../../x") fileBesideState
    protectedState hsound (hsound.put (by simp)) helsewhere hprotected rfl rfl
  have hdone : (run idleTools ownDirectories
      [.ofString "checksum", Path.ofString "/s/llvm-prep/../../x"] fileBesideState).1.exitStatus =
        0 := by decide +kernel
  have hfailed : (run idleTools ownDirectories
      [.ofString "checksum", Path.ofString "/s/llvm-prep/../../x"] protectedState).1.exitStatus =
        1 := rfl
  rw [hdone, hfailed] at hsame
  cases hsame

end CommandLine

end PinnedBuild
