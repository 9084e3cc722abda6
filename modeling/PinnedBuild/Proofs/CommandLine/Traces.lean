import Mathlib
import PinnedBuild.Proofs.CommandLine.Commands
import PinnedBuild.Proofs.Files.Growth

/-!
What the program leaves in the files before it does anything else: the log with its directory, and
the default configuration with its own.
-/

namespace PinnedBuild

open Files FileTree

variable {e : Environment} {t u : FileTree} {w v : World} {loc : Location}

/-! ### Lines of the log -/

namespace World

/-- What is logged makes one file longer at most. -/
lemma lengthens_say (w : World) (line : LogLine) : w.files.Lengthens (w.say line).files := by
  rw [say_eq]
  exact files_logged (P := w.files.Lengthens) _ (.refl _)
    fun id b t _ ht => ht.trans (lengthens_append t id b)

lemma sound_say (h : w.files.Sound) (line : LogLine) : (w.say line).files.Sound := by
  rw [say_eq]
  exact files_logged (P := FileTree.Sound) _ h fun _ _ _ _ ht => ht.modifyFile _ _

/-- Only where the file of the log stands is it seen that something was logged. -/
lemma object?_say (w : World) (line : LogLine) :
    (w.say line).files.object? loc = w.files.object? loc ∨
      ∃ id, w.sink = .file id ∧ w.files.node? loc = some (.file id) := by
  by_cases h : ∃ id, w.sink = .file id ∧ w.files.node? loc = some (.file id)
  · exact .inr h
  · refine .inl ?_
    rw [say_eq]
    refine (files_logged (P := fun t => t.object? loc = w.files.object? loc ∧
      t.node? loc = w.files.node? loc) _ ⟨rfl, rfl⟩ fun id b t hs ht => ⟨?_, ht.2⟩).1
    refine (object?_modifyFile_of_ne (fun hn => h ⟨id, hs, ?_⟩) _).trans ht.1
    rw [← ht.2, hn]

end World

namespace CommandLine

/-! ### The log file -/

lemma stateDir_eq (e : Environment) : ∃ base : Path, base ≠ [] ∧
    e.stateDir = base.join Config.directoryName :=
  ⟨_, Config.absolute?_getD_ne_nil _ (Path.join_ne_nil (by decide)), rfl⟩

/-- The directory that the log stands in. -/
lemma parent?_logFile (e : Environment) : e.logFile.parent? = some e.stateDir := by
  obtain ⟨base, hb, hd⟩ := stateDir_eq e
  show (e.stateDir.join (Path.ofString "llvm-prep.log")).parent? = _
  rw [hd]
  exact Path.parent?_join hb Config.plain_directoryName ⟨by decide, by decide, by decide, by decide⟩

/-- The ways to the directory of the log. -/
abbrev logWays (e : Environment) : List Path := FileAct.ancestors e.stateDir.length e.stateDir

/-- What comes of opening the log. Directories on the way to it are made before anything else. -/
inductive Opened (e : Environment) (t : FileTree) : Except FileError Handle × FileTree → Prop
  | refused {s : FileTree} {x : FileError} (grown : Grown (logWays e) t s) :
      Opened e t (.error x, s)
  | file {s : FileTree} {l : Location} {id : Nat} {g : File} (grown : Grown (logWays e) t s)
      (leads : s.lookup true e.logFile = .ok (l, .file id)) (there : s.file? id = some g) :
      Opened e t (.ok (.file id), s)
  | device {s : FileTree} {l : Location} {d : Device} (grown : Grown (logWays e) t s)
      (leads : s.lookup true e.logFile = .ok (l, .device d)) : Opened e t (.ok (.device d), s)
  | made {s : FileTree} {dir : Location} {x : Name} (grown : Grown (logWays e) t s)
      (missing : s.walk true e.logFile = .ok (.missing dir x)) :
      Opened e t (.ok (.file s.files.length), (s.putFile (dir ++ [x]) newFileMode).2)

lemma opened (e : Environment) (t : FileTree) : Opened e t ((openLog e).run t) := by
  have hgrown := FileOp.ensureDirectory_grown e.stateDir t
  unfold openLog
  rw [parent?_logFile]
  simp only
  rw [run_bind]
  rcases hd : (FileAct.ensureDirectory e.stateDir).run t with ⟨x | ⟨⟩, s⟩ <;> rw [hd] at hgrown
  · exact .refused hgrown
  simp only
  rw [FileOp.run_toAct]
  rcases hw : (FileOp.openWrite e.logFile).run s with x | ⟨f, u⟩
  · exact .refused hgrown
  rcases FileOp.openWrite_cases hw with ⟨rfl, l, id, g, hl, rfl, hg⟩ | ⟨rfl, l, d, hl, rfl⟩ |
    ⟨dir, x, hmissing, rfl, rfl⟩
  · exact .file hgrown hl hg
  · exact .device hgrown hl
  · exact .made hgrown hmissing

/-- The file that the log path leads to stands here. -/
def LogStands (e : Environment) (t : FileTree) (loc : Location) : Prop :=
  ∃ l id, t.lookup true e.logFile = .ok (l, .file id) ∧ t.node? loc = some (.file id)

/-- The log of a world, if it is a file, is the one that the log path leads to. -/
def LogLeads (e : Environment) (w : World) : Prop :=
  ∀ id, w.sink = .file id → ∃ l g, w.files.lookup true e.logFile = .ok (l, .file id) ∧
    w.files.file? id = some g

/-- What is at the place is as it was before, or belongs to the log. -/
def BesidesLog (e : Environment) (t u : FileTree) (loc : Location) : Prop :=
  u.object? loc = t.object? loc ∨ MadeFor e.stateDir t u loc ∨ LogStands e u loc

variable {r : Except FileError Handle}

lemma Opened.lengthens (h : Opened e t (r, u)) : t.Lengthens u := by
  cases h with
  | refused grown => exact grown.lengthens
  | file grown _ _ => exact grown.lengthens
  | device grown _ => exact grown.lengthens
  | made grown missing => exact grown.lengthens.trans (lengthens_putFile (walk_fits missing) _)

lemma Opened.sound (h : Opened e t (r, u)) (ht : t.Sound) : u.Sound := by
  cases h with
  | refused grown => exact grown.sound ht
  | file grown _ _ => exact grown.sound ht
  | device grown _ => exact grown.sound ht
  | made grown _ => exact (grown.sound ht).putFile _

lemma Opened.leads {id : Nat} (h : Opened e t (.ok (.file id), u)) :
    ∃ l g, u.lookup true e.logFile = .ok (l, .file id) ∧ u.file? id = some g := by
  cases h with
  | file _ leads there => exact ⟨_, _, leads, there⟩
  | made _ missing => exact ⟨_, _, FileOp.found_missing_file missing, FileOp.file?_putFile ..⟩

lemma Opened.besides (h : Opened e t (r, u)) (ht : t.Sound) (loc : Location) :
    BesidesLog e t u loc := by
  cases h with
  | refused grown => exact (grown.object? loc).imp id .inl
  | file grown _ _ => exact (grown.object? loc).imp id .inl
  | device grown _ => exact (grown.object? loc).imp id .inl
  | @made s dir x grown missing =>
    by_cases hloc : loc = dir ++ [x]
    · subst hloc
      exact .inr (.inr ⟨_, _, FileOp.found_missing_file missing, by rw [node?_putFile, if_pos rfl]⟩)
    · refine (grown.object? loc).imp (object?_putFile_of_ne (grown.sound ht) _ hloc).trans
        fun hmade => ?_
      exact .inl (hmade.lengthens (lengthens_putFile (walk_fits missing) _))

/-- Where the log goes once it is opened. -/
def sinkOf : Except FileError Handle → Sink
  | .ok (.file id) => .file id
  | .ok _ => .none
  | .error _ => .standardError

/-- The world after an attempt to open the log, before anything is logged. -/
def logging (e : Environment) (w : World) : World :=
  { w with
    files := ((openLog e).run w.files).2
    filter := e.filter
    sink := sinkOf ((openLog e).run w.files).1 }

def openingLine (e : Environment) : LogLine :=
  ⟨.info, .logging, "llvm-prep logging initialized at " ++ e.logFile.display⟩

lemma startLog_eq (e : Environment) (w : World) :
    startLog e w = if ((openLog e).run w.files).1.isOk then (logging e w).say (openingLine e)
      else logging e w := by
  unfold startLog logging
  rcases (openLog e).run w.files with ⟨x | h, t⟩
  · rfl
  · rcases h <;> rfl

/-- What holds of a world that is started, whether or not it has logged its first line. -/
lemma startLog_of {P : World → Prop} (h : P (logging e w))
    (hsay : ∀ line, P (logging e w) → P ((logging e w).say line)) : P (startLog e w) := by
  rw [startLog_eq]
  split
  · exact hsay _ h
  · exact h

lemma opened_logging (e : Environment) (w : World) :
    Opened e w.files (((openLog e).run w.files).1, (logging e w).files) := opened e w.files

lemma lengthens_startLog (e : Environment) (w : World) :
    w.files.Lengthens (startLog e w).files :=
  startLog_of (P := fun v => w.files.Lengthens v.files) (opened_logging e w).lengthens
    fun _ h => h.trans (World.lengthens_say _ _)

lemma sound_startLog (e : Environment) (h : w.files.Sound) : (startLog e w).files.Sound :=
  startLog_of (P := fun v => v.files.Sound) ((opened_logging e w).sound h)
    fun _ h' => World.sound_say h' _

lemma LogLeads.lengthens (h : LogLeads e w) (hlong : w.files.Lengthens v.files)
    (hsink : v.sink = w.sink) : LogLeads e v := by
  intro id hs
  obtain ⟨l, g, hl, hg⟩ := h id (hsink.symm.trans hs)
  obtain ⟨more, hm⟩ := hlong.files id g hg
  exact ⟨l, _, hlong.lookup hl, hm⟩

lemma LogLeads.say (h : LogLeads e w) (line : LogLine) : LogLeads e (w.say line) :=
  h.lengthens (w.lengthens_say line) (World.sink_say w line)

lemma logLeads_logging (e : Environment) (w : World) : LogLeads e (logging e w) := by
  intro id hs
  have ho := opened_logging e w
  have hsink : sinkOf ((openLog e).run w.files).1 = .file id := hs
  rcases hr : ((openLog e).run w.files).1 with x | (l | j | d) <;> rw [hr] at ho hsink
  · cases hsink
  · cases hsink
  · obtain rfl : j = id := Sink.file.inj hsink
    exact ho.leads
  · cases hsink

lemma logLeads_startLog (e : Environment) (w : World) : LogLeads e (startLog e w) :=
  startLog_of (P := LogLeads e) (logLeads_logging e w) fun line h => h.say line

lemma LogStands.lengthens (h : LogStands e t loc) (hu : t.Lengthens u) : LogStands e u loc := by
  obtain ⟨l, id, hl, hn⟩ := h
  exact ⟨l, id, hu.lookup hl, hu.keeps.node _ _ hn⟩

/-- Only the file of the log is seen to change when something is logged. -/
lemma LogLeads.object?_say (h : LogLeads e w) (line : LogLine) (loc : Location) :
    (w.say line).files.object? loc = w.files.object? loc ∨ LogStands e (w.say line).files loc := by
  rcases World.object?_say w line with hsame | ⟨id, hs, hn⟩
  · exact .inl hsame
  · obtain ⟨l, g, hl, -⟩ := h id hs
    have hlong := w.lengthens_say line
    exact .inr ⟨l, id, hlong.lookup hl, hlong.keeps.node _ _ hn⟩

lemma BesidesLog.say (h : BesidesLog e t w.files loc) (hw : LogLeads e w) (line : LogLine) :
    BesidesLog e t (w.say line).files loc := by
  have hlong := w.lengthens_say line
  rcases hw.object?_say line loc with hsame | hstands
  · rcases h with h | h | h
    · exact .inl (hsame.trans h)
    · exact .inr (.inl (h.lengthens hlong))
    · exact .inr (.inr (h.lengthens hlong))
  · exact .inr (.inr hstands)

/-- All that starting the log changes is the log, and directories on the way to it. -/
lemma besides_startLog (e : Environment) (h : w.files.Sound) (loc : Location) :
    BesidesLog e w.files (startLog e w).files loc := by
  have hboth := startLog_of (P := fun v => LogLeads e v ∧ BesidesLog e w.files v.files loc)
    ⟨logLeads_logging e w, (opened_logging e w).besides h loc⟩
    fun line hv => ⟨hv.1.say line, hv.2.say hv.1 line⟩
  exact hboth.2

end CommandLine

/-! ### The default configuration -/

namespace Config

open CommandLine

/-- The directory of the default configuration, as it is asked for. -/
abbrev configWay (e : Environment) : Path := e.configDir.join []

abbrev configWays (e : Environment) : List Path :=
  FileAct.ancestors (configWay e).length (configWay e)

/-- A new file that holds the defaults. -/
def withDefaults (t : FileTree) (loc : Location) : FileTree :=
  (t.putFile loc newFileMode).2.append t.files.length (Bytes.ofString (render {}))

lemma lengthens_withDefaults (h : t.node? loc = none) : t.Lengthens (withDefaults t loc) :=
  (lengthens_putFile h newFileMode).trans (lengthens_append _ _ _)

def createdLine (e : Environment) : LogLine :=
  ⟨.info, .config, "created default config at " ++ e.configFile.display⟩

/-- What comes of reading the default configuration, or making it. -/
inductive Loaded (e : Environment) (w : World) : Except LoadError Config × World → Prop
  | unplaced {s : FileTree} {x : FileError} (grown : Grown (configWays e) w.files s) :
      Loaded e w (.error (.cannotWrite x), { w with files := s })
  | read {s : FileTree} (grown : Grown (configWays e) w.files s)
      (there : s.isThere e.configFile = true) :
      Loaded e w (load s e.configFile, { w with files := s })
  | unwritten {s : FileTree} {x : FileError} (grown : Grown (configWays e) w.files s)
      (gone : s.isThere e.configFile = false) :
      Loaded e w (.error (.cannotWrite x), { w with files := s })
  | written {s : FileTree} {dir : Location} {x : Name} (grown : Grown (configWays e) w.files s)
      (missing : s.walk true e.configFile = .ok (.missing dir x)) :
      Loaded e w (.ok {}, World.say (createdLine e) { w with files := withDefaults s (dir ++ [x]) })

lemma loaded (e : Environment) (w : World) : Loaded e w ((loadOrCreate e).run w) := by
  have hgrown := FileOp.ensureDirectory_grown (configWay e) w.files
  rw [run_loadOrCreate]
  rcases hd : (FileAct.ensureDirectory (configWay e)).run w.files with ⟨x | ⟨⟩, s⟩ <;>
    rw [hd] at hgrown
  · exact .unplaced hgrown
  simp only
  rcases hthere : s.isThere e.configFile with _ | _
  · rw [if_neg (by simp), run_writeDefault (w := { w with files := s }) hd]
    rcases FileOp.writeFile_cases (Bytes.ofString (render {})) hthere with
      ⟨x, hx⟩ | ⟨dir, x, hm, hx⟩
    · simp only [hx]
      exact .unwritten hgrown hthere
    · simp only [hx]
      exact .written hgrown hm
  · rw [if_pos rfl]
    exact .read hgrown hthere

variable {r : Except LoadError Config}

lemma Loaded.lengthens (h : Loaded e w (r, v)) : w.files.Lengthens v.files := by
  cases h with
  | unplaced grown => exact grown.lengthens
  | read grown _ => exact grown.lengthens
  | unwritten grown _ => exact grown.lengthens
  | @written s dir x grown missing =>
    exact (grown.lengthens.trans (lengthens_withDefaults (walk_fits missing))).trans
      (World.lengthens_say { w with files := withDefaults s (dir ++ [x]) } (createdLine e))

/-- Without a configuration no file is made. -/
lemma Loaded.file_of_error {x : LoadError} {id : Nat} (h : Loaded e w (.error x, v))
    (hn : v.files.node? loc = some (.file id)) : w.files.node? loc = some (.file id) := by
  generalize hr : (Except.error x : Except LoadError Config) = r at h
  cases h with
  | unplaced grown => exact grown.file hn
  | read grown _ => exact grown.file hn
  | unwritten grown _ => exact grown.file hn
  | written _ _ => cases hr

end Config

namespace CommandLine

/-- A command without a configuration has made no file. -/
lemma loadConfig_file {config : Option Path} {err : CommandError} {id : Nat}
    (h : (loadConfig e config).run w = (.error err, v))
    (hn : v.files.node? loc = some (.file id)) : w.files.node? loc = some (.file id) := by
  rcases config with _ | f
  · have hloaded := Config.loaded e w
    rw [run_loadConfig_default] at h
    obtain ⟨hr, rfl⟩ := Prod.mk.inj h
    rcases hx : ((Config.loadOrCreate e).run w).1 with x | c <;> rw [hx] at hr
    · rw [← Prod.eta ((Config.loadOrCreate e).run w), hx] at hloaded
      exact hloaded.file_of_error hn
    · cases hr
  · obtain ⟨-, rfl⟩ := Prod.mk.inj h
    exact hn

lemma lengthens_loadConfig (e : Environment) (config : Option Path) (w : World) :
    w.files.Lengthens ((loadConfig e config).run w).2.files := by
  rcases config with _ | f
  · exact (Config.loaded e w).lengthens
  · exact .refl _

/-- Directories of its own for the configuration and for the log. -/
def ownDirectories : Environment :=
  { configHome := some (.ofString "/c"), stateHome := some (.ofString "/s") }

def bareWorld : World := { files := FileTree.empty }

end CommandLine

end PinnedBuild
