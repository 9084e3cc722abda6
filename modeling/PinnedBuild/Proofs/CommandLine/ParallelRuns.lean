import Mathlib
import PinnedBuild.Proofs.CommandLine.Footprint
import PinnedBuild.Proofs.Files.Accord

/-!
A command that builds nothing, in two worlds in which all that it comes by is alike: it answers the
same, tells the same, and makes the same files. Only the log may be another.
-/

namespace PinnedBuild

open Files FileTree

variable {e : Environment} {t u s : FileTree} {w v u' a a' : World} {loc : Location}
  {es es' : List Event}

/-! ### What the log holds -/

/-- What is seen of a line that is logged. -/
def World.told (w : World) (line : LogLine) : List Event :=
  if w.filter.keeps line then [.logged line] else []

namespace CommandLine

/-- The text of the log; nothing if no file is where the log path leads. -/
def logText (e : Environment) (t : FileTree) : Bytes :=
  match t.lookup true e.logFile with
  | .ok (_, .file id) => ((t.file? id).map File.content).getD []
  | _ => []

/-- Lines of the log as they stand in its file. -/
def stampedLines (time : String) (es : List Event) : Bytes :=
  (es.filterMap Event.line?).flatMap fun line => Bytes.ofString (line.stamped time)

lemma stampedLines_append (time : String) (es es' : List Event) :
    stampedLines time (es ++ es') = stampedLines time es ++ stampedLines time es' := by
  simp [stampedLines]

lemma logText_eq {l : Location} {id : Nat} {g : File}
    (hl : t.lookup true e.logFile = .ok (l, .file id)) (hg : t.file? id = some g) :
    logText e t = g.content := by
  unfold logText
  rw [hl]
  simp only [hg, Option.map_some, Option.getD_some]

/-- Where files only get longer, the log does. -/
lemma logText_prefix (h : t.Lengthens u) : logText e t <+: logText e u := by
  rcases hl : t.lookup true e.logFile with x | ⟨l, m | target | id | d⟩
  case ok.file =>
    rcases hg : t.file? id with _ | g
    · simp [logText, hl, hg]
    · obtain ⟨more, hmore⟩ := h.files id g hg
      rw [logText_eq hl hg, logText_eq (h.lookup hl) hmore]
      exact List.prefix_append _ _
  all_goals simp [logText, hl]

/-- From one world to another all that is told is this, and what of it is for the log stands at the
end of the log if that is a file. -/
structure Logs (e : Environment) (w v : World) (es : List Event) : Prop where
  seen : v.events = w.events ++ es
  sink : v.sink = w.sink
  time : v.time = w.time
  text : ∀ id, w.sink = .file id → logText e v.files = logText e w.files ++ stampedLines w.time es

lemma Logs.trans (h : Logs e w v es) (h' : Logs e v u' es') : Logs e w u' (es ++ es') where
  seen := by rw [h'.seen, h.seen, List.append_assoc]
  sink := h'.sink.trans h.sink
  time := h'.time.trans h.time
  text id hs := by
    rw [h'.text id (h.sink.trans hs), h.text id hs, h.time, stampedLines_append, List.append_assoc]

/-- The log stays as it is while its file does. -/
lemma LogLeads.logs (h : LogLeads e w) (hlong : w.files.Lengthens t)
    (hsame : ∀ id, w.sink = .file id → t.file? id = w.files.file? id) :
    Logs e w { w with files := t } [] where
  seen := (List.append_nil _).symm
  sink := rfl
  time := rfl
  text id hs := by
    obtain ⟨l, g, hl, hg⟩ := h id hs
    rw [logText_eq hl hg, logText_eq (hlong.lookup hl) ((hsame id hs).trans hg)]
    exact (List.append_nil _).symm

lemma LogLeads.logs_say (h : LogLeads e w) (line : LogLine) :
    Logs e w (w.say line) (w.told line) where
  seen := by
    unfold World.say World.told
    split
    · rw [World.emit, World.events_record]
    · exact (List.append_nil _).symm
  sink := World.sink_say w line
  time := by
    unfold World.say World.record
    split
    · split <;> rfl
    · rfl
  text id hs := by
    obtain ⟨l, g, hl, hg⟩ := h id hs
    unfold World.say World.told
    split
    · have hfiles : (w.record line).files =
          w.files.append id (Bytes.ofString (line.stamped w.time)) := by
        unfold World.record
        rw [hs]
      have hl' : (w.record line).files.lookup true e.logFile = .ok (l, .file id) := by
        rw [hfiles]
        exact FileOp.lookup_modifyFile _ hl
      have hg' : (w.record line).files.file? id =
          some { g with content := g.content ++ Bytes.ofString (line.stamped w.time) } := by
        rw [hfiles]
        exact FileOp.file?_modifyFile hg _
      show logText e (w.record line).files = _
      rw [logText_eq hl hg, logText_eq hl' hg']
      simp [stampedLines, Event.line?]
    · simp [stampedLines]

lemma logs_printed (e : Environment) (w : World) (line : String) :
    Logs e w (w.emit (.printed line)) [.printed line] :=
  ⟨rfl, rfl, rfl, fun _ _ => by simp [World.emit, stampedLines, Event.line?]⟩

/-! ### One command in two worlds -/

/-- The command line asks for no build. -/
def NoBuild (args : List Bytes) : Prop :=
  ∀ config workDir commit jobs noSudo,
    parse args ≠ .ok ⟨config, .build workDir commit jobs noSudo⟩

lemma NoBuild.cases {args : List Bytes} (h : NoBuild args) :
    (∃ r, parse args = .error r) ∨
      (∃ config path, parse args = .ok ⟨config, .checksum path⟩) ∨
      ∃ config commit, parse args = .ok ⟨config, .url commit⟩ := by
  rcases hp : parse args with r | ⟨config, path | commit | ⟨workDir, commit, jobs, noSudo⟩⟩
  · exact .inl ⟨r, rfl⟩
  · exact .inr (.inl ⟨config, path, rfl⟩)
  · exact .inr (.inr ⟨config, commit, rfl⟩)
  · exact absurd hp (h config workDir commit jobs noSudo)

/-- What a command reads, and what it makes if it is missing, has these properties. -/
structure Uses (e : Environment) (args : List Bytes) (Read Make : Path → Prop) : Prop where
  checksum : ∀ config path, parse args = .ok ⟨config, .checksum path⟩ → Read path
  urlNamed : ∀ f commit, parse args = .ok ⟨some f, .url commit⟩ → Read f
  urlDefault : ∀ commit, parse args = .ok ⟨none, .url commit⟩ →
    ∀ p ∈ e.configFile :: Config.configWays e, Make p

lemma Uses.mono {args : List Bytes} {Read Read' Make Make' : Path → Prop}
    (h : Uses e args Read Make) (hread : ∀ p, Read p → Read' p) (hmake : ∀ p, Make p → Make' p) :
    Uses e args Read' Make' where
  checksum config path hp := hread _ (h.checksum config path hp)
  urlNamed f commit hp := hread _ (h.urlNamed f commit hp)
  urlDefault commit hp p hmem := hmake p (h.urlDefault commit hp p hmem)

/-- What comes of the two worlds `a` and `a'`: the same answer, the same told in both, and each
place as it was in both, the same in both, or a file of the log. -/
structure Abreast {α : Type} (e : Environment) (a a' : World) (out out' : α × World) : Prop where
  answer : out'.1 = out.1
  told : ∃ es, Logs e a out.2 es ∧ Logs e a' out'.2 es
  lengthens : a.files.Lengthens out.2.files ∧ a'.files.Lengthens out'.2.files
  places : ∀ loc, out.2.files.object? loc = a.files.object? loc ∧
      out'.2.files.object? loc = a'.files.object? loc ∨
    out'.2.files.object? loc = out.2.files.object? loc ∨
    LogStands e out.2.files loc ∨ LogStands e out'.2.files loc

namespace Abreast

variable {α β : Type} {r : α} {b b' : World}

/-- Nothing has happened. -/
lemma refl (h : LogLeads e a) (h' : LogLeads e a') (r : α) : Abreast e a a' (r, a) (r, a') where
  answer := rfl
  told := ⟨[], h.logs (.refl _) fun _ _ => rfl, h'.logs (.refl _) fun _ _ => rfl⟩
  lengthens := ⟨.refl _, .refl _⟩
  places _ := .inl ⟨rfl, rfl⟩

lemma map (h : Abreast e a a' (r, b) (r, b')) (x : β) : Abreast e a a' (x, b) (x, b') where
  answer := rfl
  told := h.told
  lengthens := h.lengthens
  places := h.places

lemma printed (h : Abreast e a a' (r, b) (r, b')) (line : String) :
    Abreast e a a' (r, b.emit (.printed line)) (r, b'.emit (.printed line)) where
  answer := rfl
  told := by
    obtain ⟨es, hes, hes'⟩ := h.told
    exact ⟨_, hes.trans (logs_printed e b line), hes'.trans (logs_printed e b' line)⟩
  lengthens := h.lengthens
  places := h.places

/-- Where the same is said in both worlds, only files of the log are seen to change. -/
lemma said (h : Abreast e a a' (r, b) (r, b')) (hb : LogLeads e b) (hb' : LogLeads e b')
    (hfilter : b'.filter = b.filter) (line : LogLine) :
    Abreast e a a' (r, b.say line) (r, b'.say line) where
  answer := rfl
  told := by
    obtain ⟨es, hes, hes'⟩ := h.told
    have htold : b'.told line = b.told line := by
      unfold World.told
      rw [hfilter]
    exact ⟨_, hes.trans (hb.logs_say line), htold ▸ hes'.trans (hb'.logs_say line)⟩
  lengthens :=
    ⟨h.lengthens.1.trans (b.lengthens_say line), h.lengthens.2.trans (b'.lengthens_say line)⟩
  places loc := by
    rcases hb.object?_say line loc with hsame | hstands
    · rcases hb'.object?_say line loc with hsame' | hstands'
      · rcases h.places loc with hboth | heq | hlog | hlog
        · exact .inl ⟨hsame.trans hboth.1, hsame'.trans hboth.2⟩
        · exact .inr (.inl ((hsame'.trans heq).trans hsame.symm))
        · exact .inr (.inr (.inl (hlog.lengthens (b.lengthens_say line))))
        · exact .inr (.inr (.inr (hlog.lengthens (b'.lengthens_say line))))
      · exact .inr (.inr (.inr hstands'))
    · exact .inr (.inr (.inl hstands))

end Abreast

/-! ### The default configuration in two worlds -/

/-- Reading the default configuration in two worlds comes to the same, or it is new in both. -/
inductive LoadedAlike (e : Environment) (a a' : World) :
    Except Config.LoadError Config × World → Except Config.LoadError Config × World → Prop
  | settled {r : Except Config.LoadError Config} {s v : FileTree}
      (grown : GrownAlike a.files a'.files s v) :
      LoadedAlike e a a' (r, { a with files := s }) (r, { a' with files := v })
  | written {s v : FileTree} {dir : Location} {x : Name}
      (grown : GrownAlike a.files a'.files s v)
      (missing : s.walk true e.configFile = .ok (.missing dir x))
      (missing' : v.walk true e.configFile = .ok (.missing dir x)) :
      LoadedAlike e a a'
        (.ok {}, World.say (Config.createdLine e)
          { a with files := Config.withDefaults s (dir ++ [x]) })
        (.ok {}, World.say (Config.createdLine e)
          { a' with files := Config.withDefaults v (dir ++ [x]) })

lemma loaded_alike (h : ∀ p ∈ e.configFile :: Config.configWays e, a.files.SameRoom a'.files p) :
    LoadedAlike e a a' ((Config.loadOrCreate e).run a) ((Config.loadOrCreate e).run a') := by
  have htwin := FileAct.twin_ensureDirectory_alike (p := Config.configWay e)
    fun q hq => h q (List.mem_cons_of_mem _ hq)
  rw [Config.run_loadOrCreate, Config.run_loadOrCreate]
  obtain ⟨⟨⟩, s, v, hs, hv, grown⟩ | ⟨x, s, v, hs, hv, grown⟩ := htwin.cases <;> rw [hs, hv]
  case inr => exact .settled grown
  have hroom := grown.sameRoom (h e.configFile (List.mem_cons_self ..))
  have hsame := hroom.isThere
  simp only
  rcases hthere : s.isThere e.configFile with _ | _ <;> rw [← hsame, hthere]
  · rw [if_neg (by simp), if_neg (by simp), Config.run_writeDefault (w := { a with files := s }) hs,
      Config.run_writeDefault (w := { a' with files := v }) hv]
    rcases FileOp.writeFile_alike hroom hthere (Bytes.ofString (Config.render {})) with
      ⟨x, hws, hwv⟩ | ⟨dir, x, hms, hmv, hws, hwv⟩
    · simp only [hws, hwv]
      exact .settled grown
    · simp only [hws, hwv]
      exact .written grown hms hmv
  · rw [if_pos rfl, if_pos rfl, Config.load_alike hroom.toSameWay]
    exact .settled grown

/-- The file that is made is seen as the same in both trees. -/
lemma object?_withDefaults_self (t : FileTree) (at_ : Location) :
    (Config.withDefaults t at_).object? at_ =
      some (.file ⟨Bytes.ofString (Config.render {}), newFileMode⟩) := by
  have hnode : (Config.withDefaults t at_).node? at_ = some (.file t.files.length) := by
    show (t.putFile at_ newFileMode).2.node? at_ = _
    rw [node?_putFile, if_pos rfl]
  have hfile : (Config.withDefaults t at_).file? t.files.length =
      some ⟨Bytes.ofString (Config.render {}), newFileMode⟩ := FileOp.file?_filled ..
  unfold FileTree.object?
  rw [hnode]
  simp only [hfile, Option.map_some]

/-- The log is left as it is when directories are made and then a file. -/
lemma LogLeads.withDefaults (h : LogLeads e a) (hlong : a.files.Lengthens s)
    (hfiles : s.files = a.files.files) (hn : s.node? loc = none) :
    Logs e a { a with files := Config.withDefaults s loc } [] := by
  refine h.logs (hlong.trans (Config.lengthens_withDefaults hn)) fun id hs => ?_
  obtain ⟨l, g, hl, hg⟩ := h id hs
  have hid : id < s.files.length := by
    rw [hfiles]
    exact (List.getElem?_eq_some_iff.mp hg).1
  have hnew : s.files.length ≠ id := hid.ne'
  rw [Config.withDefaults, append, file?_modifyFile_of_ne hnew, file?_putFile_of_lt hid, file?,
    hfiles]
  rfl

section

variable (h : LogLeads e a) (h' : LogLeads e a')

include h h'

lemma LoadedAlike.abreast {out out' : Except Config.LoadError Config × World}
    (hloaded : LoadedAlike e a a' out out') (hs : a.files.Sound) (hs' : a'.files.Sound)
    (hfilter : a'.filter = a.filter) : Abreast e a a' out out' := by
  cases hloaded with
  | @settled r s v grown =>
    have hfile : ∀ id, s.file? id = a.files.file? id := fun id => by
      rw [file?, grown.files.1]
      rfl
    have hfile' : ∀ id, v.file? id = a'.files.file? id := fun id => by
      rw [file?, grown.files.2]
      rfl
    refine ⟨rfl, ⟨[], h.logs grown.lengthens fun id _ => hfile id,
      h'.logs grown.symm.lengthens fun id _ => hfile' id⟩,
      ⟨grown.lengthens, grown.symm.lengthens⟩, fun loc => ?_⟩
    rcases grown.object? loc with hboth | heq
    · exact .inl hboth
    · exact .inr (.inl heq)
  | @written s v dir x grown missing missing' =>
    have hn : s.node? (dir ++ [x]) = none := walk_fits missing
    have hn' : v.node? (dir ++ [x]) = none := walk_fits missing'
    have hlong := grown.lengthens.trans (Config.lengthens_withDefaults hn)
    have hlong' := grown.symm.lengthens.trans (Config.lengthens_withDefaults hn')
    have hleads : LogLeads e { a with files := Config.withDefaults s (dir ++ [x]) } :=
      h.lengthens hlong rfl
    have hleads' : LogLeads e { a' with files := Config.withDefaults v (dir ++ [x]) } :=
      h'.lengthens hlong' rfl
    refine Abreast.said ?_ hleads hleads' hfilter _
    refine ⟨rfl, ⟨[], h.withDefaults grown.lengthens grown.files.1 hn,
      h'.withDefaults grown.symm.lengthens grown.files.2 hn'⟩, ⟨hlong, hlong'⟩, fun loc => ?_⟩
    by_cases hloc : loc = dir ++ [x]
    · subst hloc
      exact .inr (.inl ((object?_withDefaults_self v _).trans (object?_withDefaults_self s _).symm))
    have hold := object?_withDefaults (grown.sound hs) hloc
    have hold' := object?_withDefaults (grown.symm.sound hs') hloc
    rcases grown.object? loc with hboth | heq
    · exact .inl ⟨hold.trans hboth.1, hold'.trans hboth.2⟩
    · exact .inr (.inl ((hold'.trans heq).trans hold.symm))

variable {args : List Bytes}

/-- A configuration is loaded alike, from a file that is named or from the default one. -/
lemma loadConfig_abreast (config : Option Path)
    (hnamed : ∀ f, config = some f → a.files.SameWay a'.files f)
    (hdefault : config = none →
      ∀ p ∈ e.configFile :: Config.configWays e, a.files.SameRoom a'.files p)
    (hs : a.files.Sound) (hs' : a'.files.Sound) (hfilter : a'.filter = a.filter) :
    Abreast e a a' ((loadConfig e config).run a) ((loadConfig e config).run a') := by
  rcases config with _ | f
  · have habreast := (loaded_alike (hdefault rfl)).abreast h h' hs hs' hfilter
    rw [run_loadConfig_default, run_loadConfig_default]
    generalize (Config.loadOrCreate e).run a = out at habreast ⊢
    generalize (Config.loadOrCreate e).run a' = out' at habreast ⊢
    obtain ⟨r, b⟩ := out
    obtain ⟨r', b'⟩ := out'
    obtain rfl : r' = r := habreast.answer
    exact habreast.map _
  · rw [run_loadConfig_file, run_loadConfig_file, Config.load_alike (hnamed f rfl)]
    exact .refl h h' _

/-- **A command runs abreast** in two worlds in which nothing that it comes by is different. -/
lemma dispatch_abreast (site : Site) (hb : NoBuild args)
    (hu : Uses e args (a.files.SameWay a'.files) (a.files.SameRoom a'.files))
    (hs : a.files.Sound) (hs' : a'.files.Sound) (hfilter : a'.filter = a.filter) :
    Abreast e a a' (dispatch site e args a) (dispatch site e args a') := by
  rcases hb.cases with ⟨r, hp⟩ | ⟨config, path, hp⟩ | ⟨config, commit, hp⟩
  · unfold dispatch
    rw [hp]
    cases r with
    | help topic => exact (Abreast.refl h h' _).printed _
    | _ => exact .refl h h' _
  · rw [dispatch_command hp, dispatch_command hp, run_checksum, run_checksum,
      Digest.hashFile_alike (hu.checksum config path hp)]
    rcases Digest.hashFile a'.files path with err | digest
    · exact .refl h h' _
    · exact (Abreast.refl h h' _).printed _
  · have habreast := loadConfig_abreast h h' config
      (fun f hf => hu.urlNamed f commit (hf ▸ hp)) (fun hf => hu.urlDefault commit (hf ▸ hp))
      hs hs' hfilter
    rw [dispatch_command hp, dispatch_command hp, run_url, run_url]
    generalize (loadConfig e config).run a = out at habreast ⊢
    generalize (loadConfig e config).run a' = out' at habreast ⊢
    obtain ⟨r, b⟩ := out
    obtain ⟨r', b'⟩ := out'
    obtain rfl : r' = r := habreast.answer
    rcases r' with err | c
    · exact habreast.map _
    · exact (habreast.map _).printed _

end

end CommandLine

end PinnedBuild
