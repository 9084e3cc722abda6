import Mathlib
import PinnedBuild.Proofs.CommandLine.Ending
import PinnedBuild.Proofs.CommandLine.Traces
import PinnedBuild.Proofs.Files.Trail

/-!
Which files each command touches, besides the log: a checksum and a configuration that is named only
read the one file, and only asking for the default configuration makes anything, which is that file
and its directory.
-/

namespace PinnedBuild

open Files FileTree

variable {e : Environment} {t u s : FileTree} {w v : World} {loc : Location}

namespace CommandLine

/-- Nothing has changed but the log. -/
def OnlyLog (e : Environment) (w v : World) : Prop :=
  v.files = (startLog e w).files ∧ ∀ loc, BesidesLog e w.files v.files loc

/-- Two runs end alike and print alike. -/
structure SameAnswer (w w' : World) (out out' : Ending × World) : Prop where
  ending : out'.1 = out.1
  printed : ∃ es es', out.2.events = w.events ++ es ∧ out'.2.events = w'.events ++ es' ∧
    printedLines es' = printedLines es

/-- The default configuration file, new, with the defaults. -/
def NewDefaults (e : Environment) (t u : FileTree) (loc : Location) : Prop :=
  t.node? loc = none ∧ ∃ id, u.lookup true e.configFile = .ok (loc, .file id) ∧
    u.file? id = some ⟨Bytes.ofString (Config.render {}), newFileMode⟩

/-- What a run touches that starts in `w`. -/
structure Footprint (site : Site) (e : Environment) (args : List Bytes) (w : World) : Prop where
  refused : ∀ r, parse args = .error r → OnlyLog e w (run site e args w).2
  /-- A checksum changes nothing, and what it answers depends on the way to its file alone. -/
  checksum : ∀ config path, parse args = .ok ⟨config, .checksum path⟩ →
    OnlyLog e w (run site e args w).2 ∧
    ∀ site' e' args' config' w', parse args' = .ok ⟨config', .checksum path⟩ →
      (startLog e w).files.SameWay (startLog e' w').files path →
      SameAnswer w w' (run site e args w) (run site' e' args' w')
  /-- So does an address with a configuration that is named. -/
  urlNamed : ∀ f commit, parse args = .ok ⟨some f, .url commit⟩ →
    OnlyLog e w (run site e args w).2 ∧
    ∀ site' e' args' w', parse args' = .ok ⟨some f, .url commit⟩ →
      (startLog e w).files.SameWay (startLog e' w').files f →
      SameAnswer w w' (run site e args w) (run site' e' args' w')
  /-- A build with a configuration that is named begins where the log has been started, with what
  depends on the way to that file, and on the directory that the program was started in if no other
  is given. -/
  buildNamed : ∀ f workDir commit jobs noSudo,
    parse args = .ok ⟨some f, .build workDir commit jobs noSudo⟩ →
    OnlyLog e w (startLog e w) ∧
    ∃ r, (prepare e (some f) workDir commit jobs noSudo).run (startLog e w) = (r, startLog e w) ∧
      (∀ err, r = .error err → run site e args w = (.failed err, startLog e w)) ∧
      (∀ c dir, r = .ok (c, dir) → run site e args w =
        (endingOf ((build site c dir).run (startLog e w)).1,
          ((build site c dir).run (startLog e w)).2)) ∧
      ∀ e' w', (startLog e w).files.SameWay (startLog e' w').files f →
        (workDir = none →
          (startLog e w).files.LooksAlike (startLog e' w').files (startLog e w).files.cwd) →
        ((prepare e' (some f) workDir commit jobs noSudo).run (startLog e' w')).1 = r
  /-- An address with the default configuration changes nothing unless that file is missing, and
  then makes it, and directories on the way to it. -/
  urlDefault : ∀ commit, parse args = .ok ⟨none, .url commit⟩ →
    OnlyLog e w (run site e args w).2 ∨
      w.files.isThere e.configFile = false ∧
        ∀ loc, BesidesLog e w.files (run site e args w).2.files loc ∨
          MadeFor (Config.configWay e) w.files (run site e args w).2.files loc ∨
          NewDefaults e w.files (run site e args w).2.files loc

/-! ### Answers -/

section

variable {w' v' : World} {ending : Ending}

/-- Neither run has printed anything. -/
lemma sameAnswer_quiet (h : w.Quiet v) (h' : w'.Quiet v') (ending : Ending) :
    SameAnswer w w' (ending, v) (ending, v') := by
  obtain ⟨es, hes, hnone, -⟩ := h.unseen
  obtain ⟨es', hes', hnone', -⟩ := h'.unseen
  exact ⟨rfl, es, es', hes, hes', hnone'.trans hnone.symm⟩

/-- Both have printed just this line. -/
lemma sameAnswer_printed (h : w.Quiet v) (h' : w'.Quiet v') (ending : Ending) (line : String) :
    SameAnswer w w' (ending, v.emit (.printed line)) (ending, v'.emit (.printed line)) := by
  obtain ⟨es, hes, hnone, -⟩ := h.unseen
  obtain ⟨es', hes', hnone', -⟩ := h'.unseen
  refine ⟨rfl, es ++ [.printed line], es' ++ [.printed line], ?_, ?_, ?_⟩
  · rw [World.emit, hes, List.append_assoc]
  · rw [World.emit, hes', List.append_assoc]
  · unfold printedLines
    rw [List.filterMap_append, List.filterMap_append, hnone, hnone']

lemma checksum_answer {site site' : Site} {e e' : Environment} {args args' : List Bytes}
    {config config' : Option Path} {path : Path} (h : parse args = .ok ⟨config, .checksum path⟩)
    (h' : parse args' = .ok ⟨config', .checksum path⟩)
    (hway : (startLog e w).files.SameWay (startLog e' w').files path) :
    SameAnswer w w' (run site e args w) (run site' e' args' w') := by
  have hquiet := quiet_startLog e w
  have hquiet' := quiet_startLog e' w'
  unfold run
  rw [dispatch_command h, dispatch_command h', run_checksum, run_checksum,
    Digest.hashFile_alike hway]
  rcases Digest.hashFile (startLog e' w').files path with err | digest
  · exact sameAnswer_quiet hquiet hquiet' _
  · exact sameAnswer_printed hquiet hquiet' _ _

lemma urlNamed_answer {site site' : Site} {e e' : Environment} {args args' : List Bytes}
    {f : Path} {commit : Option String} (h : parse args = .ok ⟨some f, .url commit⟩)
    (h' : parse args' = .ok ⟨some f, .url commit⟩)
    (hway : (startLog e w).files.SameWay (startLog e' w').files f) :
    SameAnswer w w' (run site e args w) (run site' e' args' w') := by
  have hquiet := quiet_startLog e w
  have hquiet' := quiet_startLog e' w'
  unfold run
  rw [dispatch_command h, dispatch_command h', run_url, run_url, run_loadConfig_file,
    run_loadConfig_file, Config.load_alike hway]
  rcases Config.load (startLog e' w').files f with err | c
  · exact sameAnswer_quiet hquiet hquiet' _
  · exact sameAnswer_printed hquiet hquiet' _ _

end

/-! ### Files -/

lemma onlyLog_of_files (h : w.files.Sound) (hv : v.files = (startLog e w).files) :
    OnlyLog e w v := ⟨hv, fun loc => by rw [hv]; exact besides_startLog e h loc⟩

lemma BesidesLog.same (h : BesidesLog e t u loc) (hlong : u.Lengthens s)
    (hsame : s.object? loc = u.object? loc) : BesidesLog e t s loc := by
  rcases h with h | h | h
  · exact .inl (hsame.trans h)
  · exact .inr (.inl (h.lengthens hlong))
  · exact .inr (.inr (h.lengthens hlong))

lemma object?_withDefaults {at_ : Location} (hs : s.Sound) (h : loc ≠ at_) :
    (Config.withDefaults s at_).object? loc = s.object? loc := by
  refine (object?_modifyFile_of_ne (fun hn => ?_) _).trans (object?_putFile_of_ne hs _ h)
  rw [node?_putFile, if_neg h] at hn
  exact absurd (hs loc _ hn) (lt_irrefl _)

lemma files_refused (site : Site) (e : Environment) {args : List Bytes} {r : Refusal} (w : World)
    (h : parse args = .error r) : (dispatch site e args w).2.files = w.files := by
  unfold dispatch
  rw [h]
  cases r <;> rfl

lemma files_checksum (site : Site) (e : Environment) (config : Option Path) (path : Path)
    (w : World) : ((carryOut site e ⟨config, .checksum path⟩).run w).2.files = w.files := by
  rw [run_checksum]
  rcases Digest.hashFile w.files path with err | digest <;> rfl

/-- Printing an address leaves the files to the configuration. -/
lemma files_url (site : Site) (e : Environment) (config : Option Path) (commit : Option String)
    (w : World) :
    ((carryOut site e ⟨config, .url commit⟩).run w).2.files =
      ((loadConfig e config).run w).2.files := by
  rw [run_url]
  rcases (loadConfig e config).run w with ⟨err | c, v⟩ <;> rfl

/-- The place of something is as it was, or new on the way to the default configuration. -/
lemma grown_besides (h : Grown (Config.configWays e) u s) (hb : BesidesLog e t u loc)
    (htu : t.Lengthens u) :
    BesidesLog e t s loc ∨ MadeFor (Config.configWay e) t s loc := by
  rcases h.object? loc with hsame | hmade
  · exact .inl (hb.same h.lengthens hsame)
  · exact .inr (hmade.of_lengthens htu)

/-- What is different once the default configuration has been loaded, after the log was started. -/
lemma besides_loadOrCreate (e : Environment) (h : w.files.Sound) (loc : Location) :
    BesidesLog e w.files ((Config.loadOrCreate e).run (startLog e w)).2.files loc ∨
      MadeFor (Config.configWay e) w.files
        ((Config.loadOrCreate e).run (startLog e w)).2.files loc ∨
      NewDefaults e w.files ((Config.loadOrCreate e).run (startLog e w)).2.files loc := by
  have hbesides := besides_startLog e h loc
  have hlong := lengthens_startLog e w
  have hsound := sound_startLog e h
  have hleads := logLeads_startLog e w
  have hloaded := Config.loaded e (startLog e w)
  generalize (Config.loadOrCreate e).run (startLog e w) = out at hloaded
  have hgrown : ∀ {s}, Grown (Config.configWays e) (startLog e w).files s →
      BesidesLog e w.files s loc ∨ MadeFor (Config.configWay e) w.files s loc ∨
        NewDefaults e w.files s loc :=
    fun hg => (grown_besides hg hbesides hlong).imp id .inl
  cases hloaded with
  | unplaced grown => exact hgrown grown
  | read grown _ => exact hgrown grown
  | unwritten grown _ => exact hgrown grown
  | @written s dir x grown missing =>
    have hmade : s.Lengthens (Config.withDefaults s (dir ++ [x])) :=
      Config.lengthens_withDefaults (walk_fits missing)
    have hlogs : LogLeads e { startLog e w with files := Config.withDefaults s (dir ++ [x]) } :=
      hleads.lengthens (grown.lengthens.trans hmade) rfl
    by_cases hloc : loc = dir ++ [x]
    · subst hloc
      obtain ⟨hl, hf⟩ := FileOp.found_filled (Bytes.ofString (Config.render {})) missing
      have hstands := Config.stands_said
        (w := { startLog e w with files := Config.withDefaults s (dir ++ [x]) })
        (Config.createdLine e) hl hf fun j hj => by
          rw [grown.files]
          exact (logOpen_startLog e w j hj).ne
      exact .inr (.inr ⟨hlong.keeps.missing (grown.keeps.missing (walk_fits missing)), _, hstands⟩)
    · have hsame := object?_withDefaults (grown.sound hsound) hloc
      rcases grown_besides grown hbesides hlong with hb | hm
      · exact .inl ((hb.same hmade hsame).say hlogs _)
      · exact .inr (.inl ((hm.lengthens hmade).lengthens (World.lengthens_say
          { startLog e w with files := Config.withDefaults s (dir ++ [x]) } _)))

/-- If the default configuration is there, it is left as it is. -/
lemma onlyLog_or_missing (site : Site) {args : List Bytes} {commit : Option String}
    (h : w.files.Sound) (hp : parse args = .ok ⟨none, .url commit⟩) :
    OnlyLog e w (run site e args w).2 ∨ w.files.isThere e.configFile = false ∧
      ∀ loc, BesidesLog e w.files (run site e args w).2.files loc ∨
        MadeFor (Config.configWay e) w.files (run site e args w).2.files loc ∨
        NewDefaults e w.files (run site e args w).2.files loc := by
  have hfiles : (run site e args w).2.files =
      ((Config.loadOrCreate e).run (startLog e w)).2.files := by
    unfold run
    rw [dispatch_command hp]
    exact files_url site e none commit (startLog e w)
  rw [hfiles]
  rcases hthere : w.files.isThere e.configFile with _ | _
  · exact .inr ⟨rfl, besides_loadOrCreate e h⟩
  · refine .inl (onlyLog_of_files h ?_)
    have hstarted : (startLog e w).files.isThere e.configFile = true := by
      obtain ⟨l, n, hl⟩ := FileOp.lookup_of_isThere hthere
      exact FileOp.isThere_of_lookup ((lengthens_startLog e w).lookup hl)
    rw [hfiles, Config.run_loadOrCreate_present hstarted]

/-! ### A build with a configuration that is named -/

section

variable {workDir : Option Path} {commit : Option String} {jobs : Option UInt32} {noSudo : Bool}

/-- What a build is given when its configuration is named. -/
def given (w : World) (f : Path) (workDir : Option Path) (commit : Option String)
    (jobs : Option UInt32) (noSudo : Bool) : Except CommandError (Config × Path) :=
  ((Config.load w.files f).mapError .config).bind fun c =>
    ((chosenDirectory workDir).run w).1.map fun dir =>
      ((⟨commit, jobs, noSudo⟩ : BuildOverrides).apply c, dir)

lemma run_prepare_named (e : Environment) (f : Path) (w : World) :
    (prepare e (some f) workDir commit jobs noSudo).run w =
      (given w f workDir commit jobs noSudo, w) := by
  rw [run_prepare, run_loadConfig_file]
  unfold given
  rcases Config.load w.files f with err | c <;> rfl

lemma chosenDirectory_alike {w w' : World} (hcwd : w'.files.cwd = w.files.cwd)
    (h : workDir = none → w.files.LooksAlike w'.files w.files.cwd) :
    ((chosenDirectory workDir).run w').1 = ((chosenDirectory workDir).run w).1 := by
  rcases workDir with _ | d
  · have hlike := h rfl
    unfold LooksAlike at hlike
    unfold chosenDirectory startDirectory
    simp only
    rw [run_bind, run_bind, Act.run_get, Act.run_get]
    simp only [hcwd]
    generalize w.files.node? w.files.cwd = a at hlike ⊢
    generalize w'.files.node? w.files.cwd = b at hlike ⊢
    cases hlike <;> rfl
  · rfl

lemma given_alike {w w' : World} {f : Path} (hway : w.files.SameWay w'.files f)
    (h : workDir = none → w.files.LooksAlike w'.files w.files.cwd) :
    given w' f workDir commit jobs noSudo = given w f workDir commit jobs noSudo := by
  unfold given
  rw [Config.load_alike hway, chosenDirectory_alike hway.cwd h]

end

/-- **Footprints** of the commands, and of what is no command. -/
theorem run_footprint (site : Site) (e : Environment) (args : List Bytes) (w : World)
    (h : w.files.Sound) : Footprint site e args w where
  refused r hr := onlyLog_of_files h (files_refused site e _ hr)
  checksum config path hp := by
    refine ⟨onlyLog_of_files h ?_, fun _ _ _ _ _ hp' hway => checksum_answer hp hp' hway⟩
    unfold run
    rw [dispatch_command hp]
    exact files_checksum site e config path _
  urlNamed f commit hp := by
    refine ⟨onlyLog_of_files h ?_, fun _ _ _ _ hp' hway => urlNamed_answer hp hp' hway⟩
    unfold run
    rw [dispatch_command hp]
    exact files_url site e (some f) commit _
  buildNamed f workDir commit jobs noSudo hp := by
    refine ⟨onlyLog_of_files h rfl, _, run_prepare_named .., fun err herr => ?_,
      fun c dir hr => ?_, fun e' w' hway hdir => ?_⟩
    · unfold run
      rw [dispatch_command hp, run_build_prepared, run_prepare_named, herr]
      rfl
    · unfold run
      rw [dispatch_command hp, run_build_prepared, run_prepare_named, hr]
    · rw [run_prepare_named]
      exact given_alike hway hdir
  urlDefault commit hp := onlyLog_or_missing site h hp

/-- Where nothing is yet, asking for the address makes the configuration. -/
theorem run_footprint_bareWorld :
    bareWorld.files.Sound ∧ parse [.ofString "url"] = .ok ⟨none, .url none⟩ ∧
    bareWorld.files.isThere ownDirectories.configFile = false ∧
    (run idleTools ownDirectories [.ofString "url"] bareWorld).2.files.isThere
      ownDirectories.configFile = true ∧
    Footprint idleTools ownDirectories [.ofString "url"] bareWorld :=
  ⟨sound_empty, rfl, rfl, rfl,
    run_footprint idleTools ownDirectories [.ofString "url"] bareWorld sound_empty⟩

end CommandLine

end PinnedBuild
