import Mathlib
import PinnedBuild.Proofs.CommandLine.Report
import PinnedBuild.Proofs.Config.Store

/-!
What each command comes down to: a checksum is worked out from the files alone, and the other two
commands load a configuration first. Until then nothing is seen of any of them but the log.
-/

namespace PinnedBuild

open Files

variable {ε δ α : Type} {w v u : World}

/-! ### Nothing but the log -/

/-- Between the two worlds nothing is seen but lines of the log. -/
def World.Quiet (w v : World) : Prop :=
  ∃ lines : List LogLine, v.events = w.events ++ lines.map .logged

namespace World

lemma Quiet.refl (w : World) : w.Quiet w := ⟨[], by simp⟩

lemma Quiet.trans (h : w.Quiet v) (h' : v.Quiet u) : w.Quiet u := by
  obtain ⟨ls, hl⟩ := h
  obtain ⟨ls', hl'⟩ := h'
  exact ⟨ls ++ ls', by rw [hl', hl, List.append_assoc, List.map_append]⟩

lemma quiet_files (w : World) (t : FileTree) : w.Quiet { w with files := t } := ⟨[], by simp⟩

lemma quiet_say (w : World) (line : LogLine) : w.Quiet (w.say line) := by
  rw [say_eq]
  exact ⟨_, events_logged w _⟩

/-- Where only the log is seen nothing is printed, asked for or started. -/
lemma Quiet.unseen (h : w.Quiet v) : ∃ es, v.events = w.events ++ es ∧
    es.filterMap Event.printed? = [] ∧ es.filterMap Event.request? = [] ∧
      es.filterMap Event.launch? = [] := by
  obtain ⟨ls, hl⟩ := h
  exact ⟨_, hl, by simp [Event.printed?], by simp [Event.request?], by simp [Event.launch?]⟩

end World

lemma Act.quiet_onFiles {wrap : δ → ε} {a : ExceptT δ (StateM FileTree) α} (h : w.Quiet v) :
    After (onFiles wrap a) v (fun _ u => w.Quiet u) (fun _ u => w.Quiet u) :=
  after_onFiles (after_of_forall (fun _ t => h.trans (World.quiet_files v t))
    fun _ t => h.trans (World.quiet_files v t))

lemma Config.quiet_writeDefault (path : Path) (h : w.Quiet v) :
    After (writeDefault path) v (fun _ u => w.Quiet u) (fun _ u => w.Quiet u) := by
  have hwrite : ∀ u, w.Quiet u → After (do
      Act.onFiles .cannotWrite (FileAct.writeFile path (Bytes.ofString (render {})))
      Act.say .info .config ("created default config at " ++ path.display)
      return {} : Act LoadError Config) u (fun _ u => w.Quiet u) (fun _ u => w.Quiet u) := by
    intro u hu
    refine after_bind ((Act.quiet_onFiles hu).mono (fun _ s hs => ?_) fun _ _ hs => hs)
    exact after_bind (after_modify (after_pure (hs.trans (World.quiet_say s _))))
  unfold writeDefault
  rcases path.parent? with _ | dir
  · exact hwrite v h
  · exact after_bind ((Act.quiet_onFiles h).mono (fun _ s hs => hwrite s hs) fun _ _ hs => hs)

lemma Config.quiet_loadOrCreate (e : Environment) (w : World) :
    w.Quiet ((loadOrCreate e).run w).2 := by
  rw [run_loadOrCreate]
  rcases (FileAct.ensureDirectory (e.configDir.join [])).run w.files with ⟨x | ⟨⟩, t⟩
  · exact World.quiet_files w t
  · simp only
    split
    · exact World.quiet_files w t
    · exact (quiet_writeDefault _ (World.quiet_files w t)).state

namespace CommandLine

variable {site : Site} {e : Environment} {config workDir : Option Path}
  {commit : Option String} {jobs : Option UInt32} {noSudo : Bool} {c : Config} {dir : Path}
  {err : CommandError}

lemma quiet_startLog (e : Environment) (w : World) : w.Quiet (startLog e w) := by
  unfold startLog
  rcases (openLog e).run w.files with ⟨x | h, t⟩
  · exact ⟨[], by simp⟩
  · exact (World.Quiet.trans ⟨[], by simp⟩ (World.quiet_say _ _))

/-! ### The configuration of a command -/

lemma run_loadConfig_file (e : Environment) (f : Path) (w : World) :
    (loadConfig e (some f)).run w = ((Config.load w.files f).mapError .config, w) := rfl

lemma run_loadConfig_default (e : Environment) (w : World) :
    (loadConfig e none).run w =
      (((Config.loadOrCreate e).run w).1.mapError .config, ((Config.loadOrCreate e).run w).2) := rfl

lemma quiet_loadConfig (e : Environment) (config : Option Path) (w : World) :
    w.Quiet ((loadConfig e config).run w).2 := by
  rcases config with _ | f
  · exact Config.quiet_loadOrCreate e w
  · exact .refl w

/-- A configuration that cannot be loaded is all that is told. -/
lemma loadConfig_error (h : ((loadConfig e config).run w).1 = .error err) :
    ∃ x, err = .config x := by
  rcases config with _ | f
  · rw [run_loadConfig_default] at h
    rcases hr : ((Config.loadOrCreate e).run w).1 with x | c <;> rw [hr] at h
    · exact ⟨x, (Except.error.inj h).symm⟩
    · cases h
  · rw [run_loadConfig_file] at h
    rcases hr : Config.load w.files f with x | c <;> rw [hr] at h
    · exact ⟨x, (Except.error.inj h).symm⟩
    · cases h

/-- The directory that a build works in. -/
def chosenDirectory (workDir : Option Path) : Act CommandError Path :=
  match workDir with
  | some d => pure d
  | none => startDirectory

/-- What a build is given: the configuration, with what stands on the command line in place of its
own, and the directory. -/
def prepare (e : Environment) (config workDir : Option Path) (commit : Option String)
    (jobs : Option UInt32) (noSudo : Bool) : Act CommandError (Config × Path) := do
  let c ← loadConfig e config
  let dir ← chosenDirectory workDir
  return ((⟨commit, jobs, noSudo⟩ : BuildOverrides).apply c, dir)

/-- The directory is chosen without a trace. -/
lemma run_chosenDirectory (workDir : Option Path) (w : World) :
    ((chosenDirectory workDir).run w).2 = w := by
  rcases workDir with _ | d
  · unfold chosenDirectory startDirectory
    simp only
    rw [run_bind, Act.run_get]
    simp only
    split <;> rfl
  · rfl

lemma run_prepare (e : Environment) (config workDir : Option Path) (commit : Option String)
    (jobs : Option UInt32) (noSudo : Bool) (w : World) :
    (prepare e config workDir commit jobs noSudo).run w = match (loadConfig e config).run w with
      | (.error err, v) => (.error err, v)
      | (.ok c, v) => (((chosenDirectory workDir).run v).1.map fun dir =>
          ((⟨commit, jobs, noSudo⟩ : BuildOverrides).apply c, dir), v) := by
  unfold prepare
  rw [run_bind]
  rcases (loadConfig e config).run w with ⟨err | c, v⟩
  · rfl
  · simp only
    rw [run_bind]
    have hv := run_chosenDirectory workDir v
    rcases hd : (chosenDirectory workDir).run v with ⟨err | dir, u⟩ <;> rw [hd] at hv <;>
      obtain rfl := hv <;> rfl

lemma quiet_prepare (e : Environment) (config workDir : Option Path) (commit : Option String)
    (jobs : Option UInt32) (noSudo : Bool) (w : World) :
    w.Quiet ((prepare e config workDir commit jobs noSudo).run w).2 := by
  have hq := quiet_loadConfig e config w
  rw [run_prepare]
  rcases hr : (loadConfig e config).run w with ⟨err | c, v⟩ <;> rw [hr] at hq <;> exact hq

/-! ### The commands -/

lemma run_checksum (site : Site) (e : Environment) (config : Option Path) (path : Path)
    (w : World) :
    (carryOut site e ⟨config, .checksum path⟩).run w =
      match Digest.hashFile w.files path with
      | .ok digest => (.ok (), w.emit (.printed ("SHA-256: " ++ digest)))
      | .error err => (.error (.hash err), w) := by
  unfold carryOut
  simp only
  rw [run_bind, Act.run_get]
  simp only
  rw [run_bind, Act.run_ofExcept]
  rcases Digest.hashFile w.files path with err | digest <;> rfl

lemma run_url (site : Site) (e : Environment) (config : Option Path)
    (commit : Option String) (w : World) :
    (carryOut site e ⟨config, .url commit⟩).run w = match (loadConfig e config).run w with
      | (.ok c, v) =>
        (.ok (), v.emit (.printed (Snapshot.archiveUrl (commit.getD c.commit))))
      | (.error err, v) => (.error err, v) := by
  unfold carryOut
  simp only
  rw [run_bind]
  rcases (loadConfig e config).run w with ⟨err | c, v⟩ <;> rfl

/-- The two ways to choose the directory lead on alike. -/
lemma carryOut_build (site : Site) (e : Environment) (config workDir : Option Path)
    (commit : Option String) (jobs : Option UInt32) (noSudo : Bool) :
    carryOut site e ⟨config, .build workDir commit jobs noSudo⟩ =
      loadConfig e config >>= fun c => chosenDirectory workDir >>= fun dir =>
        build site ((⟨commit, jobs, noSudo⟩ : BuildOverrides).apply c) dir := by
  unfold carryOut
  cases workDir <;> rfl

lemma run_build_prepared (site : Site) (e : Environment) (config workDir : Option Path)
    (commit : Option String) (jobs : Option UInt32) (noSudo : Bool) (w : World) :
    (carryOut site e ⟨config, .build workDir commit jobs noSudo⟩).run w =
      match (prepare e config workDir commit jobs noSudo).run w with
      | (.ok (c, dir), v) => (build site c dir).run v
      | (.error err, v) => (.error err, v) := by
  rw [carryOut_build, run_bind, run_prepare]
  rcases (loadConfig e config).run w with ⟨err | c, v⟩
  · rfl
  · simp only
    rw [run_bind]
    have hv := run_chosenDirectory workDir v
    rcases hd : (chosenDirectory workDir).run v with ⟨err | dir, u⟩ <;> rw [hd] at hv <;>
      obtain rfl := hv <;> rfl

lemma run_build_failed {err : BuildError} (site : Site) (c : Config) (dir : Path)
    (h : ((BuildPlan.ofConfig c dir).run site).run (w.emit (.printed c.archiveUrl)) =
      (.error err, u)) :
    (build site c dir).run w = (.error (.build err), u) := by
  unfold build
  rw [run_bind, Act.run_emit]
  simp only
  rw [run_bind, Act.run_withError]
  have h' : ((BuildPlan.ofConfig c dir).run site).run
      (w.emit (.printed (BuildPlan.ofConfig c dir).archiveUrl)) = (.error err, u) := h
  rw [h']
  rfl

/-! ### The whole program -/

section

variable {args : List Bytes} {i : Invocation} {topic : Topic} {r : Refusal}

lemma dispatch_help (h : parse args = .error (.help topic)) :
    dispatch site e args w =
      (.refused (.help topic), w.emit (.printed (helpText topic))) := by
  rw [dispatch, h]

lemma dispatch_usage (h : parse args = .error r) (hr : ∀ topic, r ≠ .help topic) :
    dispatch site e args w = (.refused r, w) := by
  rw [dispatch, h]
  cases r with
  | help topic => exact absurd rfl (hr topic)
  | _ => rfl

/-- How the program ends after a command. -/
def endingOf : Except CommandError Unit → Ending
  | .ok () => .done
  | .error err => .failed err

lemma dispatch_command (h : parse args = .ok i) :
    dispatch site e args w =
      (endingOf ((carryOut site e i).run w).1, ((carryOut site e i).run w).2) := by
  rw [dispatch, h]
  simp only
  rcases (carryOut site e i).run w with ⟨err | ⟨⟩, v⟩ <;> rfl

end

end CommandLine

end PinnedBuild
