import Mathlib
import PinnedBuild.CommandLine.Run
import PinnedBuild.Proofs.Config.RoundTrip
import PinnedBuild.Proofs.World

/-!
The default configuration file: it is read where it is there, and made where it is not. Either way
it is there afterwards, so that asking for it again reads the same and changes nothing.
-/

namespace PinnedBuild

open Files FileTree

/-- A log that is a file is a file that is there. -/
def World.LogOpen (w : World) : Prop := ∀ id, w.sink = .file id → id < w.files.files.length

/-! ### The log -/

lemma World.LogOpen.say {w : World} (h : w.LogOpen) (line : LogLine) : (w.say line).LogOpen := by
  unfold World.say
  split
  · intro id hs
    have hid := h id ((World.sink_record w line).symm.trans hs)
    show id < (w.record line).files.files.length
    unfold World.record
    split
    · simpa [FileTree.append, FileTree.modifyFile] using hid
    · exact hid
  · exact h

lemma CommandLine.after_openLog (e : Environment) (t : FileTree) :
    After (openLog e) t (fun f t' => ∃ u, (FileOp.openWrite e.logFile).run u = .ok (f, t'))
      fun _ _ => True := by
  have hopen : ∀ u, After (FileOp.openWrite e.logFile).toAct u
      (fun f t' => ∃ u, (FileOp.openWrite e.logFile).run u = .ok (f, t')) fun _ _ => True :=
    fun u => FileOp.after_toAct (fun _ _ h => ⟨u, h⟩) fun _ _ => trivial
  unfold openLog
  rcases e.logFile.parent? with _ | dir
  · exact hopen t
  · exact after_bind (after_of_forall (fun _ u => hopen u) fun _ _ => trivial)

/-- The log of a program that has just started is open. -/
lemma CommandLine.logOpen_startLog (e : Environment) (w : World) : (startLog e w).LogOpen := by
  have ho := after_openLog e w.files
  unfold After at ho
  unfold startLog
  rcases hr : (openLog e).run w.files with ⟨x | f, t⟩ <;> rw [hr] at ho
  · intro id hs
    cases hs
  · obtain ⟨u, hw⟩ := ho
    refine World.LogOpen.say (fun id hs => ?_) _
    rcases FileOp.openWrite_ok hw with ⟨l, j, g, -, rfl, hg, -⟩ | ⟨l, d, -, rfl, -⟩
    · obtain rfl := Sink.file.inj hs
      exact (List.getElem?_eq_some_iff.mp hg).1
    · cases hs

namespace Config

variable {e : Environment} {t t' : FileTree} {w v : World} {c : Config}

/-! ### The directory of the file -/

/-- The last name on the path of the directory. -/
def directoryName : Name := Path.ofString "llvm-prep"

def fileName : Name := Path.ofString "config.toml"

lemma plain_directoryName : Plain directoryName := ⟨by decide, by decide, by decide, by decide⟩

lemma plain_fileName : Plain fileName := ⟨by decide, by decide, by decide, by decide⟩

/-- Directories are looked for in one that a variable names, or else in the home directory. -/
lemma absolute?_getD_ne_nil (value : Option Path) {p : Path} (hp : p ≠ []) :
    (Environment.absolute? value).getD p ≠ [] := by
  rcases h : Environment.absolute? value with _ | q
  · exact hp
  · rintro rfl
    have := (Option.filter_eq_some_iff.mp h).2
    simp [Path.isAbsolute] at this

lemma configDir_eq (e : Environment) : ∃ base : Path, base ≠ [] ∧
    e.configDir = base.join directoryName :=
  ⟨_, absolute?_getD_ne_nil _ (Path.join_ne_nil (by decide)), rfl⟩

lemma configDir_ne_nil (e : Environment) : e.configDir ≠ [] := by
  obtain ⟨base, -, hd⟩ := configDir_eq e
  rw [hd]
  simpa using Path.isEmpty_join (p := base) plain_directoryName

lemma getLast?_configDir (e : Environment) : e.configDir.getLast? ≠ some Path.slash := by
  obtain ⟨base, hb, hd⟩ := configDir_eq e
  rw [hd]
  exact Path.getLast?_join hb plain_directoryName

/-- The directory as it is asked for, with a slash at its end. -/
lemma configDir_join_nil (e : Environment) : e.configDir.join [] = e.configDir ++ [Path.slash] := by
  have hd := configDir_ne_nil e
  have hl := getLast?_configDir e
  simp [Path.join, Path.isAbsolute, hd, hl]

lemma withoutSlashes_configDir (e : Environment) :
    FileOp.withoutSlashes (e.configDir ++ [Path.slash]) = e.configDir := by
  obtain ⟨q, b, hq⟩ := List.eq_nil_or_concat e.configDir |>.resolve_left (configDir_ne_nil e)
  have hb : b ≠ Path.slash := fun h => getLast?_configDir e (by simp [hq, h])
  simp [FileOp.withoutSlashes, hq, hb]

lemma configFile_eq (e : Environment) :
    e.configFile = e.configDir ++ Path.slash :: fileName := by
  show e.configDir.join fileName = _
  rw [Path.join_eq (configDir_ne_nil e) plain_fileName, if_neg (getLast?_configDir e)]

/-- With a slash in place of its last name the path of the file can still be followed. -/
lemma usable_configDir (h : Usable e.configFile) : Usable (e.configDir ++ [Path.slash]) := by
  obtain ⟨-, hzero, hshort⟩ := h
  rw [configFile_eq] at hzero hshort
  refine ⟨by simp, fun hz => hzero ?_, lt_of_le_of_lt ?_ hshort⟩
  · simp only [List.mem_append, List.mem_cons] at hz ⊢
    tauto
  · simp

/-- Where the file is there, its directory is not made. -/
lemma run_placed (h : t.isThere e.configFile = true) :
    (FileAct.ensureDirectory (e.configDir.join [])).run t = (.ok (), t) := by
  obtain ⟨l, n, hl⟩ := FileOp.lookup_of_isThere h
  have hwalk := lookup_ok.mp hl
  obtain ⟨l', n', hdir, hs⟩ :=
    lookup_of_walk_join (q := e.configDir) (configDir_ne_nil e) plain_fileName hwalk
  rw [configDir_join_nil]
  refine FileOp.run_ensureDirectory_present (n := n') (usable_configDir (walk_ok hwalk).1) hs ?_
  rwa [withoutSlashes_configDir]

/-! ### Reading or making the file -/

/-- Makes the file with the defaults. -/
def writeDefault (path : Path) : Act LoadError Config := do
  match path.parent? with
  | some dir => Act.onFiles .cannotWrite (FileAct.ensureDirectory dir)
  | none => pure ()
  Act.onFiles .cannotWrite (FileAct.writeFile path (Bytes.ofString (render {})))
  Act.say .info .config ("created default config at " ++ path.display)
  return {}

lemma run_loadOrCreate (e : Environment) (w : World) :
    (loadOrCreate e).run w = match (FileAct.ensureDirectory (e.configDir.join [])).run w.files with
      | (.error x, t) => (.error (.cannotWrite x), { w with files := t })
      | (.ok _, t) =>
        if t.isThere e.configFile then (load t e.configFile, { w with files := t })
        else (writeDefault e.configFile).run { w with files := t } := by
  unfold loadOrCreate placeFile
  rw [run_bind, run_bind, Act.run_onFiles]
  rcases (FileAct.ensureDirectory (e.configDir.join [])).run w.files with ⟨x | ⟨⟩, t⟩
  · rfl
  · simp only [Act.run_pure]
    rw [run_bind, Act.run_get]
    simp only
    split
    · rfl
    · rfl

/-- **What is there is read** and left as it is. -/
lemma run_loadOrCreate_present (h : w.files.isThere e.configFile = true) :
    (loadOrCreate e).run w = (load w.files e.configFile, w) := by
  rw [run_loadOrCreate, run_placed h]
  simp only [h, if_true]

/-- The directory that the file stands in. -/
lemma parent?_configFile (e : Environment) : e.configFile.parent? = some e.configDir := by
  obtain ⟨base, hb, hd⟩ := configDir_eq e
  show (e.configDir.join fileName).parent? = _
  rw [hd]
  exact Path.parent?_join hb plain_directoryName plain_fileName

/-- The directory has been made before, so that only the file is made. -/
lemma run_writeDefault (hplaced : (FileAct.ensureDirectory (e.configDir.join [])).run t =
      (.ok (), w.files)) :
    (writeDefault e.configFile).run w =
      match (FileAct.writeFile e.configFile (Bytes.ofString (render {}))).run w.files with
      | (.error x, u) => (.error (.cannotWrite x), { w with files := u })
      | (.ok _, u) => (.ok {}, ({ w with files := u }).say
        ⟨.info, .config, "created default config at " ++ e.configFile.display⟩) := by
  have hagain : (FileAct.ensureDirectory e.configDir).run w.files = (.ok (), w.files) := by
    have hd := FileOp.isDirectory_ensured (p := e.configDir.join []) (t := t)
      (by simp [configDir_join_nil])
    unfold After at hd
    rw [hplaced] at hd
    simp only [configDir_join_nil, isDirectory] at hd
    rcases hl : w.files.lookup true (e.configDir ++ [Path.slash]) with x | ⟨l, n⟩
    · simp [hl] at hd
    obtain ⟨hl', hs⟩ := lookup_of_slash (configDir_ne_nil e) hl
    have hu : Usable e.configDir := (walk_ok (lookup_ok.mp hl')).1
    refine FileOp.run_ensureDirectory_present (n := n) hu hs ?_
    rwa [FileOp.withoutSlashes_of_getLast? (configDir_ne_nil e) (getLast?_configDir e)]
  unfold writeDefault
  rw [parent?_configFile]
  simp only
  rw [run_bind, Act.run_onFiles, hagain]
  simp only
  rw [run_bind, Act.run_onFiles]
  rcases (FileAct.writeFile e.configFile (Bytes.ofString (render {}))).run w.files with ⟨x | ⟨⟩, u⟩
  · rfl
  · rfl

/-- Making the directory touches no file. -/
lemma files_placed {x : Unit} (h : (FileAct.ensureDirectory (e.configDir.join [])).run t =
    (.ok x, t')) : t'.files = t.files := by
  have hk := FileOp.ensureDirectory_keeps (P := fun u => u.files = t.files)
    (p := e.configDir.join []) (fun _ _ _ hu => hu) rfl
  unfold After at hk
  rwa [h] at hk

/-- A file that is not the log stays as it is when a line is logged. -/
lemma stands_said {p : Path} {l : Location} {id : Nat} {f : File} (line : LogLine)
    (hl : w.files.lookup true p = .ok (l, .file id)) (hf : w.files.file? id = some f)
    (hs : ∀ j, w.sink = .file j → j ≠ id) :
    (w.say line).files.lookup true p = .ok (l, .file id) ∧
      (w.say line).files.file? id = some f := by
  rw [World.say_eq]
  refine World.files_logged (P := fun u => u.lookup true p = .ok (l, .file id) ∧
    u.file? id = some f) _ ⟨hl, hf⟩ fun j b u hj hu => ?_
  exact ⟨FileOp.lookup_modifyFile _ hu.1, (file?_modifyFile_of_ne (hs j hj) _).trans hu.2⟩

/-- Where the file is not there, the one that is made holds the defaults, and stays as it is when
the log tells of it. -/
lemma load_writeDefault (hlog : w.LogOpen) (hn : w.files.isThere e.configFile = false)
    (hplaced : (FileAct.ensureDirectory (e.configDir.join [])).run t = (.ok (), w.files))
    (h : (writeDefault e.configFile).run w = (.ok c, v)) :
    c = {} ∧ v.files.isThere e.configFile = true ∧ load v.files e.configFile = .ok {} := by
  rw [run_writeDefault hplaced] at h
  rcases hw : (FileAct.writeFile e.configFile (Bytes.ofString (render {}))).run w.files with
    ⟨x | ⟨⟩, u⟩ <;> rw [hw] at h
  · exact absurd (Prod.mk.inj h).1 (by simp)
  obtain ⟨hc, rfl⟩ := Prod.mk.inj h
  obtain ⟨l, hl, hf⟩ := FileOp.writeFile_new hw hn
  obtain ⟨hl', hf'⟩ := stands_said (w := { w with files := u })
    ⟨.info, .config, "created default config at " ++ e.configFile.display⟩ hl hf
    fun id hs => (hlog id hs).ne
  refine ⟨(Except.ok.inj hc).symm, ?_, ?_⟩
  · simp [isThere, hl', Except.isOk, Except.toBool]
  · refine load_of_file hl' hf' (FileOp.mayRead_newFileMode _) ?_
    simp only

lemma run_placeFile (e : Environment) (w : World) :
    (placeFile e).run w = match (FileAct.ensureDirectory (e.configDir.join [])).run w.files with
      | (.ok _, t) => (.ok e.configFile, { w with files := t })
      | (.error x, t) => (.error (.cannotWrite x), { w with files := t }) := by
  unfold placeFile
  rw [run_bind, Act.run_onFiles]
  rcases (FileAct.ensureDirectory (e.configDir.join [])).run w.files with ⟨x | ⟨⟩, t⟩ <;> rfl

lemma placeFile_ok (h : (placeFile e).run w = (.ok e.configFile, { w with files := t })) :
    (FileAct.ensureDirectory (e.configDir.join [])).run w.files = (.ok (), t) := by
  rw [run_placeFile] at h
  rcases hd : (FileAct.ensureDirectory (e.configDir.join [])).run w.files with ⟨x | ⟨⟩, u⟩ <;>
    rw [hd] at h
  · exact absurd (Prod.mk.inj h).1 (by simp)
  · have hu : u = t := congrArg World.files (Prod.mk.inj h).2
    rw [hu]

/-- **The default file is stable.** What is there is read, with whatever comes of it, and left as
it is; the directory is made first, which leaves every file alone and may open the way to one.
Where nothing is there even then, the defaults are given and the file that is made holds them. So
what has been given is given again, and nothing changes any more. -/
theorem loadOrCreate_stable (e : Environment) (w : World) (hlog : w.LogOpen) :
    (w.files.isThere e.configFile = true →
      (loadOrCreate e).run w = (load w.files e.configFile, w)) ∧
    (∀ t, (placeFile e).run w = (.ok e.configFile, { w with files := t }) →
      t.files = w.files.files ∧
      (t.isThere e.configFile = true →
        (loadOrCreate e).run w = (load t e.configFile, { w with files := t }))) ∧
    ∀ c v, (loadOrCreate e).run w = (.ok c, v) →
      (loadOrCreate e).run v = (.ok c, v) ∧
      ∃ t, (placeFile e).run w = (.ok e.configFile, { w with files := t }) ∧
        (t.isThere e.configFile = false → c = {} ∧ load v.files e.configFile = .ok {}) := by
  refine ⟨run_loadOrCreate_present, fun t ht => ?_, fun c v h => ?_⟩
  · have hplaced := placeFile_ok ht
    refine ⟨files_placed hplaced, fun hthere => ?_⟩
    rw [run_loadOrCreate, hplaced]
    simp only [hthere, if_true]
  · rw [run_loadOrCreate] at h
    have hp := run_placeFile e w
    rcases hd : (FileAct.ensureDirectory (e.configDir.join [])).run w.files with ⟨x | ⟨⟩, t⟩ <;>
      rw [hd] at h hp
    · exact absurd (Prod.mk.inj h).1 (by simp)
    simp only at h hp
    rcases hthere : t.isThere e.configFile with _ | _
    · -- the file is made, in a world whose log is still open
      rw [hthere, if_neg (by simp)] at h
      have hopen : World.LogOpen { w with files := t } := by
        intro id hs
        show id < t.files.length
        rw [files_placed hd]
        exact hlog id hs
      obtain ⟨hc, hv, hload⟩ := load_writeDefault (w := { w with files := t }) hopen hthere hd h
      refine ⟨?_, t, hp, fun _ => ⟨hc, hload⟩⟩
      rw [run_loadOrCreate_present hv, hload, hc]
    · rw [hthere, if_pos rfl] at h
      obtain ⟨hc, rfl⟩ := Prod.mk.inj h
      refine ⟨?_, t, hp, fun hn => absurd hthere (by simp [hn])⟩
      rw [run_loadOrCreate_present (w := { w with files := t }) hthere, hc]

/-- A log that is open, and a configuration file that is a link which leads nowhere. -/
def dangling : World where
  files :=
    { nodes := [([], .directory 0o755), ([[108]], .file 0), ([[99]], .directory 0o755),
        ([[99], directoryName], .directory 0o755),
        ([[99], directoryName, fileName], .link [47, 99, 47, 120])]
      files := [⟨[], newFileMode⟩]
      cwd := [] }
  sink := .file 0

def besideLog : Environment := { configHome := some (.ofString "/c") }

/-- The file is made where the link leads, and from then on it is found. -/
theorem loadOrCreate_stable_dangling : dangling.LogOpen ∧
    ∃ v, (loadOrCreate besideLog).run dangling = (.ok {}, v) ∧
      (loadOrCreate besideLog).run v = (.ok {}, v) ∧
      v.files.isThere besideLog.configFile = true ∧
      (loadOrCreate besideLog).run v = (load v.files besideLog.configFile, v) := by
  have hopen : dangling.LogOpen := by
    intro id hs
    obtain rfl := Sink.file.inj hs
    decide
  have hrun : ((loadOrCreate besideLog).run dangling).1 = .ok {} := rfl
  obtain ⟨hagain, -⟩ := (loadOrCreate_stable besideLog dangling hopen).2.2 {} _ (Prod.ext hrun rfl)
  have hopen' : World.LogOpen ((loadOrCreate besideLog).run dangling).2 := by
    intro id hs
    obtain rfl := Sink.file.inj hs
    decide
  have hthere : ((loadOrCreate besideLog).run dangling).2.files.isThere besideLog.configFile =
      true := by decide
  exact ⟨hopen, _, Prod.ext hrun rfl, hagain, hthere,
    (loadOrCreate_stable besideLog _ hopen').1 hthere⟩

/-- The way to a file leads into a directory that is missing, and back out of it. -/
def detour : World where
  files :=
    { nodes := [([], .directory 0o755), ([[111]], .directory 0o755),
        ([[111], directoryName], .directory 0o755),
        ([[111], directoryName, fileName], .file 0)]
      files := [⟨Bytes.ofString (render { buildJobs := 1 }), newFileMode⟩]
      cwd := [] }

def viaMissing : Environment := { configHome := some (.ofString "/n/../o") }

/-- Where nothing was there before, still not always the defaults are given: once the directory is
made, a file may be there. -/
theorem loadOrCreate_detour : ¬ ∀ (e : Environment) (w v : World) (c : Config), w.LogOpen →
    w.files.isThere e.configFile = false → (loadOrCreate e).run w = (.ok c, v) → c = {} := by
  intro h
  have hopen : detour.LogOpen := by
    intro id hs
    cases hs
  have hplaced : (FileAct.ensureDirectory (viaMissing.configDir.join [])).run detour.files =
      (.ok (), detour.files.put [[110]] (.directory 0o755)) := rfl
  have hl : (detour.files.put [[110]] (.directory 0o755)).lookup true viaMissing.configFile =
      .ok ([[111], directoryName, fileName], .file 0) := rfl
  have hload : load (detour.files.put [[110]] (.directory 0o755)) viaMissing.configFile =
      .ok { buildJobs := 1 } := by
    refine load_of_file (f := ⟨Bytes.ofString (render { buildJobs := 1 }), newFileMode⟩) hl rfl
      (by decide) ?_
    simp only
  have hthere :
      (detour.files.put [[110]] (.directory 0o755)).isThere viaMissing.configFile = true := by
    decide
  have hrun := run_loadOrCreate viaMissing detour
  rw [hplaced] at hrun
  simp only [hthere, if_true, hload] at hrun
  have hc := h viaMissing detour _ _ hopen (by decide) hrun
  exact absurd (congrArg Config.buildJobs hc) (by decide)

end Config

end PinnedBuild
