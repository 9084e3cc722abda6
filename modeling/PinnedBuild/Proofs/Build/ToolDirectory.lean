import Mathlib
import PinnedBuild.Proofs.Build.Tools
import PinnedBuild.Proofs.Files.WalkComposition
import PinnedBuild.Proofs.Text.Utf8
import PinnedBuild.Proofs.Tool.Spawn
import PinnedBuild.Tool.Recorder

/-!
Tools that are taken from a directory. The path under which a tool is found is shown as a text, and
the text is followed again from the directory that the tool is to run in. An absolute path that
spells a text leads to the same file both times; another need not.
-/

namespace PinnedBuild

open Files FileTree

variable {shop : Workshop} {t : FileTree} {path dir buildDir : Path} {place : Location}
  {content : Bytes} {s : ToolStep}

/-! ### A program with a path -/

/-- A program that is started by its path is looked for from the directory that it runs in. -/
def startAt (shop : Workshop) (t : FileTree) (buildDir path : Path) (args : List String) :
    Except SpawnError (ToolEnd × FileTree) :=
  if args.any (fun a => a.contains '\x00') || buildDir.contains 0 then .error .zeroByte
  else Except.mapError .file <| do
    let cwd ← Spawn.enter t buildDir
    let (place, content) ← Spawn.runnable { t with cwd := cwd } path
    shop.behaviour ⟨place, path, content, args, cwd⟩ t

/-- What comes of a file that was found: it is run in the build directory with its arguments, if
there is no zero byte and the directory can be entered. -/
inductive Begun (shop : Workshop) (t : FileTree) (buildDir path : Path) (place : Location)
    (content : Bytes) (args : List String) : Except SpawnError (ToolEnd × FileTree) → Prop
  | zeroByte (h : args.any (fun a => a.contains '\x00') = true ∨ buildDir.contains 0 = true) :
      Begun shop t buildDir path place content args (.error .zeroByte)
  | outside {e : FileError} (h : Spawn.enter t buildDir = .error e) :
      Begun shop t buildDir path place content args (.error (.file e))
  | process {cwd : Location} (h : Spawn.enter t buildDir = .ok cwd) :
      Begun shop t buildDir path place content args
        ((shop.behaviour ⟨place, path, content, args, cwd⟩ t).mapError .file)

namespace Spawn

lemma runnable_of_lookup {id : Nat} {g : File} (hl : t.lookup true path = .ok (place, .file id))
    (hg : t.file? id = some g) (hm : t.user.mayRun g.mode = true) :
    runnable t path = .ok (place, g.content) := by
  unfold runnable
  rw [hl]
  simp only [Except.ok_bind, hg, hm, if_true]

lemma find_of_slash (t : FileTree) (searchPath : List Path) (h : Path.slash ∈ path) :
    find t searchPath path =
      (runnable t path).map fun (place, content) => (path, place, content) := by
  have hne : path ≠ [] := List.ne_nil_of_mem h
  unfold find
  rw [if_neg (by simpa using hne), if_pos (by simpa using h)]

end Spawn

lemma ToolStep.start_eq_startAt (hprogram : Path.ofString s.program = path)
    (hslash : Path.slash ∈ path) (hzero : (0 : UInt8) ∉ path) :
    s.start shop buildDir t = startAt shop t buildDir path s.args := by
  unfold ToolStep.start Spawn.prepare startAt
  have hz : path.contains 0 = false := by simpa using hzero
  simp only [hprogram, hz, Bool.false_or]
  split
  · rfl
  · rcases Spawn.enter t buildDir with e | cwd
    · rfl
    · simp only [Except.ok_bind, Spawn.find_of_slash _ _ hslash]
      rcases Spawn.runnable { t with cwd := cwd } path with e | ⟨place, content⟩ <;> rfl

/-- A program that is not found again cannot be started. -/
lemma ToolStep.start_lost {e : FileError} (hprogram : (Path.ofString s.program).contains 0 = false)
    (hargs : s.args.any (fun a => a.contains '\x00') = false) (hcwd : buildDir.contains 0 = false)
    (henter : Spawn.enter t buildDir = .ok place)
    (hfind : Spawn.find { t with cwd := place } shop.searchPath (.ofString s.program) = .error e) :
    s.start shop buildDir t = .error (.file e) := by
  unfold ToolStep.start Spawn.prepare
  simp only [hprogram, hargs, hcwd, henter, hfind, Bool.or_false, Bool.false_eq_true, if_false,
    Except.ok_bind]
  rfl

/-- Where the path leads to a program from every directory, that program is begun. -/
lemma begun_startAt {args : List String}
    (h : ∀ cwd, Spawn.runnable { t with cwd := cwd } path = .ok (place, content)) :
    Begun shop t buildDir path place content args (startAt shop t buildDir path args) := by
  unfold startAt
  split
  · rename_i hz
    exact .zeroByte (by simpa using hz)
  · rcases he : Spawn.enter t buildDir with e | cwd
    · exact .outside he
    · simp only [Except.ok_bind, h]
      exact .process he

namespace Path

lemma slash_mem_join {p q : Path} (hp : p ≠ []) : slash ∈ p.join q := by
  unfold join
  split
  · rename_i h
    exact List.mem_of_mem_head? (by simpa [isAbsolute] using h)
  · split
    · rename_i h
      have hl : p.getLast? = some slash := by simpa [hp] using h
      exact List.mem_append_left _ (List.mem_of_getLast? hl)
    · simp

lemma isAbsolute_join_of_left {p q : Path} (hp : p.isAbsolute = true) :
    (p.join q).isAbsolute = true := by
  have hhead : p.head? = some slash := by simpa [isAbsolute] using hp
  obtain ⟨rest, rfl⟩ : ∃ rest, p = slash :: rest := List.head?_eq_some_iff.mp hhead
  unfold join
  split
  · assumption
  · split <;> rfl

end Path

namespace BuildPlan

variable {c : Config} {w v : World} {before after : List (Stage × ToolStep)} {stage : Stage}
  {turns : List ToolTurn}

/-- The tool after those that came to their ends has come to its own. -/
lemma Worked.snoc {toolDir : Option Path} {steps : List (Stage × ToolStep)} {ending : ToolEnd}
    {files : FileTree} (h : Worked shop toolDir buildDir w steps turns v)
    (hstart : startOf shop toolDir buildDir v s = .ok (ending, files)) :
    Worked shop toolDir buildDir w (steps ++ [(stage, s)])
      (turns ++ [⟨stage, atHand toolDir v s, ending⟩])
      (left buildDir ⟨stage, atHand toolDir v s, ending⟩ files v) := by
  induction h with
  | none w => exact .tool hstart (.none _)
  | tool start _ ih => exact .tool start (ih hstart)

/-- Announcing a step tells the log, if it is a file, and changes no other. -/
lemma alike_announced (buildDir : Path) (s : ToolStep) (v : World) :
    v.sink.Alike v.files (announced buildDir s v).files := by
  unfold announced
  rw [World.say_eq]
  exact World.alike_logged v _ (.refl _ _)

lemma atHand_absent (h : v.files.isThere (dir.join (.ofString s.program)) = false) :
    atHand (some dir) v s = s := by
  simp only [atHand, ToolStep.searchAt, h, Bool.false_eq_true, if_false]

lemma atHand_present (h : v.files.isThere (dir.join (.ofString s.program)) = true) :
    atHand (some dir) v s = ⟨(dir.join (.ofString s.program)).display, s.args⟩ := by
  simp only [atHand, ToolStep.searchAt, h, if_true]

/-- What is there under a path that spells a text is started by that path. -/
lemma startOf_present (h : v.files.isThere (dir.join (.ofString s.program)) = true)
    (htext : dir.IsText) (hdir : dir ≠ []) :
    startOf shop (some dir) buildDir v s =
      startAt shop (announced buildDir (atHand (some dir) v s) v).files buildDir
        (dir.join (.ofString s.program)) s.args := by
  obtain ⟨l, n, hl⟩ := FileOp.lookup_of_isThere h
  have hzero := (walk_ok (lookup_ok.mp hl)).1.noZero
  have hback : Path.ofString (dir.join (.ofString s.program)).display =
      dir.join (.ofString s.program) :=
    (Path.isText_join htext ⟨s.program, rfl⟩).ofString_display
  unfold startOf
  rw [atHand_present h]
  exact ToolStep.start_eq_startAt hback (Path.slash_mem_join hdir) hzero

/-- What holds of a step at its turn, where tools may be taken from a directory. -/
structure TakenFrom (shop : Workshop) (c : Config) (dir buildDir : Path) (w : World)
    (before : List (Stage × ToolStep)) (stage : Stage) (s : ToolStep) (turns : List ToolTurn)
    (v : World) : Prop where
  /-- Nothing of its name is in the directory: it is left to the search path. -/
  absent : v.files.isThere (dir.join (.ofString s.program)) = false → atHand (some dir) v s = s
  /-- Something is: its path is called instead, with the same arguments. -/
  present : v.files.isThere (dir.join (.ofString s.program)) = true →
    atHand (some dir) v s = ⟨(dir.join (.ofString s.program)).display, s.args⟩
  /-- The path of what is there is followed once more, from the build directory. -/
  followed : v.files.isThere (dir.join (.ofString s.program)) = true → dir.IsText → dir ≠ [] →
    startOf shop (some dir) buildDir v s =
      startAt shop (announced buildDir (atHand (some dir) v s) v).files buildDir
        (dir.join (.ofString s.program)) s.args
  /-- If the path is absolute and spells a text, then the file that was found is the one that is
  run. -/
  found place id f : dir.isAbsolute = true → dir.IsText →
    v.files.lookup true (dir.join (.ofString s.program)) = .ok (place, .file id) →
    v.files.file? id = some f → v.files.user.mayRun f.mode = true →
    ∃ g, (announced buildDir (atHand (some dir) v s) v).files.file? id = some g ∧
      g.mode = f.mode ∧ (v.sink ≠ .file id → g = f) ∧
      Begun shop (announced buildDir (atHand (some dir) v s) v).files buildDir
        (dir.join (.ofString s.program)) place g.content s.args
        (startOf shop (some dir) buildDir v s)
  /-- A tool that starts has its turn. -/
  runs ending files : startOf shop (some dir) buildDir v s = .ok (ending, files) →
    Worked shop (some dir) buildDir w (before ++ [(stage, s)])
      (turns ++ [⟨stage, atHand (some dir) v s, ending⟩])
      (left buildDir ⟨stage, atHand (some dir) v s, ending⟩ files v)
  /-- One that does not ends the run. -/
  stops e : startOf shop (some dir) buildDir v s = .error e →
    (runTools shop c (some dir) buildDir).run w =
      (.error ⟨(atHand (some dir) v s).display, e⟩, announced buildDir (atHand (some dir) v s) v)

/-- **The tool that is found is the tool that runs**, if it was found under an absolute path that
spells a text. -/
theorem takenFrom_toolDir (hsteps : toolSteps c = before ++ (stage, s) :: after)
    (hw : Worked shop (some dir) buildDir w before turns v) :
    TakenFrom shop c dir buildDir w before stage s turns v := by
  constructor
  case absent => exact atHand_absent
  case present => exact atHand_present
  case followed => exact startOf_present
  case found =>
    intro place id f habs htext hl hf hm
    have halike := alike_announced buildDir (atHand (some dir) v s) v
    have hdir : dir ≠ [] := by
      rintro rfl
      exact absurd habs (by decide)
    obtain ⟨g, hg, hmode⟩ : ∃ g, (announced buildDir (atHand (some dir) v s) v).files.file? id =
        some g ∧ g.mode = f.mode := by
      rcases halike.file?_cases id with ⟨hn, -⟩ | ⟨f', g, hf', hg, hmode⟩
      · rw [hf] at hn
        cases hn
      · obtain rfl : f = f' := Option.some.inj (hf.symm.trans hf')
        exact ⟨g, hg, hmode⟩
    refine ⟨g, hg, hmode, fun hs => ?_, ?_⟩
    · have ho := halike.others id hs
      rw [hg, hf] at ho
      exact Option.some.inj ho
    · rw [startOf_present (FileOp.isThere_of_lookup hl) htext hdir]
      refine begun_startAt fun cwd => ?_
      have hrun : (announced buildDir (atHand (some dir) v s) v).files.user.mayRun g.mode =
          true := by
        rwa [halike.user, hmode]
      refine Spawn.runnable_of_lookup ?_ hg hrun
      -- the path is followed from the root in both directories
      rw [lookup_cd (Path.isAbsolute_join_of_left habs), halike.lookup]
      exact hl
  case runs => exact fun ending files h => hw.snoc h
  case stops =>
    intro e he
    rw [runTools, hsteps, hw.run_stuck he]

/-- A tool in a directory, one in another whose name is no text, and a directory to build in. -/
def workbench : World where
  files :=
    { nodes := [([], .directory 0o755), ([[116]], .directory 0o755),
        ([[116], Path.ofString "cmake"], .file 0), ([[255]], .directory 0o755),
        ([[255], Path.ofString "cmake"], .file 0), ([[98]], .directory 0o755)]
      files := [⟨Bytes.ofString "#!/bin/sh\n", 0o755⟩]
      cwd := [] }

def bareShop : Workshop := ⟨[], Recorder.behaviour⟩

lemma files_announced_workbench (s : ToolStep) :
    (announced [47, 98] s workbench).files = workbench.files :=
  World.files_say_unlogged _ (by simp [workbench])

lemma args_configure_noZero :
    (ToolStep.configure {}).args.any (fun a => a.contains '\x00') = false := by
  simp [ToolStep.configure, ToolStep.sourceRelative, ToolStep.onOff]

/-- The tool is found in the directory, although nothing is looked up elsewhere. -/
theorem takenFrom_toolDir_workbench :
    startOf bareShop (some [47, 116]) [47, 98] workbench (.configure {}) =
      (Recorder.behaviour ⟨[[116], Path.ofString "cmake"], [47, 116, 47] ++ Path.ofString "cmake",
        Bytes.ofString "#!/bin/sh\n", (ToolStep.configure {}).args, [[98]]⟩
        workbench.files).mapError .file := by
  have hturn : TakenFrom bareShop {} [47, 116] [47, 98] workbench [] .configure (.configure {}) []
      workbench := takenFrom_toolDir rfl (.none _)
  obtain ⟨g, -, -, hg, hb⟩ := hturn.found [[116], Path.ofString "cmake"] 0
    ⟨Bytes.ofString "#!/bin/sh\n", 0o755⟩ rfl ⟨"/t", rfl⟩ rfl rfl rfl
  obtain rfl := hg (by simp [workbench])
  have hfiles : (announced [47, 98] (atHand (some [47, 116]) workbench (.configure {}))
      workbench).files = workbench.files := files_announced_workbench _
  have henter : Spawn.enter workbench.files [47, 98] = .ok [[98]] := rfl
  rw [hfiles] at hb
  generalize startOf bareShop (some [47, 116]) [47, 98] workbench (.configure {}) = out at hb ⊢
  cases hb with
  | zeroByte hz =>
    rcases hz with hz | hz
    · rw [args_configure_noZero] at hz
      cases hz
    · exact absurd hz (by decide)
  | outside he =>
    rw [henter] at he
    cases he
  | process he =>
    rw [henter] at he
    obtain rfl := Except.ok.inj he
    rfl

/-- The program is in the directory and can be run, and yet it is not found once it is started. -/
def Loses (shop : Workshop) (dir buildDir : Path) (w : World) (s : ToolStep) : Prop :=
  ∃ place content, Spawn.runnable w.files (dir.join (.ofString s.program)) = .ok (place, content) ∧
    (Spawn.enter w.files buildDir).isOk = true ∧
    startOf shop (some dir) buildDir w s = .error (.file .notFound)

lemma startOf_workbench (dir : Path) (shown : String)
    (hshown : (dir.join (Path.ofString "cmake")).display = shown)
    (hthere : workbench.files.isThere (dir.join (Path.ofString "cmake")) = true)
    (hzero : (Path.ofString shown).contains 0 = false)
    (hfind : Spawn.find { workbench.files with cwd := [[98]] } [] (Path.ofString shown) =
      .error .notFound) :
    startOf bareShop (some dir) [47, 98] workbench (.configure {}) = .error (.file .notFound) := by
  unfold startOf
  rw [atHand_present (s := .configure {}) hthere,
    show (dir.join (.ofString (ToolStep.configure {}).program)).display = shown from hshown,
    files_announced_workbench]
  exact ToolStep.start_lost hzero args_configure_noZero (by decide) rfl hfind

/-- A relative path is followed from another directory the second time, and one that spells no text
is another path. -/
theorem startOf_loses : Loses bareShop [116] [47, 98] workbench (.configure {}) ∧
    Loses bareShop [47, 255] [47, 98] workbench (.configure {}) := by
  constructor
  · exact ⟨[[116], Path.ofString "cmake"], Bytes.ofString "#!/bin/sh\n", rfl, by decide +kernel,
      startOf_workbench [116] "t/cmake" (by decide +kernel) (by decide) (by decide) rfl⟩
  · exact ⟨[[255], Path.ofString "cmake"], Bytes.ofString "#!/bin/sh\n", rfl, by decide +kernel,
      startOf_workbench [47, 255] "/\uFFFD/cmake" (by decide +kernel) (by decide) (by decide) rfl⟩

end BuildPlan

end PinnedBuild
