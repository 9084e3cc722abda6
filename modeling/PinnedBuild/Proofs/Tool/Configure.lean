import Mathlib
import PinnedBuild.Tool.Step

/-!
What the configure step tells of its options: all of them, except where in a list one name ends and
the next begins. Each argument has its place, but for the projects, which are there or not; how many
arguments there are says which.
-/

namespace PinnedBuild.CmakeConfig

/-- The options as the configure step spells them. -/
structure Spelling where
  generator : String
  /-- The projects in one text, unless there are none. -/
  projects : Option String
  buildType : String
  exportCompileCommands : Bool
  targets : String
  includeTests : Bool
  assertions : Bool
  deriving DecidableEq

def spelling (c : CmakeConfig) : Spelling where
  generator := c.generator
  projects := if c.projects = [] then none else some (";".intercalate c.projects)
  buildType := c.buildType
  exportCompileCommands := c.exportCompileCommands
  targets := ";".intercalate c.targets
  includeTests := c.includeTests
  assertions := c.assertions

namespace Spelling

/-- The arguments that follow those of the generator and the projects. -/
def settings (s : Spelling) : List String :=
  ["-DCMAKE_BUILD_TYPE=" ++ s.buildType,
    "-DCMAKE_EXPORT_COMPILE_COMMANDS=" ++ ToolStep.onOff s.exportCompileCommands,
    "-DLLVM_TARGETS_TO_BUILD=" ++ s.targets,
    "-DCLANG_INCLUDE_TESTS=" ++ ToolStep.onOff s.includeTests,
    "-DLLVM_ENABLE_ASSERTIONS=" ++ ToolStep.onOff s.assertions]

def args (s : Spelling) : List String :=
  "-S" :: ToolStep.sourceRelative :: "-G" :: s.generator ::
    ((s.projects.map ("-DLLVM_ENABLE_PROJECTS=" ++ ·)).toList ++ s.settings)

/-! ### Reading arguments back -/

/-- What a variable is set to by an argument that sets it. -/
def value? (name arg : String) : Option String :=
  if name.toList.isPrefixOf arg.toList then some (String.ofList (arg.toList.drop name.length))
  else none

def switch? (value : String) : Option Bool :=
  if value = "ON" then some true else if value = "OFF" then some false else none

def flag? (name arg : String) : Option Bool := (value? name arg).bind switch?

def read? (generator : String) (projects : Option String) : List String → Option Spelling
  | [buildType, exported, targets, tests, assertions] => do
    return {
      generator := generator
      projects := projects
      buildType := ← value? "-DCMAKE_BUILD_TYPE=" buildType
      exportCompileCommands := ← flag? "-DCMAKE_EXPORT_COMPILE_COMMANDS=" exported
      targets := ← value? "-DLLVM_TARGETS_TO_BUILD=" targets
      includeTests := ← flag? "-DCLANG_INCLUDE_TESTS=" tests
      assertions := ← flag? "-DLLVM_ENABLE_ASSERTIONS=" assertions }
  | _ => none

/-- The options that a list of arguments spells. There are six after the generator if projects are
among them, and five if not. -/
def ofArgs? : List String → Option Spelling
  | _ :: _ :: _ :: generator :: rest =>
    if rest.length = 6 then
      (value? "-DLLVM_ENABLE_PROJECTS=" (rest.headD "")).bind fun projects =>
        read? generator (some projects) rest.tail
    else read? generator none rest
  | _ => none

lemma value?_append (name value : String) : value? name (name ++ value) = some value := by
  have hfront : name.toList.isPrefixOf (name ++ value).toList = true := by
    rw [List.isPrefixOf_iff_prefix, String.toList_append]
    exact List.prefix_append _ _
  have hrest : (name ++ value).toList.drop name.length = value.toList := by
    rw [String.toList_append, ← String.length_toList, List.drop_left]
  rw [value?, if_pos hfront, hrest, String.ofList_toList]

lemma flag?_append (name : String) (b : Bool) : flag? name (name ++ ToolStep.onOff b) = some b := by
  rw [flag?, value?_append, Option.bind_some]
  cases b <;> rfl

lemma read?_settings (s : Spelling) : read? s.generator s.projects s.settings = some s := by
  simp only [settings, read?, value?_append, flag?_append]
  rfl

lemma ofArgs?_args (s : Spelling) : ofArgs? s.args = some s := by
  have hread := s.read?_settings
  unfold args ofArgs?
  rcases hp : s.projects with _ | projects <;> rw [hp] at hread
  · have hfive : ([] ++ s.settings).length ≠ 6 := by simp [settings]
    exact (if_neg hfive).trans hread
  · have hsix : (["-DLLVM_ENABLE_PROJECTS=" ++ projects] ++ s.settings).length = 6 := by
      simp [settings]
    have hvalue := value?_append "-DLLVM_ENABLE_PROJECTS=" projects
    refine (if_pos hsix).trans ?_
    show ((value? "-DLLVM_ENABLE_PROJECTS=" ("-DLLVM_ENABLE_PROJECTS=" ++ projects)).bind
      fun given => read? s.generator (some given) s.settings) = some s
    rw [hvalue, Option.bind_some]
    exact hread

lemma args_injective {s t : Spelling} (h : s.args = t.args) : s = t := by
  have hread : some s = some t := by rw [← s.ofArgs?_args, h, t.ofArgs?_args]
  exact Option.some.inj hread

/-! ### Taking lists apart -/

/-- The names of a list. -/
def names (joined : String) : List String :=
  if joined = "" then [] else (joined.toList.splitOn ';').map String.ofList

def options (s : Spelling) : CmakeConfig where
  generator := s.generator
  buildType := s.buildType
  exportCompileCommands := s.exportCompileCommands
  targets := names s.targets
  includeTests := s.includeTests
  assertions := s.assertions
  projects := (s.projects.map names).getD []

lemma toList_intercalate (l : List String) :
    (";".intercalate l).toList = [';'].intercalate (l.map String.toList) := by
  rw [String.toList_intercalate]
  rfl

/-- Names with no semicolon in them, and none that are empty, can be told apart. -/
lemma names_intercalate {l : List String} (h : ∀ x ∈ l, x ≠ "" ∧ ';' ∉ x.toList) :
    names (";".intercalate l) = l := by
  rcases l with _ | ⟨x, l⟩
  · rfl
  have hne : ";".intercalate (x :: l) ≠ "" := by
    intro hnil
    obtain ⟨hx, -⟩ := h x List.mem_cons_self
    have hempty := congrArg String.toList hnil
    rw [toList_intercalate, List.map_cons, String.toList_empty] at hempty
    have hfront : x.toList <+: [';'].intercalate (x.toList :: l.map String.toList) := by
      rcases l.map String.toList with _ | ⟨y, m⟩
      · rw [List.intercalate_singleton]
      · rw [List.intercalate_cons_cons, List.append_assoc]
        exact List.prefix_append _ _
    rw [hempty, List.prefix_nil] at hfront
    exact hx (String.toList_eq_nil_iff.mp hfront)
  have hsplit : ([';'].intercalate ((x :: l).map String.toList)).splitOn ';' =
      (x :: l).map String.toList := by
    refine List.splitOn_intercalate ';' (fun y hy => ?_) (List.cons_ne_nil _ _)
    obtain ⟨z, hz, rfl⟩ := List.mem_map.mp hy
    exact (h z hz).2
  have hback : String.ofList ∘ String.toList = id := funext fun z => String.ofList_toList
  rw [names, if_neg hne, toList_intercalate, hsplit, List.map_map, hback, List.map_id]

end Spelling

variable {c d : CmakeConfig}

lemma args_configure (c : CmakeConfig) : (ToolStep.configure c).args = c.spelling.args := by
  unfold ToolStep.configure spelling Spelling.args
  rcases c.projects with _ | ⟨x, l⟩ <;> rfl

/-- The options say the same, up to how their lists are divided. -/
structure SpelledAlike (c d : CmakeConfig) : Prop where
  generator : c.generator = d.generator
  buildType : c.buildType = d.buildType
  exportCompileCommands : c.exportCompileCommands = d.exportCompileCommands
  includeTests : c.includeTests = d.includeTests
  assertions : c.assertions = d.assertions
  targets : ";".intercalate c.targets = ";".intercalate d.targets
  projects : c.projects = [] ∧ d.projects = [] ∨
    c.projects ≠ [] ∧ d.projects ≠ [] ∧ ";".intercalate c.projects = ";".intercalate d.projects

/-- The lists are of names that a semicolon can stand between. -/
def Divisible (c : CmakeConfig) : Prop :=
  ∀ x ∈ c.targets ++ c.projects, x ≠ "" ∧ ';' ∉ x.toList

lemma spelling_eq_iff : c.spelling = d.spelling ↔ c.SpelledAlike d := by
  constructor
  · intro h
    have hprojects : (if c.projects = [] then none else some (";".intercalate c.projects)) =
        if d.projects = [] then none else some (";".intercalate d.projects) :=
      congrArg Spelling.projects h
    constructor
    case generator => exact congrArg Spelling.generator h
    case buildType => exact congrArg Spelling.buildType h
    case exportCompileCommands => exact congrArg Spelling.exportCompileCommands h
    case includeTests => exact congrArg Spelling.includeTests h
    case assertions => exact congrArg Spelling.assertions h
    case targets => exact congrArg Spelling.targets h
    case projects =>
      by_cases hc : c.projects = [] <;> by_cases hd : d.projects = []
      · exact .inl ⟨hc, hd⟩
      · rw [if_pos hc, if_neg hd] at hprojects
        cases hprojects
      · rw [if_neg hc, if_pos hd] at hprojects
        cases hprojects
      · rw [if_neg hc, if_neg hd] at hprojects
        exact .inr ⟨hc, hd, Option.some.inj hprojects⟩
  · intro h
    have hprojects : c.spelling.projects = d.spelling.projects := by
      unfold spelling
      rcases h.projects with ⟨hc, hd⟩ | ⟨hc, hd, hjoined⟩
      · simp only [if_pos hc, if_pos hd]
      · simp only [if_neg hc, if_neg hd, hjoined]
    unfold spelling at hprojects ⊢
    simp only [Spelling.mk.injEq]
    exact ⟨h.generator, hprojects, h.buildType, h.exportCompileCommands, h.targets,
      h.includeTests, h.assertions⟩

lemma options_spelling (h : c.Divisible) : c.spelling.options = c := by
  have htargets : Spelling.names (";".intercalate c.targets) = c.targets :=
    Spelling.names_intercalate fun x hx => h x (List.mem_append_left _ hx)
  have hprojects : (c.spelling.projects.map Spelling.names).getD [] = c.projects := by
    unfold spelling
    by_cases hnone : c.projects = []
    · simp only [hnone]
      rfl
    · simp only [if_neg hnone]
      exact Spelling.names_intercalate fun x hx => h x (List.mem_append_right _ hx)
  unfold Spelling.options
  rw [hprojects]
  show CmakeConfig.mk _ _ _ (Spelling.names (";".intercalate c.targets)) _ _ _ = c
  rw [htargets]
  rfl

/-- **The configure step tells its options**: it is the same only for options that are spelled
alike, and from lists of divisible names they are read back. -/
theorem configure_tells (c d : CmakeConfig) :
    (ToolStep.configure c = ToolStep.configure d ↔ c.SpelledAlike d) ∧
      (c.Divisible →
        (Spelling.ofArgs? (ToolStep.configure c).args).map Spelling.options = some c) := by
  constructor
  · rw [← spelling_eq_iff]
    constructor
    · intro h
      have hargs : c.spelling.args = d.spelling.args := by
        rw [← args_configure, h, args_configure]
      exact Spelling.args_injective hargs
    · intro h
      have hargs : (ToolStep.configure c).args = (ToolStep.configure d).args := by
        rw [args_configure, h, args_configure]
      calc ToolStep.configure c = ⟨"cmake", (ToolStep.configure c).args⟩ := rfl
        _ = ⟨"cmake", (ToolStep.configure d).args⟩ := by rw [hargs]
        _ = ToolStep.configure d := rfl
  · intro h
    rw [args_configure, Spelling.ofArgs?_args, Option.map_some, options_spelling h]

/-- Options whose texts look like arguments and lists themselves. -/
def lookalikes : CmakeConfig where
  generator := "-DLLVM_ENABLE_PROJECTS=clang;lld"
  buildType := ""
  targets := ["X86", "-DCLANG_INCLUDE_TESTS=OFF"]
  projects := ["=", "lld"]

/-- Projects with separators in them are not told apart from more projects, but none are told from
an empty one. -/
theorem configure_tells_lookalikes : lookalikes.Divisible ∧
    (Spelling.ofArgs? (ToolStep.configure lookalikes).args).map Spelling.options =
      some lookalikes ∧
    ToolStep.configure { lookalikes with projects := ["=;lld"] } = ToolStep.configure lookalikes ∧
    ToolStep.configure { lookalikes with projects := [""] } ≠
      ToolStep.configure { lookalikes with projects := [] } := by
  have hdivisible : lookalikes.Divisible := by
    unfold Divisible
    decide
  have hjoined : ";".intercalate ["=;lld"] = ";".intercalate ["=", "lld"] := rfl
  refine ⟨hdivisible, (configure_tells lookalikes lookalikes).2 hdivisible, ?_, fun h => ?_⟩
  · refine (configure_tells _ _).1.mpr ?_
    exact ⟨rfl, rfl, rfl, rfl, rfl, rfl, .inr ⟨List.cons_ne_nil _ _, List.cons_ne_nil _ _, hjoined⟩⟩
  · rcases ((configure_tells _ _).1.mp h).projects with ⟨hc, -⟩ | ⟨-, hd, -⟩
    · exact List.cons_ne_nil _ _ hc
    · exact hd rfl

end PinnedBuild.CmakeConfig
