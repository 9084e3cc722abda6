import Mathlib
import PinnedBuild.Build.Plan
import PinnedBuild.Proofs.CommandLine.Arguments
import PinnedBuild.Proofs.Config.Listed
import PinnedBuild.Proofs.Text.Utf8
import PinnedBuild.Proofs.Toml.Numbers

/-!
The number of jobs on its way to the build step.

It is written in the configuration or given on the command line. Both take the numbers of 32 bits
without a sign and no others, and what was written is what the build step says.
-/

namespace PinnedBuild.BuildPlan

open Files Toml Config
open CommandLine hiding parse

variable {n : Int} {cs : List Char} {text : String} {c c' : Config} {es : Entries}

/-- Digits of a number, without a sign and without a zero in front of others. -/
structure PlainDigits (n : Int) (ds : String) : Prop where
  nonempty : ds ≠ ""
  digits : ∀ c ∈ ds.toList, c.isDigit = true
  zero : ds.toList.head? = some '0' → ds = "0"
  value : (digitsValue ds.toList : Int) = n

/-- The build step of a configuration is called for this number of jobs. -/
def BuildsWith (n : Int) (c : Config) : Prop :=
  ∃ ds, PlainDigits n ds ∧
    ∀ s, (Stage.build, s) ∈ toolSteps c ↔ s = ⟨"ninja", ["-j" ++ ds]⟩

/-- A text that gives the number of jobs as `cs`, and is the configuration `c` with some other
number in its place. -/
structure Configures (cs : List Char) (text : String) (c : Config) : Prop where
  valid : ∃ (before after : List Line) (m : Int) (es : Entries),
    Gives "build_jobs" cs (skipMark text.toList) before after ∧
    assemble? (before ++ .assign [] "build_jobs" (.integer m) :: after) = some es ∧
    decode es = .ok c

/-! ### The build step -/

lemma plainDigits_toString (n : Nat) : PlainDigits n (toString n) := by
  rw [Nat.toString_eq_ofList_toDigits]
  refine ⟨?_, ?_, ?_, ?_⟩
  · intro h
    have hnil : Nat.toDigits 10 n = [] := by simpa using congrArg String.toList h
    exact Nat.toDigits_ne_nil hnil
  · rw [String.toList_ofList]
    exact isDigit_toDigits n
  · rw [String.toList_ofList]
    rcases toDigits_cases n with h | ⟨c, ds, h, hc⟩ <;> rw [h]
    · exact fun _ => rfl
    · exact fun heq => absurd (Option.some.inj heq) hc
  · rw [String.toList_ofList, digitsValue_eq, Nat.ofDigitChars_ten_toDigits]

lemma buildsWith (c : Config) : BuildsWith c.buildJobs.toNat c := by
  refine ⟨_, plainDigits_toString _, fun s => ?_⟩
  simp [toolSteps, ToolStep.build]

/-! ### From the configuration -/

/-- A document with another number of jobs is the configuration with that number, if it is one. -/
lemma decode_renumber (hd : Distinct es) (hd' : Distinct (renumber "build_jobs" n es))
    (h : decode es = .ok c) : decode (renumber "build_jobs" n es) = .ok c' ↔
      (c'.buildJobs.toNat : Int) = n ∧ c' = { c with buildJobs := c'.buildJobs } := by
  have ht : Told es c := (decode_ok hd).mp h
  have hother : ∀ k, k ≠ "build_jobs" → (renumber "build_jobs" n es).lookup k = es.lookup k :=
    fun k hk => lookup_renumber_of_ne hk n es
  have hjobs : (renumber "build_jobs" n es).lookup "build_jobs" = some (.integer n) :=
    Numbered.lookup_renumber ⟨_, ht.buildJobs⟩ n
  have htold : ∀ k : UInt32, (k.toNat : Int) = n →
      Told (renumber "build_jobs" n es) { c with buildJobs := k } := by
    rintro k rfl
    exact
      { commit := (hother _ (by decide)).trans ht.commit
        archiveName := (hother _ (by decide)).trans ht.archiveName
        expectedSha256 := (hother _ (by decide)).trans ht.expectedSha256
        buildDir := (hother _ (by decide)).trans ht.buildDir
        buildJobs := hjobs
        installWithSudo := (hother _ (by decide)).trans ht.installWithSudo
        cmake := by
          rw [hother _ (by decide)]
          exact ht.cmake }
  constructor
  · intro h'
    have hn : (c'.buildJobs.toNat : Int) = n := by
      have hl := ((decode_ok hd').mp h').buildJobs
      exact (Value.integer.inj (Option.some.inj (hjobs.symm.trans hl))).symm
    have hsame := (decode_ok hd').mpr (htold c'.buildJobs hn)
    exact ⟨hn, Except.ok.inj (h'.symm.trans hsame)⟩
  · rintro ⟨hn, hc⟩
    rw [hc]
    exact (decode_ok hd').mpr (htold c'.buildJobs hn)

lemma exists_toNat_iff : (∃ k : UInt32, (k.toNat : Int) = n) ↔ 0 ≤ n ∧ n ≤ 4294967295 := by
  constructor
  · rintro ⟨k, rfl⟩
    have hk := k.toNat_lt
    omega
  · rintro ⟨hlow, hhigh⟩
    refine ⟨UInt32.ofNat n.toNat, ?_⟩
    have hsize : n.toNat < UInt32.size := by
      show n.toNat < 4294967296
      omega
    rw [UInt32.toNat_ofNat_of_lt' hsize, Int.toNat_of_nonneg hlow]

lemma load_noDocument {t t' : FileTree} {path : Path}
    (hr : (FileOp.readAll path).run t = .ok (Bytes.ofString text, t'))
    (hd : document? text = none) : Config.load t path = .error (.noConfig path .noDocument) := by
  unfold Config.load
  rw [hr]
  simp only
  rw [Bytes.decode?_ofString]
  simp only [parse, hd]
  rfl

/-- A text that gives the number of jobs loads with just that number. -/
lemma Configures.load (h : Configures cs text c) (hn : Decimal n cs) {t t' : FileTree}
    {path : Path} (hr : (FileOp.readAll path).run t = .ok (Bytes.ofString text, t')) :
    Config.load t path = .ok c' ↔
      (c'.buildJobs.toNat : Int) = n ∧ c' = { c with buildJobs := c'.buildJobs } := by
  obtain ⟨before, after, m, es, hgives, hes, hc⟩ := h.valid
  have hlines := hgives.lines? hn
  by_cases hrange : -9223372036854775808 ≤ n ∧ n ≤ 9223372036854775807
  · have hn' : inRange? n = some n := if_pos hrange
    rw [hn'] at hlines
    have hd : document? text = some (renumber "build_jobs" n es) := by
      rw [document?, hlines, Option.map_some, Option.bind_some,
        assemble?_renumber hgives.first "build_jobs" m n after, hes]
      rfl
    have hother : ∀ l ∈ before ++ .assign [] "build_jobs" (.integer m) :: after, l.Distinct := by
      have hread := distinct_lines hlines
      intro l hl
      rcases List.mem_append.mp hl with hl | hl
      · exact hread l (List.mem_append_left _ hl)
      · rcases List.mem_cons.mp hl with rfl | hl
        · exact .integer m
        · exact hread l (List.mem_append_right _ (List.mem_cons_of_mem _ hl))
    rw [← decode_renumber (distinct_assemble hother hes) (distinct_document hd) hc,
      load_document hr hd]
    rcases decode (renumber "build_jobs" n es) with e | c₁
    · simp [Except.mapError]
    · simp [Except.mapError]
  · have hd : document? text = none := by
      have hn' : inRange? n = none := if_neg hrange
      rw [document?, hlines, hn']
      rfl
    constructor
    · intro hload
      rw [load_noDocument hr hd] at hload
      simp at hload
    · rintro ⟨rfl, -⟩
      have hk := c'.buildJobs.toNat_lt
      omega

/-- And it loads just if this is a number of 32 bits without a sign. -/
lemma Configures.loads (h : Configures cs text c) (hn : Decimal n cs) {t t' : FileTree}
    {path : Path} (hr : (FileOp.readAll path).run t = .ok (Bytes.ofString text, t')) :
    (∃ c', Config.load t path = .ok c') ↔ 0 ≤ n ∧ n ≤ 4294967295 := by
  rw [← exists_toNat_iff]
  constructor
  · rintro ⟨c', hload⟩
    exact ⟨c'.buildJobs, ((h.load hn hr).mp hload).1⟩
  · rintro ⟨k, hk⟩
    exact ⟨{ c with buildJobs := k }, (h.load hn hr).mpr ⟨hk, rfl⟩⟩

/-! ### From the command line -/

lemma jobs?_ofList {negative : Bool} {ds : List Char} (h : sign cs = (negative, ds))
    (hd : isDigits ds = true) : CommandLine.jobs? (String.ofList cs) =
      if digitsValue ds = 0 ∨ (negative = false ∧ digitsValue ds < UInt32.size) then
        some (UInt32.ofNat (digitsValue ds))
      else none := by
  unfold CommandLine.jobs?
  rw [String.toList_ofList]
  split
  rename_i heq
  obtain ⟨rfl, rfl⟩ := Prod.mk.inj (h.symm.trans heq)
  rw [if_pos hd]

/-- A job count is any number of 32 bits without a sign, and that number. -/
lemma jobs?_decimal (hn : Decimal n cs) (jobs : UInt32) :
    CommandLine.jobs? (String.ofList cs) = some jobs ↔ (jobs.toNat : Int) = n := by
  obtain ⟨negative, k, rfl, hsign⟩ := hn.sign []
  have hvalue : digitsValue (Nat.toDigits 10 k) = k := by
    rw [digitsValue_eq, Nat.ofDigitChars_ten_toDigits]
  have hdigits : isDigits (Nat.toDigits 10 k) = true := by
    have hne : (Nat.toDigits 10 k).isEmpty = false := by
      simp
    rw [isDigits, hne, List.all_eq_true.mpr (isDigit_toDigits k)]
    rfl
  rw [List.append_nil, List.append_nil] at hsign
  rw [jobs?_ofList hsign hdigits, hvalue]
  have hk := jobs.toNat_lt
  have hsize : UInt32.size = 4294967296 := rfl
  constructor
  · intro h
    split_ifs at h with hin
    obtain rfl := Option.some.inj h
    have hlt : k < UInt32.size := by omega
    rw [UInt32.toNat_ofNat_of_lt' hlt]
    rcases hin with rfl | ⟨rfl, -⟩
    · cases negative <;> rfl
    · rfl
  · intro h
    have hin : k = 0 ∨ (negative = false ∧ k < UInt32.size) := by
      rcases negative with _ | _
      · have hn : signed false k = (k : Int) := rfl
        exact .inr ⟨rfl, by omega⟩
      · have hn : signed true k = -(k : Int) := rfl
        exact .inl (by omega)
    have hsame : jobs.toNat = k := by
      rcases hin with rfl | ⟨rfl, -⟩
      · have hn : signed negative 0 = 0 := by cases negative <;> rfl
        omega
      · have hn : signed false k = (k : Int) := rfl
        omega
    rw [if_pos hin, ← hsame, UInt32.ofNat_toNat]

/-- The arguments that ask for a build with a number of jobs. -/
def jobsArgs (v : String) : List Bytes := [.ofString "build", .ofString ("--jobs=" ++ v)]

lemma parse_jobs (v : String) : CommandLine.parse (jobsArgs v) =
    match CommandLine.jobs? v with
    | some jobs => .ok ⟨none, .build none none (some jobs) false⟩
    | none => .error .badNumber := by
  have hname : equals ∉ Bytes.ofString "jobs" := by decide
  have hshape : shapeOf (.ofString ("--jobs=" ++ v)) =
      .long (.ofString "jobs") (some (.ofString v)) := by
    rw [Text.Utf8.ofString_append]
    exact shapeOf_attached hname _
  have hread : readArg (.verb .build) {} (.ofString ("--jobs=" ++ v)) =
      match CommandLine.jobs? v with
      | some jobs => .ok { given := { jobs := some jobs } }
      | none => .error .badNumber := by
    unfold readArg readFlag
    rw [hshape]
    show (do
      let g ← ({} : Given).set .jobs (.ofString v)
      return ({ given := g } : Reading)) = _
    unfold Given.set
    simp only [Bytes.decode?_ofString, Option.map_some]
    rcases CommandLine.jobs? v with _ | jobs <;> rfl
  have hall : CommandLine.readAll (.verb .build) {} [.ofString ("--jobs=" ++ v)] =
      match CommandLine.jobs? v with
      | some jobs => .ok { jobs := some jobs }
      | none => .error .badNumber := by
    rw [CommandLine.readAll, List.foldlM_cons, hread]
    rcases CommandLine.jobs? v with _ | jobs <;> rfl
  show readTop {} (.ofString Verb.build.name :: [.ofString ("--jobs=" ++ v)]) = _
  rw [ready_start.verb, hall]
  rcases CommandLine.jobs? v with _ | jobs <;> rfl

/-! ### Both ways -/

/-- **The number of jobs**: a text that writes it, and is otherwise a configuration, loads just if
it is a number of 32 bits without a sign, and it can be given on the command line just then. The
build step says this number in plain digits: the one from the command line if there is one. -/
theorem jobs_unaltered (hn : Decimal n cs) :
    (∀ (text : String) (c : Config), Configures cs text c →
      ∀ (t t' : FileTree) (path : Path),
        (FileOp.readAll path).run t = .ok (Bytes.ofString text, t') →
        ((∃ c', Config.load t path = .ok c') ↔ 0 ≤ n ∧ n ≤ 4294967295) ∧
        ∀ c', Config.load t path = .ok c' → (c'.buildJobs.toNat : Int) = n ∧
          c' = { c with buildJobs := c'.buildJobs } ∧
          ∀ commit noSudo, BuildsWith n ((⟨commit, none, noSudo⟩ : BuildOverrides).apply c')) ∧
    ((∃ i, CommandLine.parse (jobsArgs (String.ofList cs)) = .ok i) ↔
      0 ≤ n ∧ n ≤ 4294967295) ∧
    ∀ i, CommandLine.parse (jobsArgs (String.ofList cs)) = .ok i →
      ∃ jobs, i = ⟨none, .build none none (some jobs) false⟩ ∧ (jobs.toNat : Int) = n ∧
        ∀ c commit noSudo,
          BuildsWith n ((⟨commit, some jobs, noSudo⟩ : BuildOverrides).apply c) := by
  refine ⟨fun text c hc t t' path hr => ⟨hc.loads hn hr, fun c' hload => ?_⟩, ?_, fun i hi => ?_⟩
  · obtain ⟨hjobs, hsame⟩ := (hc.load hn hr).mp hload
    refine ⟨hjobs, hsame, fun commit noSudo => ?_⟩
    rw [← hjobs]
    exact buildsWith ((⟨commit, none, noSudo⟩ : BuildOverrides).apply c')
  · rw [← exists_toNat_iff, parse_jobs]
    constructor
    · rintro ⟨i, hi⟩
      rcases hj : CommandLine.jobs? (String.ofList cs) with _ | jobs
      · simp [hj] at hi
      · exact ⟨jobs, (jobs?_decimal hn jobs).mp hj⟩
    · rintro ⟨jobs, hj⟩
      rw [(jobs?_decimal hn jobs).mpr hj]
      exact ⟨_, rfl⟩
  · rw [parse_jobs] at hi
    rcases hj : CommandLine.jobs? (String.ofList cs) with _ | jobs
    · simp [hj] at hi
    · rw [hj] at hi
      have hjobs := (jobs?_decimal hn jobs).mp hj
      refine ⟨jobs, (Except.ok.inj hi).symm, hjobs, fun c commit noSudo => ?_⟩
      rw [← hjobs]
      exact buildsWith ((⟨commit, some jobs, noSudo⟩ : BuildOverrides).apply c)

/-! ### Every configuration with any number -/

def fieldsBefore (c : Config) : List Field :=
  (fields c).takeWhile fun f => f.key ≠ "build_jobs"

def fieldsAfter (c : Config) : List Field :=
  [⟨"install_with_sudo", Writer.boolean c.installWithSudo, .boolean c.installWithSudo⟩]

lemma fields_split (c : Config) : fields c = fieldsBefore c ++
    ⟨"build_jobs", Nat.toDigits 10 c.buildJobs.toNat, .integer c.buildJobs.toNat⟩ ::
      fieldsAfter c := by
  rcases c with ⟨commit, archiveName, _ | digest, buildDir, buildJobs, installWithSudo, cmake⟩ <;>
    rfl

/-- A configuration as it is written, but with `cs` as the number of jobs. -/
def writtenWith (cs : List Char) (c : Config) : String :=
  String.ofList ((fieldsBefore c).flatMap Field.write ++ (Writer.entry "build_jobs" cs ++
    ((fieldsAfter c).flatMap Field.write ++ '\n' :: headerOf "cmake" ++
      (cmakeFields c.cmake).flatMap Field.write)))

/-- Any number can stand there. -/
lemma configures_writtenWith (hn : Decimal n cs) (c : Config) :
    Configures cs (writtenWith cs c) c := by
  have hgood := good_fields c
  rw [fields_split, List.forall_mem_append, List.forall_mem_cons] at hgood
  obtain ⟨hbefore, -, hafter⟩ := hgood
  have hlines := lines?_document hafter (good_cmakeFields c.cmake)
    (bareKey_of_mem "cmake" (by simp [keys]))
  have hassemble := assemble?_document (nodup_keys c) (nodup_cmakeKeys c.cmake)
  have hdecode := decode_fields c
  rw [fields_split] at hassemble hdecode
  rw [List.map_append, List.append_assoc] at hassemble
  have hmark : skipMark (writtenWith cs c).toList = (fieldsBefore c).flatMap Field.write ++
      (Writer.entry "build_jobs" cs ++ ((fieldsAfter c).flatMap Field.write ++
        '\n' :: headerOf "cmake" ++ (cmakeFields c.cmake).flatMap Field.write)) := by
    obtain ⟨f, fs, hfirst⟩ : ∃ f fs, fieldsBefore c = f :: fs := by
      rcases c with ⟨commit, archive, _ | digest, dir, jobs, install, cmake⟩ <;> exact ⟨_, _, rfl⟩
    rw [writtenWith, String.toList_ofList, hfirst, List.flatMap_cons, List.append_assoc]
    exact skipMark_field (hbefore f (by simp [hfirst])) _
  have hline : ∀ rest, skipBlanks (Writer.entry "build_jobs" cs ++ rest) =
      "build_jobs".toList ++ ' ' :: '=' :: ' ' :: (cs ++ '\n' :: rest) := by
    intro rest
    have hw : Writer.entry "build_jobs" cs ++ rest =
        "build_jobs".toList ++ ' ' :: '=' :: ' ' :: (cs ++ '\n' :: rest) := by
      simp [Writer.entry]
    rw [hw]
    rfl
  have hbare : BareKey "build_jobs" := bareKey_of_mem "build_jobs" (by simp [keys])
  have hkeyed : ∀ rest, key? (skipBlanks (Writer.entry "build_jobs" cs ++ rest)) =
      some ([], "build_jobs", '=' :: ' ' :: (cs ++ '\n' :: rest)) := by
    intro rest
    rw [hline, key?_bare hbare.1 hbare.2 (by decide) (d := '=') (by decide) rfl]
    rfl
  refine ⟨(fieldsBefore c).map Field.line, _, c.buildJobs.toNat, _, ⟨?_, ?_⟩, hassemble,
    hdecode⟩
  · rw [hmark]
    exact ⟨_, _, _, '\n' :: _, _, reads_fields hbefore _, hkeyed _, rfl, hn.skipBlanks _, rfl,
      hlines⟩
  · intro l hl
    obtain ⟨f, -, rfl⟩ := List.mem_map.mp hl
    trivial

/-- The largest number of 32 bits is taken in both ways, and the next is refused in both. -/
theorem jobs_unaltered_edge :
    Decimal 4294967295 "4294967295".toList ∧ Decimal 4294967296 "4294967296".toList ∧
      load (soleFile (Bytes.ofString (writtenWith "4294967295".toList {}))) [102] =
        .ok { ({} : Config) with buildJobs := 4294967295 } ∧
      (∀ c, load (soleFile (Bytes.ofString (writtenWith "4294967296".toList {}))) [102] ≠ .ok c) ∧
      (∃ i, CommandLine.parse (jobsArgs "4294967295") = .ok i) ∧
      ∀ i, CommandLine.parse (jobsArgs "4294967296") ≠ .ok i := by
  have hlast : Decimal 4294967295 "4294967295".toList := .plain 4294967295
  have hover : Decimal 4294967296 "4294967296".toList := .plain 4294967296
  obtain ⟨hload, hparse, -⟩ := jobs_unaltered hlast
  obtain ⟨hload', hparse', -⟩ := jobs_unaltered hover
  obtain ⟨hloads, hsame⟩ :=
    hload _ {} (configures_writtenWith hlast {}) _ _ [102] (readAll_soleFile _)
  have hrefused := (hload' _ {} (configures_writtenWith hover {}) _ _ [102] (readAll_soleFile _)).1
  refine ⟨hlast, hover, ?_, fun c hc => ?_, hparse.mpr (by decide), fun i hi => ?_⟩
  · obtain ⟨c, hc⟩ := hloads.mpr (by decide)
    obtain ⟨hjobs, hrest, -⟩ := hsame c hc
    have hnumber : c.buildJobs = 4294967295 := by
      rw [← UInt32.toNat_inj]
      exact_mod_cast hjobs
    rw [hc, hrest, hnumber]
  · exact absurd (hrefused.mp ⟨c, hc⟩) (by decide)
  · exact absurd (hparse'.mp ⟨i, hi⟩) (by decide)

end PinnedBuild.BuildPlan
