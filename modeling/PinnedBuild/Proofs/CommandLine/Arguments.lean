import Mathlib
import PinnedBuild.CommandLine.Arguments
import PinnedBuild.Proofs.Action

/-!
Every command line that spells out a command is read as that command.

What is asked for is a list of settings, and a command line writes them one after the other, in any
order and each in one of its forms. The reader has taken up some of them at each point; one more is
one step, whether it waits for a value on the way or not.
-/

namespace PinnedBuild.CommandLine

/-! ### Command lines -/

/-- One thing that is asked for. -/
inductive Setting where
  | config (file : Path)
  | commit (commit : String)
  | workDir (dir : Path)
  | jobs (n : UInt32)
  | noSudo
  | path (file : Path)
  deriving DecidableEq

/-- An option with its name and the bytes of its value. No path is empty. -/
inductive Setting.Named : Setting → Bytes → Bytes → Prop
  | config {file : Path} (h : file ≠ []) : Named (.config file) (.ofString "--config") file
  | commit (commit : String) : Named (.commit commit) (.ofString "--commit") (.ofString commit)
  | workDir {dir : Path} (h : dir ≠ []) : Named (.workDir dir) (.ofString "--work-dir") dir
  | jobs (n : UInt32) : Named (.jobs n) (.ofString "--jobs") (.ofString (toString n.toNat))

/-- An argument that cannot be taken for an option. -/
def NoDash (arg : Bytes) : Prop := arg.head? ≠ some dash

instance (arg : Bytes) : Decidable (NoDash arg) := inferInstanceAs (Decidable (_ ≠ _))

/-- How a setting is written. -/
inductive Setting.Written : Setting → List Bytes → Prop
  | attached {s : Setting} {name value : Bytes} (h : s.Named name value) :
      Written s [name ++ equals :: value]
  | apart {s : Setting} {name value : Bytes} (h : s.Named name value) (hv : NoDash value) :
      Written s [name, value]
  | noSudo : Written .noSudo [.ofString "--no-sudo"]
  | path {file : Path} (h : file ≠ []) (hf : NoDash file) : Written (.path file) [file]

/-- Settings that are written one after the other. -/
inductive WrittenAll : List Setting → List Bytes → Prop
  | nil : WrittenAll [] []
  | cons {s : Setting} {ss : List Setting} {words more : List Bytes} (h : s.Written words)
      (rest : WrittenAll ss more) : WrittenAll (s :: ss) (words ++ more)

/-- The name of a command, and the settings that it asks for. The path of a checksum may be left
out if it is the usual one. -/
inductive Command.Asks : Command → String → List Setting → Prop
  | checksum (path : Path) : Asks (.checksum path) "checksum" [.path path]
  | usual : Asks (.checksum (.ofString "llvm.zip")) "checksum" []
  | url (commit : Option String) : Asks (.url commit) "url" (commit.toList.map .commit)
  | build (workDir : Option Path) (commit : Option String) (jobs : Option UInt32)
      (noSudo : Bool) :
      Asks (.build workDir commit jobs noSudo) "build"
        (workDir.toList.map .workDir ++ commit.toList.map .commit ++ jobs.toList.map .jobs
          ++ if noSudo then [.noSudo] else [])

/-- Command lines for a command: the configuration is named in front of the command or among its
settings, which come in any order. -/
inductive Spelled : Invocation → List Bytes → Prop
  | front {file : Path} {name : String} {c : Command} {settings ss : List Setting}
      {before after : List Bytes} (config : (Setting.config file).Written before)
      (asks : c.Asks name settings) (order : ss.Perm settings) (options : WrittenAll ss after) :
      Spelled ⟨some file, c⟩ (before ++ .ofString name :: after)
  | among {file : Option Path} {name : String} {c : Command} {settings ss : List Setting}
      {after : List Bytes} (asks : c.Asks name settings)
      (order : ss.Perm (file.toList.map .config ++ settings)) (options : WrittenAll ss after) :
      Spelled ⟨file, c⟩ (.ofString name :: after)

/-! ### What is taken up -/

namespace Setting

def flag : Setting → Flag
  | config _ => .config
  | commit _ => .commit
  | workDir _ => .workDir
  | jobs _ => .jobs
  | noSudo => .noSudo
  | path _ => .path

/-- What has been read, with one setting more. -/
def addTo (g : Given) : Setting → Given
  | config file => { g with config := some file }
  | commit c => { g with commit := some c }
  | workDir dir => { g with workDir := some dir }
  | jobs n => { g with jobs := some n }
  | noSudo => { g with noSudo := true }
  | path file => { g with path := some file }

variable {s s' : Setting} {g : Given}

lemma has_addTo (g : Given) (s : Setting) (f : Flag) :
    (s.addTo g).has f = (s.flag == f || g.has f) := by
  cases s <;> cases f <;> simp [addTo, flag, Given.has]

/-- Settings of different kinds can be taken up in any order. -/
lemma addTo_comm (h : s.flag ≠ s'.flag) : s'.addTo (s.addTo g) = s.addTo (s'.addTo g) := by
  cases s <;> cases s' <;> simp [flag] at h <;> rfl

end Setting

lemma digitsValue_eq (ds : List Char) : digitsValue ds = Nat.ofDigitChars 10 ds 0 := by
  have hfold : ∀ n, ds.foldl (fun n c => n * 10 + (c.toNat - 48)) n = Nat.ofDigitChars 10 ds n := by
    induction ds with
    | nil => exact fun n => rfl
    | cons d ds ih =>
      intro n
      rw [List.foldl_cons, Nat.mul_comm, ih]
      rfl
  exact hfold 0

/-- The digits of a job count are read as that count. -/
lemma jobs?_toString (n : UInt32) : jobs? (toString n.toNat) = some n := by
  have hdigit : ∀ d ∈ Nat.toDigits 10 n.toNat, d.isDigit = true :=
    fun _ hd => Nat.isDigit_of_mem_toDigits (by decide) (by decide) hd
  have hvalue : digitsValue (Nat.toDigits 10 n.toNat) = n.toNat := by
    rw [digitsValue_eq, Nat.ofDigitChars_ten_toDigits]
  obtain ⟨d, ds, hds⟩ := List.exists_cons_of_ne_nil (Nat.toDigits_ne_nil (n := n.toNat) (b := 10))
  rw [hds] at hdigit hvalue
  have hall : isDigits (d :: ds) = true := by simpa [isDigits] using hdigit
  have hd := hdigit d (List.mem_cons_self ..)
  have hlt : n.toNat < UInt32.size := n.toNat_lt
  unfold jobs?
  rw [Nat.toString_eq_ofList_toDigits, String.toList_ofList, hds]
  split
  rename_i negative rest heq
  split at heq
  · rename_i hcons
    obtain ⟨rfl, -⟩ := List.cons.inj hcons
    simp at hd
  · rename_i hcons
    obtain ⟨rfl, -⟩ := List.cons.inj hcons
    simp at hd
  · obtain ⟨rfl, rfl⟩ := Prod.mk.inj heq
    rw [if_pos hall, hvalue, if_pos (.inr ⟨rfl, hlt⟩), UInt32.ofNat_toNat]

/-! ### What an argument looks like -/

variable {name value arg : Bytes}

lemma shapeOf_dashes {rest : Bytes} (hne : rest ≠ []) :
    shapeOf (dash :: dash :: rest) = .long (rest.takeWhile (· ≠ equals))
      (rest.drop (rest.takeWhile (· ≠ equals)).length).tail? := by
  simp [shapeOf, hne]

lemma shapeOf_attached (h : equals ∉ name) (value : Bytes) :
    shapeOf (dash :: dash :: (name ++ equals :: value)) = .long name (some value) := by
  have ht : (name ++ equals :: value).takeWhile (· ≠ equals) = name := by
    rw [List.takeWhile_append_of_pos fun c hc => by simpa using ne_of_mem_of_not_mem hc h]
    simp
  rw [shapeOf_dashes (by simp), ht, List.drop_left]
  rfl

lemma shapeOf_apart (h : equals ∉ name) (hne : name ≠ []) :
    shapeOf (dash :: dash :: name) = .long name none := by
  have ht : name.takeWhile (· ≠ equals) = name :=
    List.takeWhile_eq_self_iff.mpr fun c hc => by simpa using ne_of_mem_of_not_mem hc h
  rw [shapeOf_dashes hne, ht, List.drop_length]
  rfl

lemma shapeOf_noDash (h : NoDash value) : shapeOf value = .plain := by
  unfold NoDash at h
  unfold shapeOf
  split
  · exact if_pos (by simpa using h)
  · rfl

/-! ### One more setting -/

variable {s : Setting} {l : Level} {r : Reading} {g : Given} {words : List Bytes}

lemma Setting.Named.name_eq (h : s.Named name value) :
    name = dash :: dash :: Bytes.ofString s.flag.name ∧ s.flag.takesValue = true := by
  cases h <;> exact ⟨rfl, rfl⟩

lemma Flag.name_clean (f : Flag) :
    equals ∉ Bytes.ofString f.name ∧ Bytes.ofString f.name ≠ [] := by
  cases f <;> decide

lemma Level.flag?_name {f : Flag} (h : f ∈ l.flags) :
    l.flag? (.ofString f.name) = some f := by
  rcases l with _ | v
  · cases f <;> first | rfl | simp [flags] at h
  · cases v <;> cases f <;> first | rfl | simp [flags] at h

/-- A setting that is new is taken up. -/
lemma Setting.Named.set (h : s.Named name value) (hnew : g.has s.flag = false) :
    g.set s.flag value = .ok (s.addTo g) := by
  unfold Given.set
  rw [hnew]
  cases h with
  | config h => simp [flag, addTo, h]
  | commit c =>
    simp only [flag, Bool.false_eq_true, if_false, Bytes.decode?_ofString]
    rfl
  | workDir h => simp [flag, addTo, h]
  | jobs n =>
    simp only [flag, Bool.false_eq_true, if_false, Bytes.decode?_ofString, Option.map_some,
      jobs?_toString]
    rfl

/-- Reading is between two settings, of which those in front come to `g`. -/
structure Ready (r : Reading) (g : Given) : Prop where
  settled : settle r.given r.pending = .ok g
  hasPath : r.hasPath = g.has .path
  options : r.trailing = false
  done : r.wantsValue = false

lemma ready_start : Ready {} {} := ⟨rfl, rfl, rfl, rfl⟩

/-- A setting that can be given on a level. -/
def Level.Takes (l : Level) (f : Flag) : Prop := f ∈ l.flags ∨ l = .verb .checksum ∧ f = .path

lemma Setting.Named.mem (h : s.Named name value) (hl : l.Takes s.flag) : s.flag ∈ l.flags := by
  refine hl.resolve_right fun hp => ?_
  cases h <;> simp [flag] at hp

lemma Ready.attached (hr : Ready r g) (h : s.Named name value) (hnew : g.has s.flag = false)
    (hl : l.Takes s.flag) : ∃ r', readArg l r (name ++ equals :: value) = .ok r' ∧
      Ready r' (s.addTo g) := by
  obtain ⟨rfl, hv⟩ := h.name_eq
  refine ⟨{ r with given := s.addTo g, pending := none, wantsValue := false }, ?_, ?_⟩
  · unfold readArg readFlag
    rw [hr.options, List.cons_append, List.cons_append, shapeOf_attached s.flag.name_clean.1]
    simp only [Bool.false_eq_true, if_false, Level.flag?_name (h.mem hl), hv, hr.settled,
      Except.ok_bind, h.set hnew]
    rfl
  · exact ⟨rfl, by simp [Reading.hasPath], hr.options, rfl⟩

lemma Ready.apart (hr : Ready r g) (h : s.Named name value) (hnew : g.has s.flag = false)
    (hl : l.Takes s.flag) (hd : NoDash value) :
    ∃ q r', readArg l r name = .ok q ∧ q.wantsValue = true ∧ readArg l q value = .ok r' ∧
      Ready r' (s.addTo g) := by
  obtain ⟨rfl, hv⟩ := h.name_eq
  refine ⟨{ r with given := g, pending := some (s.flag, none), wantsValue := true },
    { r with given := g, pending := some (s.flag, some value), wantsValue := false }, ?_, rfl, ?_,
      ?_⟩
  · unfold readArg readFlag
    rw [hr.options, shapeOf_apart s.flag.name_clean.1 s.flag.name_clean.2]
    simp only [Bool.false_eq_true, if_false, Level.flag?_name (h.mem hl), hv, hr.settled,
      Except.ok_bind]
    rfl
  · unfold readArg
    simp only [hr.options, Bool.false_eq_true, if_false, shapeOf_noDash hd]
  · refine ⟨h.set hnew, ?_, hr.options, rfl⟩
    rw [Setting.has_addTo, Reading.hasPath, Bool.or_comm]
    simp

lemma Ready.noSudo (hr : Ready r g) (hnew : g.has .noSudo = false) (hl : l.Takes .noSudo) :
    ∃ r', readArg l r (.ofString "--no-sudo") = .ok r' ∧ Ready r' (Setting.noSudo.addTo g) := by
  have hmem : Flag.noSudo ∈ l.flags := hl.resolve_right (by simp)
  refine ⟨{ r with given := { g with noSudo := true }, pending := none, wantsValue := false }, ?_,
    ?_⟩
  · have hshape : shapeOf (.ofString "--no-sudo") = .long (.ofString "no-sudo") none := by decide
    have hflag : l.flag? (.ofString "no-sudo") = some .noSudo := Level.flag?_name hmem
    unfold readArg readFlag
    rw [hr.options, hshape]
    simp only [Bool.false_eq_true, if_false, hflag, Flag.takesValue, hr.settled, Except.ok_bind,
      Given.set, hnew]
    rfl
  · exact ⟨rfl, by simp [Reading.hasPath, Setting.addTo, Given.has], hr.options, rfl⟩

lemma Ready.path {file : Path} (hr : Ready r g) (hnew : g.has .path = false)
    (hl : l.Takes .path) (hne : file ≠ []) (hd : NoDash file) :
    ∃ r', readArg l r file = .ok r' ∧ Ready r' ((Setting.path file).addTo g) := by
  obtain rfl : l = .verb .checksum := by
    rcases hl with hmem | ⟨rfl, -⟩
    · rcases l with _ | v
      · simp [Level.flags] at hmem
      · cases v <;> simp [Level.flags] at hmem
    · rfl
  refine ⟨{ r with given := g, pending := some (.path, some file), wantsValue := false }, ?_, ?_⟩
  · unfold readArg readPlain
    simp only [hr.options, Bool.false_eq_true, if_false, shapeOf_noDash hd, hr.done, hr.hasPath,
      hnew, hr.settled, Except.ok_bind]
    rfl
  · refine ⟨?_, ?_, hr.options, rfl⟩
    · simp [settle, Given.set, hnew, hne, Setting.addTo]
    · simp [Reading.hasPath, Setting.addTo, Given.has]

lemma Ready.written (hr : Ready r g) (hw : s.Written words) (hnew : g.has s.flag = false)
    (hl : l.Takes s.flag) :
    ∃ r', words.foldlM (readArg l) r = .ok r' ∧ Ready r' (s.addTo g) := by
  cases hw with
  | attached h =>
    obtain ⟨r', ha, hr'⟩ := hr.attached h hnew hl
    exact ⟨r', by simp [ha], hr'⟩
  | apart h hd =>
    obtain ⟨q, r', ha, -, hv, hr'⟩ := hr.apart h hnew hl hd
    exact ⟨r', by simp [ha, hv], hr'⟩
  | noSudo =>
    obtain ⟨r', ha, hr'⟩ := hr.noSudo hnew hl
    exact ⟨r', by simp [ha], hr'⟩
  | path hne hd =>
    obtain ⟨r', ha, hr'⟩ := hr.path hnew hl hne hd
    exact ⟨r', by simp [ha], hr'⟩

/-! ### All settings -/

variable {ss settings : List Setting} {v : Verb} {c : Command} {file : Option Path}

lemma Ready.writtenAll (hr : Ready r g) (hw : WrittenAll ss words)
    (hnew : ∀ s ∈ ss, g.has s.flag = false) (hl : ∀ s ∈ ss, l.Takes s.flag)
    (hnodup : (ss.map Setting.flag).Nodup) :
    ∃ r', words.foldlM (readArg l) r = .ok r' ∧ Ready r' (ss.foldl Setting.addTo g) := by
  induction hw generalizing r g with
  | nil => exact ⟨r, rfl, hr⟩
  | @cons s ss words more h _ ih =>
    obtain ⟨hs, hnodup⟩ := List.nodup_cons.mp hnodup
    obtain ⟨q, hq, hq'⟩ := hr.written h (hnew s (List.mem_cons_self ..))
      (hl s (List.mem_cons_self ..))
    have hstill : ∀ s' ∈ ss, (s.addTo g).has s'.flag = false := by
      intro s' hs'
      have hne : s.flag ≠ s'.flag := fun he => hs (he ▸ List.mem_map_of_mem hs')
      rw [Setting.has_addTo, hnew s' (List.mem_cons_of_mem _ hs'), beq_false_of_ne hne]
      rfl
    obtain ⟨r', hr', hready⟩ :=
      ih hq' hstill (fun s' hs' => hl s' (List.mem_cons_of_mem _ hs')) hnodup
    exact ⟨r', by simp [List.foldlM_append, hq, hr'], hready⟩

/-- What settings come to together. -/
def collect (ss : List Setting) : Given := ss.foldl Setting.addTo {}

lemma collect_perm (h : ss.Perm settings) (hnodup : (ss.map Setting.flag).Nodup) :
    collect ss = collect settings := by
  refine h.foldl_eq' (fun x hx y hy z => ?_) ({} : Given)
  by_cases hf : x.flag = y.flag
  · rw [List.inj_on_of_nodup_map hnodup hx hy hf]
  · exact Setting.addTo_comm hf

lemma readAll_written (hw : WrittenAll ss words) (hl : ∀ s ∈ ss, l.Takes s.flag)
    (hnodup : (ss.map Setting.flag).Nodup) : readAll l {} words = .ok (collect ss) := by
  have hnew : ∀ s ∈ ss, ({} : Given).has s.flag = false := by
    intro s _
    cases s <;> rfl
  obtain ⟨r, hr, hready⟩ := ready_start.writtenAll hw hnew hl hnodup
  rw [readAll, hr, Except.ok_bind, hready.settled, collect]

/-! ### In front of the command -/

lemma noDash_name (v : Verb) : NoDash (.ofString v.name) := by
  cases v <;> decide

lemma ofName?_name (v : Verb) : Verb.ofName? (.ofString v.name) = some v := by
  cases v <;> rfl

lemma ofName?_dash (h : ¬ NoDash arg) : Verb.ofName? arg = none := by
  unfold Verb.ofName?
  rw [List.find?_eq_none]
  intro v _ hv
  obtain rfl : Bytes.ofString v.name = arg := by simpa using hv
  exact h (noDash_name v)

lemma readTop_value {q : Reading} (hr : r.wantsValue = true)
    (h : readArg .top r arg = .ok q) (rest : List Bytes) :
    readTop r (arg :: rest) = readTop q rest := by
  rw [readTop, if_pos (.inr hr), h, Except.ok_bind]

lemma Ready.option {q : Reading} (hr : Ready r g) (hd : ¬ NoDash arg)
    (h : readArg .top r arg = .ok q) (rest : List Bytes) :
    readTop r (arg :: rest) = readTop q rest := by
  have hhelp : arg ≠ .ofString "help" := by
    rintro rfl
    exact hd (by decide)
  rw [readTop, if_neg (by simp [hr.options, hr.done]), if_neg hhelp, ofName?_dash hd]
  simp only [h, Except.ok_bind]

lemma Setting.Named.dash (h : s.Named name value) (rest : Bytes) : ¬ NoDash (name ++ rest) := by
  simp [h.name_eq.1, NoDash]

/-- A configuration that is named in front of a command is taken up there. -/
lemma Ready.front {file : Path} (hr : Ready r g) (hw : (Setting.config file).Written words)
    (hnew : g.has .config = false) :
    ∃ q, (∀ rest, readTop r (words ++ rest) = readTop q rest) ∧
      Ready q ((Setting.config file).addTo g) := by
  have hl : Level.top.Takes .config := .inl (List.mem_cons_self ..)
  generalize hs : Setting.config file = s at hw
  cases hw with
  | attached h =>
    subst hs
    obtain ⟨q, ha, hq⟩ := hr.attached h hnew hl
    exact ⟨q, fun rest => hr.option (h.dash _) ha rest, hq⟩
  | @apart _ name value h hd =>
    subst hs
    obtain ⟨q, q', ha, hwants, hv, hq⟩ := hr.apart h hnew hl hd
    refine ⟨q', fun rest => ?_, hq⟩
    have hdash : ¬ NoDash name := by simpa using h.dash []
    show readTop r (name :: value :: rest) = _
    rw [hr.option hdash ha, readTop_value hwants hv]
  | noSudo => simp at hs
  | path => simp at hs

lemma Ready.verb (hr : Ready r g) (v : Verb) (rest : List Bytes) :
    readTop r (.ofString v.name :: rest) = (readAll (.verb v) {} rest).map fun g' =>
      ⟨g'.config.or g.config, commandOf v g'⟩ := by
  have hhelp : Bytes.ofString v.name ≠ .ofString "help" := by cases v <;> decide
  rw [readTop, if_neg (by simp [hr.options, hr.done]), if_neg hhelp, ofName?_name]
  simp only
  rcases readAll (.verb v) {} rest with e | g'
  · rfl
  · rw [Except.ok_bind, hr.settled]
    rfl

/-! ### The whole line -/

/-- Settings that a command is made of, the configuration included. -/
structure MakesUp (settings : List Setting) (v : Verb) (i : Invocation) : Prop where
  takes : ∀ s ∈ settings, (Level.verb v).Takes s.flag
  nodup : (settings.map Setting.flag).Nodup
  config : (collect settings).config = i.config
  command : commandOf v (collect settings) = i.command

/-- What a command asks for is what it is made of. -/
lemma Command.Asks.makesUp {name : String} (h : c.Asks name settings) (file : Option Path) :
    ∃ v : Verb, v.name = name ∧ MakesUp (file.toList.map .config ++ settings) v ⟨file, c⟩ := by
  cases h with
  | checksum path =>
    refine ⟨.checksum, rfl, ?_⟩
    rcases file with _ | f <;>
      exact ⟨by simp [Setting.flag, Level.Takes, Level.flags], by simp [Setting.flag], rfl, rfl⟩
  | usual =>
    refine ⟨.checksum, rfl, ?_⟩
    rcases file with _ | f <;>
      exact ⟨by simp [Setting.flag, Level.Takes, Level.flags], by simp, rfl, rfl⟩
  | url commit =>
    refine ⟨.url, rfl, ?_⟩
    rcases file with _ | f <;> rcases commit with _ | c <;>
      exact ⟨by simp [Setting.flag, Level.Takes, Level.flags], by simp [Setting.flag], rfl, rfl⟩
  | build workDir commit jobs noSudo =>
    refine ⟨.build, rfl, ?_⟩
    rcases file with _ | f <;> rcases workDir with _ | d <;> rcases commit with _ | c <;>
      rcases jobs with _ | n <;> rcases noSudo <;>
      exact ⟨by simp [Setting.flag, Level.Takes, Level.flags], by simp [Setting.flag], rfl, rfl⟩

lemma MakesUp.perm {i : Invocation} (h : MakesUp settings v i) (hp : ss.Perm settings) :
    MakesUp ss v i := by
  have hnodup : (ss.map Setting.flag).Nodup := (hp.map Setting.flag).nodup_iff.mpr h.nodup
  have hc := collect_perm hp hnodup
  exact ⟨fun s hs => h.takes s (hp.mem_iff.mp hs), hnodup, hc ▸ h.config, hc ▸ h.command⟩

/-- **Round trip**: a command line that spells out a command is read as that command. -/
theorem parse_spelled {i : Invocation} {args : List Bytes} (h : Spelled i args) :
    parse args = .ok i := by
  cases h with
  | @front file name c settings ss before after config asks order options =>
    obtain ⟨v, rfl, hmakes⟩ := asks.makesUp none
    have hss := hmakes.perm order
    obtain ⟨q, hq, hready⟩ := ready_start.front config rfl
    rw [parse, hq, hready.verb, readAll_written options hss.takes hss.nodup]
    simp only [Except.map, hss.config, hss.command]
    rfl
  | @among file name c settings ss after asks order options =>
    obtain ⟨v, rfl, hmakes⟩ := asks.makesUp file
    have hss := hmakes.perm order
    rw [parse, ready_start.verb, readAll_written options hss.takes hss.nodup]
    simp only [Except.map, hss.config, hss.command, Option.or_none]

/-- A command line whose values look like commands and options, and of which one is empty and one
is no text. -/
theorem parse_spelled_lookalikes :
    Spelled ⟨some [255], .build (some (.ofString "--jobs")) (some "") (some 4294967295) true⟩
        (.ofString "--config" :: [255] :: ["build", "--no-sudo", "--work-dir=--jobs", "--jobs",
          "4294967295", "--commit="].map .ofString) ∧
      parse (.ofString "--config" :: [255] :: ["build", "--no-sudo", "--work-dir=--jobs", "--jobs",
          "4294967295", "--commit="].map .ofString) =
        .ok ⟨some [255], .build (some (.ofString "--jobs")) (some "") (some 4294967295) true⟩ := by
  have hfront : (Setting.config [255]).Written [.ofString "--config", [255]] :=
    .apart (.config (by decide)) (by decide)
  have hback : WrittenAll [.noSudo, .workDir (.ofString "--jobs"), .jobs 4294967295, .commit ""]
      (["--no-sudo", "--work-dir=--jobs", "--jobs", "4294967295", "--commit="].map .ofString) :=
    .cons .noSudo (.cons (.attached (.workDir (by decide)))
      (.cons (.apart (.jobs 4294967295) (by decide)) (.cons (.attached (.commit "")) .nil)))
  have h : Spelled
      ⟨some [255], .build (some (.ofString "--jobs")) (some "") (some 4294967295) true⟩
      (.ofString "--config" :: [255] :: ["build", "--no-sudo", "--work-dir=--jobs", "--jobs",
        "4294967295", "--commit="].map .ofString) :=
    .front hfront (.build (some (.ofString "--jobs")) (some "") (some 4294967295) true) (by decide)
      hback
  exact ⟨h, parse_spelled h⟩

end PinnedBuild.CommandLine
