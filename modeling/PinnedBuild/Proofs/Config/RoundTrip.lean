import Mathlib
import PinnedBuild.Config.Store
import PinnedBuild.Proofs.Files.Operations
import PinnedBuild.Proofs.Toml.Lines

/-!
Every configuration is read back as it was written, from its text and from a file.
-/

namespace PinnedBuild.Config

open Files FileTree PinnedBuild.Toml

/-! ### The text -/

/-- The configure options as they are written. -/
def cmakeFields (c : CmakeConfig) : List Field :=
  [⟨"generator", Writer.string c.generator.toList, .string c.generator⟩,
   ⟨"build_type", Writer.string c.buildType.toList, .string c.buildType⟩,
   ⟨"export_compile_commands", Writer.boolean c.exportCompileCommands,
    .boolean c.exportCompileCommands⟩,
   ⟨"targets", Writer.strings c.targets, .array false (c.targets.map .string)⟩,
   ⟨"include_tests", Writer.boolean c.includeTests, .boolean c.includeTests⟩,
   ⟨"assertions", Writer.boolean c.assertions, .boolean c.assertions⟩,
   ⟨"projects", Writer.strings c.projects, .array false (c.projects.map .string)⟩]

/-- The keys before them. -/
def fields (c : Config) : List Field :=
  [⟨"commit", Writer.string c.commit.toList, .string c.commit⟩,
   ⟨"archive_name", Writer.string c.archiveName.toList, .string c.archiveName⟩]
  ++ (match c.expectedSha256 with
      | some d => [⟨"expected_sha256", Writer.string d.toList, .string d⟩]
      | none => [])
  ++ [⟨"build_dir", Writer.string c.buildDir.toList, .string c.buildDir⟩,
      ⟨"build_jobs", Nat.toDigits 10 c.buildJobs.toNat, .integer c.buildJobs.toNat⟩,
      ⟨"install_with_sudo", Writer.boolean c.installWithSudo, .boolean c.installWithSudo⟩]

lemma render_eq (c : Config) : render c = String.ofList ((fields c).flatMap Field.write ++
    '\n' :: headerOf "cmake" ++ (cmakeFields c.cmake).flatMap Field.write) := by
  unfold render fields
  rcases c.expectedSha256 with _ | d
  · simp [Field.write, renderCmake, cmakeFields, headerOf]
  · simp [Field.write, renderCmake, cmakeFields, headerOf]

/-- All keys of a configuration. -/
def keys : List String :=
  ["commit", "archive_name", "expected_sha256", "build_dir", "build_jobs", "install_with_sudo",
   "cmake", "generator", "build_type", "export_compile_commands", "targets", "include_tests",
   "assertions", "projects"]

lemma bareKey_of_mem : ∀ key ∈ keys, BareKey key := by simp [keys, BareKey, isBare]

lemma good_of_mem {key : String} {w : List Char} {v : Value} (hw : Written w v)
    (hk : key ∈ keys) : Field.Good ⟨key, w, v⟩ := ⟨bareKey_of_mem key hk, hw⟩

lemma good_cmakeFields (c : CmakeConfig) : ∀ f ∈ cmakeFields c, f.Good := by
  simp only [cmakeFields, List.forall_mem_cons]
  exact ⟨good_of_mem (written_string _) (by simp [keys]),
    good_of_mem (written_string _) (by simp [keys]),
    good_of_mem (written_boolean _) (by simp [keys]),
    good_of_mem (written_strings _) (by simp [keys]),
    good_of_mem (written_boolean _) (by simp [keys]),
    good_of_mem (written_boolean _) (by simp [keys]),
    good_of_mem (written_strings _) (by simp [keys]), by simp⟩

lemma good_fields (c : Config) : ∀ f ∈ fields c, f.Good := by
  have hjobs : Written (Nat.toDigits 10 c.buildJobs.toNat) (.integer c.buildJobs.toNat) := by
    have := c.buildJobs.toNat_lt
    exact written_toDigits (by omega)
  unfold fields
  rcases c.expectedSha256 with _ | d
  all_goals
    simp only [List.forall_mem_append, List.forall_mem_cons]
    refine ⟨⟨⟨good_of_mem (written_string _) (by simp [keys]),
      good_of_mem (written_string _) (by simp [keys]), by simp⟩, ?_⟩,
      good_of_mem (written_string _) (by simp [keys]), good_of_mem hjobs (by simp [keys]),
      good_of_mem (written_boolean _) (by simp [keys]), by simp⟩
  · simp
  · exact ⟨good_of_mem (written_string _) (by simp [keys]), by simp⟩

lemma nodup_keys (c : Config) : ((fields c).map Field.key ++ ["cmake"]).Nodup := by
  unfold fields
  rcases c.expectedSha256 with _ | d
  · show ["commit", "archive_name", "build_dir", "build_jobs", "install_with_sudo", "cmake"].Nodup
    decide
  · show ["commit", "archive_name", "expected_sha256", "build_dir", "build_jobs",
      "install_with_sudo", "cmake"].Nodup
    decide

lemma nodup_cmakeKeys (c : CmakeConfig) : ((cmakeFields c).map Field.key).Nodup := by
  show ["generator", "build_type", "export_compile_commands", "targets", "include_tests",
    "assertions", "projects"].Nodup
  decide

lemma mapM_decodeString (l : List String) : (l.map Value.string).mapM decodeString = .ok l := by
  induction l with
  | nil => rfl
  | cons x l ih =>
    rw [List.map_cons, List.mapM_cons, ih]
    rfl

lemma decodeCmake_fields (c : CmakeConfig) :
    decodeCmake (.table .header ((cmakeFields c).map Field.entry)) = .ok c := by
  have ht := mapM_decodeString c.targets
  have hp := mapM_decodeString c.projects
  simp only [decodeCmake, decodeEntries, cmakeFields, Field.entry, List.map_cons, List.map_nil,
    List.foldlM_cons, List.foldlM_nil, CmakeDraft.known, decodeString, decodeBool, decodeStrings,
    ht, hp]
  rfl

lemma decode_fields (c : Config) : decode ((fields c).map Field.entry ++
    [("cmake", .table .header ((cmakeFields c.cmake).map Field.entry))]) =
    .ok c := by
  have hjobs : decodeU32 (.integer c.buildJobs.toNat) = .ok c.buildJobs := by
    have h := c.buildJobs.toNat_lt
    rw [decodeU32, if_pos ⟨by omega, by exact_mod_cast h⟩]
    simp
  have hcmake := decodeCmake_fields c.cmake
  rcases c with ⟨commit, archiveName, _ | digest, buildDir, buildJobs, installWithSudo, cmake⟩
  all_goals
    simp only [decode, decodeEntries, fields, Field.entry, List.map_cons, List.map_nil,
      List.foldlM_cons, List.foldlM_nil, Draft.known, decodeString, decodeBool, hjobs, hcmake,
      List.cons_append, List.nil_append]
    rfl

/-- **Round trip**: what is written for a configuration is read as that configuration. -/
theorem parse_render (c : Config) : parse (render c) = .ok c := by
  have hdoc := document?_fields (good_fields c) (good_cmakeFields c.cmake)
    (bareKey_of_mem "cmake" (by simp [keys])) (nodup_keys c) (nodup_cmakeKeys c.cmake)
  rw [parse, render_eq, hdoc]
  show (decode _).mapError ParseError.data = _
  rw [decode_fields]
  rfl

/-! ### The file -/

lemma load_of_file {c : Config} {t : FileTree} {path : Path} {l : Location} {id : Nat} {f : File}
    (hl : t.lookup true path = .ok (l, .file id)) (hf : t.file? id = some f)
    (hr : t.user.mayRead f.mode = true) (hc : f.content = Bytes.ofString (render c)) :
    load t path = .ok c := by
  unfold load
  rw [FileOp.readAll_file hl hf hr, hc]
  simp only
  rw [Bytes.decode?_ofString]
  simp only
  rw [parse_render]
  rfl

/-- **Round trip**: the text of a configuration is read back as that configuration, and so is the
file that it is written to, where nothing was before or over a file that may be read. -/
theorem load_written (c : Config) : parse (render c) = .ok c ∧
    ∀ (t t' : FileTree) (path : Path),
      (FileAct.writeFile path (Bytes.ofString (render c))).run t = (.ok (), t') →
      (t.isThere path = false ∨ ∃ id, (FileOp.openRead path).run t' = .ok (.file id, t')) →
        load t' path = .ok c := by
  refine ⟨parse_render c, fun t t' path hw hr => ?_⟩
  rcases hr with hn | ⟨id, ho⟩
  · rcases FileOp.writeFile_ok hw with ⟨l, id, f, hl, hf, hc, hm⟩ | ⟨l, d, -, ht⟩
    · refine load_of_file hl hf ?_ hc
      rw [hm hn]
      exact FileOp.mayRead_newFileMode _
    · simp [hn] at ht
  · obtain ⟨-, ho⟩ := FileOp.openRead_ok ho
    obtain ⟨l, f, hl, hf, hm⟩ := ho id rfl
    rcases FileOp.writeFile_ok hw with ⟨l', id', f', hl', hf', hc, -⟩ | ⟨l', d, hl', -⟩
    · obtain ⟨-, hid⟩ := Prod.mk.inj (Except.ok.inj (hl.symm.trans hl'))
      obtain rfl := Node.file.inj hid
      obtain rfl := Option.some.inj (hf.symm.trans hf')
      exact load_of_file hl hf hm hc
    · exact absurd (Prod.mk.inj (Except.ok.inj (hl.symm.trans hl'))).2 (by simp)

/-- A configuration whose strings need every form of quotes. -/
def quoted : Config :=
  { commit := "\"", archiveName := "'\n", expectedSha256 := none, buildDir := "\t\\",
    buildJobs := 4294967295, cmake := { targets := [], projects := ["", "\"'"] } }

/-- The file is not there before. -/
theorem load_written_quoted :
    ((FileAct.writeFile [102] (Bytes.ofString (render quoted))).run .empty).1 = .ok () ∧
      FileTree.empty.isThere [102] = false ∧
      load ((FileAct.writeFile [102] (Bytes.ofString (render quoted))).run .empty).2 [102] =
        .ok quoted := by
  have hw : ((FileAct.writeFile [102] (Bytes.ofString (render quoted))).run .empty).1 = .ok () :=
    rfl
  have hn : FileTree.empty.isThere [102] = false := by decide
  exact ⟨hw, hn, (load_written quoted).2 _ _ _ (Prod.ext hw rfl) (.inl hn)⟩

end PinnedBuild.Config
