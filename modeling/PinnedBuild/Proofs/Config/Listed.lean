import Mathlib
import PinnedBuild.Proofs.Config.Decode

/-!
Configure options that are listed in the order of their declaration, and the same options under
their names. Both are decoded one after the other, so that they come to the same options or fail at
the same one.
-/

namespace PinnedBuild.Config

open Files PinnedBuild.Toml

variable {v v' : Value} {vs : List Value} {es es' : Entries} {c : Config}

/-- The names of the options in the order of their declaration. -/
def optionNames : List String :=
  ["generator", "build_type", "export_compile_commands", "targets", "include_tests", "assertions",
   "projects"]

/-- The keys that stand beside the options. -/
def plainKeys : List String :=
  ["commit", "archive_name", "expected_sha256", "build_dir", "build_jobs", "install_with_sudo"]

/-- Listed options under their names. -/
def named (vs : List Value) : Entries := optionNames.zip vs

/-- A known key is decoded before all that comes after it. -/
lemma decodeEntries_known {σ α : Type} {known : String → Option (σ → Value → Except DataError σ)}
    {key : String} {decoder : Decoder α} {set : σ → α → σ}
    (hk : known key = some fun s v => (decoder v).map (set s)) (s : σ) (v : Value) (es : Entries) :
    decodeEntries known s ((key, v) :: es) =
      decoder v >>= fun x => decodeEntries known (set s x) es := by
  rw [decodeEntries_cons, hk]
  simp only
  rcases decoder v with e | x <;> rfl

lemma decodeEntries_append {σ : Type} (known : String → Option (σ → Value → Except DataError σ))
    (s : σ) (es es' : Entries) :
    decodeEntries known s (es ++ es') =
      decodeEntries known s es >>= fun s => decodeEntries known s es' := List.foldlM_append

/-- Six or seven options are decoded alike in both forms, and fail with the same error. -/
lemma decodeCmake_named (h : vs.length = 6 ∨ vs.length = 7) (g : Bool) (o : Origin) :
    decodeCmake (.table o (named vs)) = decodeCmake (.array g vs) := by
  obtain ⟨v₁, v₂, v₃, v₄, v₅, v₆, rest, rfl, hrest⟩ :
      ∃ v₁ v₂ v₃ v₄ v₅ v₆ rest, vs = v₁ :: v₂ :: v₃ :: v₄ :: v₅ :: v₆ :: rest ∧
        rest.length ≤ 1 := by
    match vs, h with
    | [_, _, _, _, _, _], _ => exact ⟨_, _, _, _, _, _, _, rfl, by simp⟩
    | [_, _, _, _, _, _, _], _ => exact ⟨_, _, _, _, _, _, _, rfl, by simp⟩
  have hstart : decodeCmake (.table o (named (v₁ :: v₂ :: v₃ :: v₄ :: v₅ :: v₆ :: rest))) =
      decodeEntries CmakeDraft.known {} (("generator", v₁) :: ("build_type", v₂) ::
        ("export_compile_commands", v₃) :: ("targets", v₄) :: ("include_tests", v₅) ::
        ("assertions", v₆) :: ["projects"].zip rest) >>= CmakeDraft.complete := rfl
  rw [hstart, decodeEntries_known rfl, bind_assoc]
  refine bind_congr fun generator => ?_
  rw [decodeEntries_known rfl, bind_assoc]
  refine bind_congr fun buildType => ?_
  rw [decodeEntries_known rfl, bind_assoc]
  refine bind_congr fun exportCompileCommands => ?_
  rw [decodeEntries_known rfl, bind_assoc]
  refine bind_congr fun targets => ?_
  rw [decodeEntries_known rfl, bind_assoc]
  refine bind_congr fun includeTests => ?_
  rw [decodeEntries_known rfl, bind_assoc]
  refine bind_congr fun assertions => ?_
  match rest, hrest with
  | [], _ => rfl
  | [v₇], _ =>
    show decodeEntries CmakeDraft.known _ (("projects", v₇) :: []) >>= CmakeDraft.complete = _
    rw [decodeEntries_known rfl, bind_assoc]
    exact bind_congr fun projects => rfl

/-- Fewer than six options are never enough. -/
lemma decodePositions_short (h : vs.length < 6) : ∃ e, decodePositions vs = .error e := by
  rcases hd : decodePositions vs with e | c
  · exact ⟨e, rfl⟩
  · obtain ⟨g, rest, rfl, -⟩ := decodePositions_ok.mp hd
    simp only [List.length_append, List.length_cons, List.length_nil] at h
    omega

/-! ### The whole document -/

/-- Two forms of the options in the same place make no difference to the document. -/
lemma decode_replace (h : decodeCmake v = decodeCmake v') (front rest : Entries) :
    decode (front ++ ("cmake", v) :: rest) = decode (front ++ ("cmake", v') :: rest) := by
  have hstep : ∀ d : Draft, decodeEntries Draft.known d (("cmake", v) :: rest) =
      decodeEntries Draft.known d (("cmake", v') :: rest) := by
    intro d
    rw [decodeEntries_known rfl, decodeEntries_known rfl, h]
  unfold decode
  rw [decodeEntries_append, decodeEntries_append, bind_congr hstep]

lemma Told.replace (hd : Distinct es) (hd' : Distinct es') (hl : es.lookup "cmake" = some v)
    (hl' : es'.lookup "cmake" = some v') (h : decodeCmake v = decodeCmake v')
    (hk : ∀ k ∈ plainKeys, es'.lookup k = es.lookup k) (ht : Told es c) : Told es' c where
  commit := (hk _ (by simp [plainKeys])).trans ht.commit
  archiveName := (hk _ (by simp [plainKeys])).trans ht.archiveName
  expectedSha256 := (hk _ (by simp [plainKeys])).trans ht.expectedSha256
  buildDir := (hk _ (by simp [plainKeys])).trans ht.buildDir
  buildJobs := (hk _ (by simp [plainKeys])).trans ht.buildJobs
  installWithSudo := (hk _ (by simp [plainKeys])).trans ht.installWithSudo
  cmake := by
    have hok : decodeCmake v' = .ok c.cmake := h ▸ ht.cmake_ok hd hl
    rw [hl']
    rcases (decodeCmake_ok (hd'.lookup hl')).mp hok with ⟨o, t, rfl, htold⟩ | ⟨g, vs, rfl, hlisted⟩
    · exact .inr (.inl ⟨o, t, rfl, htold⟩)
    · exact .inr (.inr ⟨g, vs, rfl, hlisted⟩)

lemma load_document {t t' : FileTree} {path : Path} {text : String}
    (hr : (FileOp.readAll path).run t = .ok (Bytes.ofString text, t'))
    (hd : document? text = some es) :
    load t path = (decode es).mapError fun e => .noConfig path (.data e) := by
  unfold load
  rw [hr]
  simp only
  rw [Bytes.decode?_ofString]
  simp only [parse, hd]
  rcases decode es with e | c <;> rfl

/-- **Listed options**: a document that lists six or seven options comes to the configuration that
it comes to with them under their names, or to none in both forms, and it fails with the same error
if they stand in the same place. One that lists fewer is refused. -/
theorem load_listed {t t' : FileTree} {path : Path} {text : String} {g : Bool}
    (hr : (FileOp.readAll path).run t = .ok (Bytes.ofString text, t'))
    (hd : document? text = some es) (hl : es.lookup "cmake" = some (.array g vs)) :
    (vs.length < 6 → ∃ e, load t path = .error (.noConfig path (.data e))) ∧
      (vs.length = 6 ∨ vs.length = 7 →
        ∀ (u u' : FileTree) (path' : Path) (text' : String) (es' : Entries) (o : Origin),
          (FileOp.readAll path').run u = .ok (Bytes.ofString text', u') →
          document? text' = some es' → es'.lookup "cmake" = some (.table o (named vs)) →
          (∀ k ∈ plainKeys, es'.lookup k = es.lookup k) →
            (∀ c, load t path = .ok c ↔ load u path' = .ok c) ∧
            ∀ front rest, es = front ++ ("cmake", .array g vs) :: rest →
              es' = front ++ ("cmake", .table o (named vs)) :: rest →
              ∀ e, load t path = .error (.noConfig path e) ↔
                load u path' = .error (.noConfig path' e)) := by
  have hdistinct := distinct_document hd
  refine ⟨fun hshort => ?_, fun hlen u u' path' text' es' o hr' hd' hl' hk => ⟨fun c => ?_, ?_⟩⟩
  · rw [load_document hr hd]
    rcases hdec : decode es with e | c
    · exact ⟨e, rfl⟩
    · obtain ⟨e, he⟩ := decodePositions_short hshort
      have hok : decodeCmake (.array g vs) = .ok c.cmake :=
        ((decode_ok hdistinct).mp hdec).cmake_ok hdistinct hl
      simp [decodeCmake, he] at hok
  · have halike := decodeCmake_named hlen g o
    have hdistinct' := distinct_document hd'
    rw [load_ok hr hd, load_ok hr' hd']
    exact ⟨fun ht => ht.replace hdistinct hdistinct' hl hl' halike.symm hk,
      fun ht => ht.replace hdistinct' hdistinct hl' hl halike fun k hm => (hk k hm).symm⟩
  · rintro front rest rfl rfl e
    rw [load_document hr hd, load_document hr' hd',
      decode_replace (decodeCmake_named hlen g o).symm]
    rcases decode (front ++ ("cmake", .table o (named vs)) :: rest) with e' | c
    · simp [Except.mapError]
    · simp [Except.mapError]

/-- What seven options and the keys beside them come to. -/
def listedConfig : Config :=
  ⟨"c", "a", none, "b", 7, true, ⟨"g", "t", false, ["X86"], true, false, ["clang"]⟩⟩

def sevenOptions : List Value :=
  [.string "g", .string "t", .boolean false, .array false [.string "X86"], .boolean true,
   .boolean false, .array false [.string "clang"]]

/-- The same configuration with its options in a list. -/
def listedText : String := String.ofList ((fields listedConfig).flatMap Field.write ++
  "cmake = [\"g\", \"t\", false, [\"X86\"], true, false, [\"clang\"]]\n".toList)

lemma document?_listedText : document? listedText =
    some ((fields listedConfig).map Field.entry ++ [("cmake", .array false sevenOptions)]) := by
  have hline :
      lines? "cmake = [\"g\", \"t\", false, [\"X86\"], true, false, [\"clang\"]]\n".toList =
        some [.assign [] "cmake" (.array false sevenOptions)] := by cbv
  have hlines := lines?_fields (good_fields listedConfig)
    "cmake = [\"g\", \"t\", false, [\"X86\"], true, false, [\"clang\"]]\n".toList
  rw [hline] at hlines
  have hmark : ∀ rest, skipMark ((fields listedConfig).flatMap Field.write ++ rest) =
      (fields listedConfig).flatMap Field.write ++ rest := fun _ => rfl
  rw [document?, listedText, String.toList_ofList, hmark, hlines]
  rfl

/-- Seven values in a list and the same values under their names. -/
theorem load_listed_seven :
    document? listedText =
        some ((fields listedConfig).map Field.entry ++ [("cmake", .array false sevenOptions)]) ∧
      document? (render listedConfig) = some ((fields listedConfig).map Field.entry ++
        [("cmake", .table .header (named sevenOptions))]) ∧
      load (soleFile (Bytes.ofString (render listedConfig))) [102] = .ok listedConfig ∧
      load (soleFile (Bytes.ofString listedText)) [102] = .ok listedConfig := by
  have hr := readAll_soleFile (Bytes.ofString listedText)
  have hr' := readAll_soleFile (Bytes.ofString (render listedConfig))
  have hd := document?_listedText
  have hd' : document? (render listedConfig) = some ((fields listedConfig).map Field.entry ++
      [("cmake", .table .header (named sevenOptions))]) := by
    rw [render_eq]
    exact document?_fields (good_fields _) (good_cmakeFields _)
      (bareKey_of_mem "cmake" (by simp [keys])) (nodup_keys _) (nodup_cmakeKeys _)
  have hnamed : load (soleFile (Bytes.ofString (render listedConfig))) [102] =
      .ok listedConfig := by
    rw [load_document hr' hd']
    rfl
  have hplain : ∀ k ∈ plainKeys, ∀ v v' : Value,
      ((fields listedConfig).map Field.entry ++ [("cmake", v')]).lookup k =
      ((fields listedConfig).map Field.entry ++ [("cmake", v)]).lookup k := by
    rw [plainKeys]
    simp only [List.forall_mem_cons]
    exact ⟨fun _ _ => rfl, fun _ _ => rfl, fun _ _ => rfl, fun _ _ => rfl, fun _ _ => rfl,
      fun _ _ => rfl, by simp⟩
  exact ⟨hd, hd', hnamed,
    (((load_listed hr hd rfl).2 (.inr rfl) _ _ _ _ _ _ hr' hd' rfl
      fun k hk => hplain k hk _ _).1 _).mpr hnamed⟩

end PinnedBuild.Config
