import Mathlib
import PinnedBuild.Proofs.Config.RoundTrip
import PinnedBuild.Proofs.Toml.Distinct

/-!
Which documents are configurations, and of which configuration each of them tells.

A key stands in a document at most once, so that decoding the entries one after the other comes to
looking each known key up.
-/

namespace PinnedBuild.Config

open Files PinnedBuild.Toml

/-! ### Single values -/

section

variable {v : Value}

lemma map_ok {ε α β : Type} {r : Except ε α} {f : α → β} {y : β} :
    r.map f = .ok y ↔ ∃ x, r = .ok x ∧ f x = y := by
  rcases r with e | x
  · simp [Except.map]
  · simp [Except.map]

lemma bind_ok {ε α β : Type} {r : Except ε α} {f : α → Except ε β} {y : β} :
    (r >>= f) = .ok y ↔ ∃ x, r = .ok x ∧ f x = .ok y := by
  rcases r with e | x
  · simp
  · simp

lemma decodeString_ok {x : String} : decodeString v = .ok x ↔ v = .string x := by
  cases v <;> simp [decodeString]

lemma decodeBool_ok {x : Bool} : decodeBool v = .ok x ↔ v = .boolean x := by
  cases v <;> simp [decodeBool]

lemma decodeU32_ok {x : UInt32} : decodeU32 v = .ok x ↔ v = .integer x.toNat := by
  have hx := x.toNat_lt
  cases v with
  | integer n =>
    rw [decodeU32]
    split_ifs with hn
    · have hlt : n.toNat < UInt32.size := by omega
      simp only [Except.ok.injEq, Value.integer.injEq]
      constructor
      · rintro rfl
        rw [UInt32.toNat_ofNat_of_lt' hlt]
        omega
      · rintro rfl
        simp
    · simp only [Value.integer.injEq, false_iff]
      rintro rfl
      exact hn ⟨by omega, by exact_mod_cast hx⟩
  | _ => simp [decodeU32]

lemma mapM_decodeString_ok {vs : List Value} {xs : List String} :
    vs.mapM decodeString = .ok xs ↔ vs = xs.map .string := by
  constructor
  · intro h
    induction vs generalizing xs with
    | nil =>
      obtain rfl := Except.ok.inj h
      rfl
    | cons v vs ih =>
      rw [List.mapM_cons] at h
      obtain ⟨y, hy, h⟩ := bind_ok.mp h
      obtain ⟨ys, hys, h⟩ := bind_ok.mp h
      obtain rfl := Except.ok.inj h
      rw [decodeString_ok.mp hy, ih hys]
      rfl
  · rintro rfl
    exact mapM_decodeString xs

lemma decodeStrings_ok {xs : List String} :
    decodeStrings v = .ok xs ↔ ∃ g, v = .array g (xs.map .string) := by
  cases v with
  | array g vs => simp [decodeStrings, mapM_decodeString_ok]
  | _ => simp [decodeStrings]

end

/-! ### The entries of a table -/

section

variable {σ α : Type} {known : String → Option (σ → Value → Except DataError σ)} {es : Entries}
  {s s' : σ} {key : String} {decoder : Decoder α} {get : σ → Option α} {old new : Option α}

/-- What becomes of a field that a key is decoded into: nothing if the key is missing. -/
def Slot (es : Entries) (key : String) (decoder : Decoder α) (old new : Option α) : Prop :=
  match es.lookup key with
  | none => new = old
  | some v => ∃ x, decoder v = .ok x ∧ new = some x

/-- A key is decoded into a field of its own. -/
structure Owns (known : String → Option (σ → Value → Except DataError σ)) (key : String)
    (decoder : Decoder α) (get : σ → Option α) : Prop where
  own : ∃ f, known key = some f ∧
    ∀ s v s', f s v = .ok s' → ∃ x, decoder v = .ok x ∧ get s' = some x
  others : ∀ k f, known k = some f → k ≠ key → ∀ s v s', f s v = .ok s' → get s' = get s

lemma Owns.of_map (get : σ → Option α) {set : σ → α → σ}
    (hk : known key = some fun s v => (decoder v).map (set s))
    (hget : ∀ s x, get (set s x) = some x)
    (others : ∀ k f, known k = some f → k ≠ key → ∀ s v s', f s v = .ok s' → get s' = get s) :
    Owns known key decoder get where
  own := by
    refine ⟨_, hk, fun s v s' h => ?_⟩
    obtain ⟨x, hx, rfl⟩ := map_ok.mp h
    exact ⟨x, hx, hget s x⟩
  others := others

lemma decodeEntries_cons (k : String) (v : Value) (es : Entries) (s : σ) :
    decodeEntries known s ((k, v) :: es) = match known k with
      | some f => (f s v).bind fun s => decodeEntries known s es
      | none => decodeEntries known s es := by
  unfold decodeEntries
  rw [List.foldlM_cons]
  simp only
  rcases known k with _ | f <;> rfl

lemma Owns.slot (h : Owns known key decoder get) (hd : (es.map Prod.fst).Nodup)
    (hs : decodeEntries known s es = .ok s') : Slot es key decoder (get s) (get s') := by
  induction es generalizing s with
  | nil =>
    obtain rfl := Except.ok.inj hs
    exact rfl
  | cons e es ih =>
    rcases e with ⟨k, v⟩
    obtain ⟨hk, hrest⟩ := List.nodup_cons.mp hd
    rw [decodeEntries_cons] at hs
    unfold Slot
    rw [List.lookup_cons]
    by_cases hkey : k = key
    · subst hkey
      obtain ⟨f, hf, hown⟩ := h.own
      rw [hf] at hs
      rcases hv : f s v with e | s₁ <;> simp only [hv, Except.bind_error, Except.bind_ok] at hs
      · simp at hs
      obtain ⟨x, hx, hget⟩ := hown s v s₁ hv
      have hslot := ih hrest hs
      rw [Slot, lookup_of_notMem hk] at hslot
      rw [beq_self_eq_true]
      exact ⟨x, hx, hslot.trans hget⟩
    · rw [beq_false_of_ne (Ne.symm hkey)]
      rcases hf : known k with _ | f <;> simp only [hf] at hs
      · exact ih hrest hs
      rcases hv : f s v with e | s₁ <;> simp only [hv, Except.bind_error, Except.bind_ok] at hs
      · simp at hs
      rw [← h.others k f hf hkey s v s₁ hv]
      exact ih hrest hs

/-- Entries can be decoded if each can. -/
lemma decodeEntries_ok (hd : (es.map Prod.fst).Nodup)
    (h : ∀ k v, es.lookup k = some v → ∀ f, known k = some f → ∀ s, ∃ s', f s v = .ok s') (s : σ) :
    ∃ s', decodeEntries known s es = .ok s' := by
  have hmem : ∀ e ∈ es, ∀ f, known e.1 = some f → ∀ s, ∃ s', f s e.2 = .ok s' :=
    fun e he => h e.1 e.2 (lookup_of_mem hd he)
  clear h hd
  induction es generalizing s with
  | nil => exact ⟨s, rfl⟩
  | cons e es ih =>
    obtain ⟨he, hrest⟩ := List.forall_mem_cons.mp hmem
    rw [decodeEntries_cons e.1 e.2]
    rcases hf : known e.1 with _ | f
    · exact ih s hrest
    · obtain ⟨s₁, h₁⟩ := he f hf s
      simp only [h₁, Except.bind_ok]
      exact ih s₁ hrest

lemma Slot.found {x : α} (h : Slot es key decoder none (some x)) :
    ∃ v, es.lookup key = some v ∧ decoder v = .ok x := by
  unfold Slot at h
  split at h
  · simp at h
  · rename_i v hv
    obtain ⟨y, hy, hx⟩ := h
    obtain rfl := Option.some.inj hx
    exact ⟨v, hv, hy⟩

lemma Slot.missing (h : Slot es key decoder none none) : es.lookup key = none := by
  unfold Slot at h
  split at h
  · assumption
  · obtain ⟨y, -, hy⟩ := h
    simp at hy

lemma Slot.string {x : String} (h : Slot es key decodeString none (some x)) :
    es.lookup key = some (.string x) := by
  obtain ⟨v, hl, hv⟩ := h.found
  rw [hl, decodeString_ok.mp hv]

lemma Slot.boolean {x : Bool} (h : Slot es key decodeBool none (some x)) :
    es.lookup key = some (.boolean x) := by
  obtain ⟨v, hl, hv⟩ := h.found
  rw [hl, decodeBool_ok.mp hv]

lemma Slot.u32 {x : UInt32} (h : Slot es key decodeU32 none (some x)) :
    es.lookup key = some (.integer x.toNat) := by
  obtain ⟨v, hl, hv⟩ := h.found
  rw [hl, decodeU32_ok.mp hv]

lemma Slot.strings {xs : List String} (h : Slot es key decodeStrings none (some xs)) :
    ∃ g, es.lookup key = some (.array g (xs.map .string)) := by
  obtain ⟨v, hl, hv⟩ := h.found
  obtain ⟨g, rfl⟩ := decodeStrings_ok.mp hv
  exact ⟨g, hl⟩

lemma Slot.eq_some {v : Value} {x : α} (h : Slot es key decoder old new)
    (hl : es.lookup key = some v) (hx : decoder v = .ok x) : new = some x := by
  rw [Slot, hl] at h
  obtain ⟨y, hy, rfl⟩ := h
  rw [Except.ok.inj (hy.symm.trans hx)]

lemma Slot.eq_old (h : Slot es key decoder old new) (hl : es.lookup key = none) : new = old := by
  rwa [Slot, hl] at h

/-- What stands under a key can be decoded if it is known to be a value that can. -/
lemma map_decoded {v v' : Value} {x : α} {set : α → σ} (hl : es.lookup key = some v)
    (hl' : es.lookup key = some v') (hx : decoder v' = .ok x) :
    ∃ s', (decoder v).map set = .ok s' := by
  obtain rfl := Option.some.inj (hl.symm.trans hl')
  exact ⟨set x, map_ok.mpr ⟨x, hx, rfl⟩⟩

lemma required_ok {field : String} {o : Option α} {x : α} :
    required field o = .ok x ↔ o = some x := by
  rcases o with _ | y
  · simp [required]
  · simp [required]

end

/-! ### The configure options -/

/-- What a table says of the configure options. -/
structure CmakeTold (es : Entries) (c : CmakeConfig) : Prop where
  generator : es.lookup "generator" = some (.string c.generator)
  buildType : es.lookup "build_type" = some (.string c.buildType)
  exportCompileCommands :
    es.lookup "export_compile_commands" = some (.boolean c.exportCompileCommands)
  targets : ∃ g, es.lookup "targets" = some (.array g (c.targets.map .string))
  includeTests : es.lookup "include_tests" = some (.boolean c.includeTests)
  assertions : es.lookup "assertions" = some (.boolean c.assertions)
  projects : es.lookup "projects" = none ∧ c.projects = [] ∨
    ∃ g, es.lookup "projects" = some (.array g (c.projects.map .string))

namespace CmakeDraft

variable {k : String} {f : CmakeDraft → Value → Except DataError CmakeDraft} {d d' : CmakeDraft}
  {v : Value} {es : Entries} {c : CmakeConfig}

/-- No key changes the field of another. -/
structure Frame (k : String) (d d' : CmakeDraft) : Prop where
  generator : k ≠ "generator" → d'.generator = d.generator
  buildType : k ≠ "build_type" → d'.buildType = d.buildType
  exportCompileCommands :
    k ≠ "export_compile_commands" → d'.exportCompileCommands = d.exportCompileCommands
  targets : k ≠ "targets" → d'.targets = d.targets
  includeTests : k ≠ "include_tests" → d'.includeTests = d.includeTests
  assertions : k ≠ "assertions" → d'.assertions = d.assertions
  projects : k ≠ "projects" → d'.projects = d.projects

lemma frame (hk : known k = some f) (h : f d v = .ok d') : Frame k d d' := by
  unfold known at hk
  split at hk
  case h_8 => simp at hk
  all_goals
    obtain rfl := Option.some.inj hk
    obtain ⟨x, -, rfl⟩ := map_ok.mp h
    constructor <;> simp

/-- What becomes of each option. -/
structure Slots (es : Entries) (d : CmakeDraft) : Prop where
  generator : Slot es "generator" decodeString none d.generator
  buildType : Slot es "build_type" decodeString none d.buildType
  exportCompileCommands :
    Slot es "export_compile_commands" decodeBool none d.exportCompileCommands
  targets : Slot es "targets" decodeStrings none d.targets
  includeTests : Slot es "include_tests" decodeBool none d.includeTests
  assertions : Slot es "assertions" decodeBool none d.assertions
  projects : Slot es "projects" decodeStrings none d.projects

lemma slots (hd : (es.map Prod.fst).Nodup) (h : decodeEntries known {} es = .ok d) :
    Slots es d where
  generator := (Owns.of_map CmakeDraft.generator rfl (fun _ _ => rfl)
    fun _ _ hk hne _ _ _ h => (frame hk h).generator hne).slot hd h
  buildType := (Owns.of_map CmakeDraft.buildType rfl (fun _ _ => rfl)
    fun _ _ hk hne _ _ _ h => (frame hk h).buildType hne).slot hd h
  exportCompileCommands := (Owns.of_map CmakeDraft.exportCompileCommands rfl
    (fun _ _ => rfl) fun _ _ hk hne _ _ _ h => (frame hk h).exportCompileCommands hne).slot hd h
  targets := (Owns.of_map CmakeDraft.targets rfl (fun _ _ => rfl)
    fun _ _ hk hne _ _ _ h => (frame hk h).targets hne).slot hd h
  includeTests := (Owns.of_map CmakeDraft.includeTests rfl (fun _ _ => rfl)
    fun _ _ hk hne _ _ _ h => (frame hk h).includeTests hne).slot hd h
  assertions := (Owns.of_map CmakeDraft.assertions rfl (fun _ _ => rfl)
    fun _ _ hk hne _ _ _ h => (frame hk h).assertions hne).slot hd h
  projects := (Owns.of_map CmakeDraft.projects rfl (fun _ _ => rfl)
    fun _ _ hk hne _ _ _ h => (frame hk h).projects hne).slot hd h

lemma complete_ok : d.complete = .ok c ↔
    d.generator = some c.generator ∧ d.buildType = some c.buildType ∧
      d.exportCompileCommands = some c.exportCompileCommands ∧ d.targets = some c.targets ∧
      d.includeTests = some c.includeTests ∧ d.assertions = some c.assertions ∧
      d.projects.getD [] = c.projects := by
  simp only [complete, bind_ok, required_ok]
  constructor
  · rintro ⟨_, h₁, _, h₂, _, h₃, _, h₄, _, h₅, _, h₆, h⟩
    obtain rfl := Except.ok.inj h
    exact ⟨h₁, h₂, h₃, h₄, h₅, h₆, rfl⟩
  · rintro ⟨h₁, h₂, h₃, h₄, h₅, h₆, h⟩
    exact ⟨_, h₁, _, h₂, _, h₃, _, h₄, _, h₅, _, h₆, by rw [h]; rfl⟩

end CmakeDraft

namespace CmakeTold

variable {es : Entries} {c : CmakeConfig}

lemma of_slots {d : CmakeDraft} (hs : d.Slots es) (hc : d.complete = .ok c) : CmakeTold es c := by
  obtain ⟨hg, hb, he, ht, hi, ha, hp⟩ := CmakeDraft.complete_ok.mp hc
  refine ⟨(hg ▸ hs.generator).string, (hb ▸ hs.buildType).string,
    (he ▸ hs.exportCompileCommands).boolean, (ht ▸ hs.targets).strings,
    (hi ▸ hs.includeTests).boolean, (ha ▸ hs.assertions).boolean, ?_⟩
  have hslot := hs.projects
  rcases hd : d.projects with _ | ps <;> rw [hd] at hslot hp
  · exact .inl ⟨hslot.missing, hp.symm⟩
  · obtain rfl : ps = c.projects := hp
    exact .inr hslot.strings

/-- All of the known keys can be decoded. -/
lemma known_ok (h : CmakeTold es c) {k : String} {v : Value} (hl : es.lookup k = some v)
    {f : CmakeDraft → Value → Except DataError CmakeDraft} (hf : CmakeDraft.known k = some f)
    (d : CmakeDraft) : ∃ d', f d v = .ok d' := by
  unfold CmakeDraft.known at hf
  split at hf
  case h_8 => simp at hf
  all_goals
    obtain rfl := Option.some.inj hf
  · exact map_decoded hl h.generator rfl
  · exact map_decoded hl h.buildType rfl
  · exact map_decoded hl h.exportCompileCommands rfl
  · obtain ⟨g, ht⟩ := h.targets
    exact map_decoded hl ht (decodeStrings_ok.mpr ⟨g, rfl⟩)
  · exact map_decoded hl h.includeTests rfl
  · exact map_decoded hl h.assertions rfl
  · rcases h.projects with ⟨hp, -⟩ | ⟨g, hp⟩
    · simp [hp] at hl
    · exact map_decoded hl hp (decodeStrings_ok.mpr ⟨g, rfl⟩)

lemma complete (h : CmakeTold es c) {d : CmakeDraft} (hs : d.Slots es) : d.complete = .ok c := by
  obtain ⟨g, ht⟩ := h.targets
  refine CmakeDraft.complete_ok.mpr ⟨hs.generator.eq_some h.generator rfl,
    hs.buildType.eq_some h.buildType rfl,
    hs.exportCompileCommands.eq_some h.exportCompileCommands rfl,
    hs.targets.eq_some ht (decodeStrings_ok.mpr ⟨g, rfl⟩),
    hs.includeTests.eq_some h.includeTests rfl, hs.assertions.eq_some h.assertions rfl, ?_⟩
  rcases h.projects with ⟨hp, hnone⟩ | ⟨g, hp⟩
  · rw [hs.projects.eq_old hp, hnone]
    rfl
  · rw [hs.projects.eq_some hp (decodeStrings_ok.mpr ⟨g, rfl⟩)]
    rfl

end CmakeTold

lemma decodeTable_ok {es : Entries} {c : CmakeConfig} (hd : (es.map Prod.fst).Nodup) :
    (decodeEntries CmakeDraft.known {} es).bind CmakeDraft.complete = .ok c ↔ CmakeTold es c := by
  constructor
  · intro h
    rcases he : decodeEntries CmakeDraft.known {} es with e | d <;>
      simp only [he, Except.bind_error, Except.bind_ok] at h
    · simp at h
    · exact .of_slots (CmakeDraft.slots hd he) h
  · intro h
    obtain ⟨d, hdec⟩ := decodeEntries_ok hd (fun _ _ hl _ hf => h.known_ok hl hf) {}
    rw [hdec]
    exact h.complete (CmakeDraft.slots hd hdec)

/-- Options in the order of their declaration, of which the last may be missing. -/
def CmakeListed (vs : List Value) (c : CmakeConfig) : Prop :=
  ∃ g rest, vs = [.string c.generator, .string c.buildType, .boolean c.exportCompileCommands,
      .array g (c.targets.map .string), .boolean c.includeTests, .boolean c.assertions] ++ rest ∧
    (rest = [] ∧ c.projects = [] ∨
      ∃ g' more, rest = .array g' (c.projects.map .string) :: more)

lemma decodePositions_ok {vs : List Value} {c : CmakeConfig} :
    decodePositions vs = .ok c ↔ CmakeListed vs c := by
  constructor
  · intro h
    match vs, h with
    | v₁ :: v₂ :: v₃ :: v₄ :: v₅ :: v₆ :: rest, h =>
      simp only [decodePositions, bind_ok] at h
      obtain ⟨generator, hg, buildType, hb, commands, hc, targets, ht, tests, hi, assertions, ha,
        h⟩ := h
      obtain ⟨g, rfl⟩ := decodeStrings_ok.mp ht
      rw [decodeString_ok.mp hg, decodeString_ok.mp hb, decodeBool_ok.mp hc, decodeBool_ok.mp hi,
        decodeBool_ok.mp ha]
      rcases rest with _ | ⟨v₇, more⟩
      · obtain rfl := Except.ok.inj h
        exact ⟨g, [], rfl, .inl ⟨rfl, rfl⟩⟩
      · obtain ⟨projects, hp, h⟩ := bind_ok.mp h
        obtain rfl := Except.ok.inj h
        obtain ⟨g', rfl⟩ := decodeStrings_ok.mp hp
        exact ⟨g, _, rfl, .inr ⟨g', more, rfl⟩⟩
    | [_, _, _, _, _], h => simp [decodePositions, bind_ok] at h
    | [_, _, _, _], h => simp [decodePositions, bind_ok] at h
    | [_, _, _], h => simp [decodePositions, bind_ok] at h
    | [_, _], h => simp [decodePositions, bind_ok] at h
    | [_], h => simp [decodePositions, bind_ok] at h
    | [], h => simp [decodePositions] at h
  · rintro ⟨g, rest, rfl, hrest⟩
    have ht : decodeStrings (.array g (c.targets.map .string)) = .ok c.targets :=
      decodeStrings_ok.mpr ⟨g, rfl⟩
    simp only [decodePositions, List.cons_append, List.nil_append, decodeString, decodeBool, ht,
      Except.ok_bind]
    rcases hrest with ⟨rfl, hp⟩ | ⟨g', more, rfl⟩
    · simp only [← hp]
      rfl
    · simp only [decodeStrings_ok.mpr ⟨g', rfl⟩, Except.ok_bind]
      rfl

lemma decodeCmake_ok {v : Value} {c : CmakeConfig} (hd : v.Distinct) :
    decodeCmake v = .ok c ↔ (∃ o es, v = .table o es ∧ CmakeTold es c) ∨
      ∃ g vs, v = .array g vs ∧ CmakeListed vs c := by
  cases v with
  | table o es => simp [decodeCmake, decodeTable_ok hd.entries.keys]
  | array g vs => simp [decodeCmake, decodePositions_ok]
  | datetime text => simp [decodeCmake, CmakeDraft.complete, required]
  | _ => simp [decodeCmake]

/-! ### The whole configuration -/

/-- What a document says of a configuration. -/
structure Told (es : Entries) (c : Config) : Prop where
  commit : es.lookup "commit" = some (.string c.commit)
  archiveName : es.lookup "archive_name" = some (.string c.archiveName)
  expectedSha256 : es.lookup "expected_sha256" = c.expectedSha256.map .string
  buildDir : es.lookup "build_dir" = some (.string c.buildDir)
  buildJobs : es.lookup "build_jobs" = some (.integer c.buildJobs.toNat)
  installWithSudo : es.lookup "install_with_sudo" = some (.boolean c.installWithSudo)
  cmake : es.lookup "cmake" = none ∧ c.cmake = {} ∨
    (∃ o t, es.lookup "cmake" = some (.table o t) ∧ CmakeTold t c.cmake) ∨
    ∃ g vs, es.lookup "cmake" = some (.array g vs) ∧ CmakeListed vs c.cmake

namespace Draft

variable {k : String} {f : Draft → Value → Except DataError Draft} {d d' : Draft} {v : Value}
  {es : Entries} {c : Config}

/-- No key changes the field of another. -/
structure Frame (k : String) (d d' : Draft) : Prop where
  commit : k ≠ "commit" → d'.commit = d.commit
  archiveName : k ≠ "archive_name" → d'.archiveName = d.archiveName
  expectedSha256 : k ≠ "expected_sha256" → d'.expectedSha256 = d.expectedSha256
  buildDir : k ≠ "build_dir" → d'.buildDir = d.buildDir
  buildJobs : k ≠ "build_jobs" → d'.buildJobs = d.buildJobs
  installWithSudo : k ≠ "install_with_sudo" → d'.installWithSudo = d.installWithSudo
  cmake : k ≠ "cmake" → d'.cmake = d.cmake

lemma frame (hk : known k = some f) (h : f d v = .ok d') : Frame k d d' := by
  unfold known at hk
  split at hk
  case h_8 => simp at hk
  all_goals
    obtain rfl := Option.some.inj hk
    obtain ⟨x, -, rfl⟩ := map_ok.mp h
    constructor <;> simp

/-- What becomes of each field. -/
structure Slots (es : Entries) (d : Draft) : Prop where
  commit : Slot es "commit" decodeString none d.commit
  archiveName : Slot es "archive_name" decodeString none d.archiveName
  expectedSha256 : Slot es "expected_sha256" decodeString none d.expectedSha256
  buildDir : Slot es "build_dir" decodeString none d.buildDir
  buildJobs : Slot es "build_jobs" decodeU32 none d.buildJobs
  installWithSudo : Slot es "install_with_sudo" decodeBool none d.installWithSudo
  cmake : Slot es "cmake" decodeCmake none d.cmake

lemma slots (hd : (es.map Prod.fst).Nodup) (h : decodeEntries known {} es = .ok d) :
    Slots es d where
  commit := (Owns.of_map Draft.commit rfl (fun _ _ => rfl)
    fun _ _ hk hne _ _ _ h => (frame hk h).commit hne).slot hd h
  archiveName := (Owns.of_map Draft.archiveName rfl (fun _ _ => rfl)
    fun _ _ hk hne _ _ _ h => (frame hk h).archiveName hne).slot hd h
  expectedSha256 := (Owns.of_map Draft.expectedSha256 rfl (fun _ _ => rfl)
    fun _ _ hk hne _ _ _ h => (frame hk h).expectedSha256 hne).slot hd h
  buildDir := (Owns.of_map Draft.buildDir rfl (fun _ _ => rfl)
    fun _ _ hk hne _ _ _ h => (frame hk h).buildDir hne).slot hd h
  buildJobs := (Owns.of_map Draft.buildJobs rfl (fun _ _ => rfl)
    fun _ _ hk hne _ _ _ h => (frame hk h).buildJobs hne).slot hd h
  installWithSudo := (Owns.of_map Draft.installWithSudo rfl (fun _ _ => rfl)
    fun _ _ hk hne _ _ _ h => (frame hk h).installWithSudo hne).slot hd h
  cmake := (Owns.of_map Draft.cmake rfl (fun _ _ => rfl)
    fun _ _ hk hne _ _ _ h => (frame hk h).cmake hne).slot hd h

lemma complete_ok : d.complete = .ok c ↔
    d.commit = some c.commit ∧ d.archiveName = some c.archiveName ∧
      d.buildDir = some c.buildDir ∧ d.buildJobs = some c.buildJobs ∧
      d.installWithSudo = some c.installWithSudo ∧ d.expectedSha256 = c.expectedSha256 ∧
      d.cmake.getD {} = c.cmake := by
  simp only [complete, bind_ok, required_ok]
  constructor
  · rintro ⟨_, h₁, _, h₂, _, h₃, _, h₄, _, h₅, h⟩
    obtain rfl := Except.ok.inj h
    exact ⟨h₁, h₂, h₃, h₄, h₅, rfl, rfl⟩
  · rintro ⟨h₁, h₂, h₃, h₄, h₅, h₆, h₇⟩
    exact ⟨_, h₁, _, h₂, _, h₃, _, h₄, _, h₅, by rw [h₆, h₇]; rfl⟩

end Draft

namespace Told

variable {es : Entries} {c : Config}

lemma of_slots {d : Draft} (hd : Distinct es) (hs : d.Slots es) (hc : d.complete = .ok c) :
    Told es c := by
  obtain ⟨hcommit, hname, hdir, hjobs, hsudo, hdigest, hcmake⟩ := Draft.complete_ok.mp hc
  refine ⟨(hcommit ▸ hs.commit).string, (hname ▸ hs.archiveName).string, ?_,
    (hdir ▸ hs.buildDir).string, (hjobs ▸ hs.buildJobs).u32,
    (hsudo ▸ hs.installWithSudo).boolean, ?_⟩
  · have hslot := hs.expectedSha256
    rw [hdigest] at hslot
    rcases h : c.expectedSha256 with _ | digest <;> rw [h] at hslot
    · exact hslot.missing
    · exact hslot.string
  · have hslot := hs.cmake
    rcases h : d.cmake with _ | options <;> rw [h] at hslot hcmake
    · exact .inl ⟨hslot.missing, hcmake.symm⟩
    · obtain rfl : options = c.cmake := hcmake
      obtain ⟨v, hl, hv⟩ := hslot.found
      rw [hl]
      rcases (decodeCmake_ok (hd.lookup hl)).mp hv with ⟨o, t, rfl, ht⟩ | ⟨g, vs, rfl, hvs⟩
      · exact .inr (.inl ⟨o, t, rfl, ht⟩)
      · exact .inr (.inr ⟨g, vs, rfl, hvs⟩)

/-- The options, if there are any, can be decoded. -/
lemma cmake_ok (h : Told es c) (hd : Distinct es) {v : Value} (hl : es.lookup "cmake" = some v) :
    decodeCmake v = .ok c.cmake := by
  rw [decodeCmake_ok (hd.lookup hl)]
  rcases h.cmake with ⟨hnone, -⟩ | ⟨o, t, ht, htold⟩ | ⟨g, vs, hvs, hlisted⟩
  · simp [hnone] at hl
  · exact .inl ⟨o, t, Option.some.inj (hl.symm.trans ht), htold⟩
  · exact .inr ⟨g, vs, Option.some.inj (hl.symm.trans hvs), hlisted⟩

lemma known_ok (h : Told es c) (hd : Distinct es) {k : String} {v : Value}
    (hl : es.lookup k = some v) {f : Draft → Value → Except DataError Draft}
    (hf : Draft.known k = some f) (d : Draft) : ∃ d', f d v = .ok d' := by
  unfold Draft.known at hf
  split at hf
  case h_8 => simp at hf
  all_goals
    obtain rfl := Option.some.inj hf
  · exact map_decoded hl h.commit rfl
  · exact map_decoded hl h.archiveName rfl
  · obtain ⟨digest, -, rfl⟩ := Option.map_eq_some_iff.mp (h.expectedSha256.symm.trans hl)
    exact ⟨_, rfl⟩
  · exact map_decoded hl h.buildDir rfl
  · exact map_decoded hl h.buildJobs (decodeU32_ok.mpr rfl)
  · exact map_decoded hl h.installWithSudo rfl
  · exact ⟨_, map_ok.mpr ⟨_, h.cmake_ok hd hl, rfl⟩⟩

lemma complete (h : Told es c) (hd : Distinct es) {d : Draft} (hs : d.Slots es) :
    d.complete = .ok c := by
  refine Draft.complete_ok.mpr ⟨hs.commit.eq_some h.commit rfl,
    hs.archiveName.eq_some h.archiveName rfl, hs.buildDir.eq_some h.buildDir rfl,
    hs.buildJobs.eq_some h.buildJobs (decodeU32_ok.mpr rfl),
    hs.installWithSudo.eq_some h.installWithSudo rfl, ?_, ?_⟩
  · have hdigest := h.expectedSha256
    rcases hc : c.expectedSha256 with _ | digest <;> rw [hc] at hdigest
    · exact hs.expectedSha256.eq_old hdigest
    · exact hs.expectedSha256.eq_some hdigest rfl
  · rcases hl : es.lookup "cmake" with _ | v
    · rw [hs.cmake.eq_old hl]
      rcases h.cmake with ⟨-, hc⟩ | ⟨o, t, ht, -⟩ | ⟨g, vs, hvs, -⟩
      · exact hc.symm
      · simp [hl] at ht
      · simp [hl] at hvs
    · rw [hs.cmake.eq_some hl (h.cmake_ok hd hl)]
      rfl

end Told

/-- A document decodes to the configuration that it tells of. -/
lemma decode_ok {es : Entries} {c : Config} (hd : Distinct es) : decode es = .ok c ↔ Told es c := by
  unfold decode
  constructor
  · intro h
    rcases he : decodeEntries Draft.known {} es with e | d <;>
      simp only [he, Except.bind_error, Except.bind_ok] at h
    · simp at h
    · exact .of_slots hd (Draft.slots hd.keys he) h
  · intro h
    obtain ⟨d, hdec⟩ := decodeEntries_ok hd.keys (fun _ _ hl _ hf => h.known_ok hd hl hf) {}
    rw [hdec]
    exact h.complete hd (Draft.slots hd.keys hdec)

/-! ### Which documents are configurations -/

/-- What a table of configure options has to hold. -/
structure CmakeSuitable (es : Entries) : Prop where
  generator : ∃ x, es.lookup "generator" = some (.string x)
  buildType : ∃ x, es.lookup "build_type" = some (.string x)
  exportCompileCommands : ∃ b, es.lookup "export_compile_commands" = some (.boolean b)
  targets : ∃ g, ∃ xs : List String, es.lookup "targets" = some (.array g (xs.map .string))
  includeTests : ∃ b, es.lookup "include_tests" = some (.boolean b)
  assertions : ∃ b, es.lookup "assertions" = some (.boolean b)
  projects : ∀ v, es.lookup "projects" = some v →
    ∃ g, ∃ xs : List String, v = .array g (xs.map .string)

/-- What a document has to hold to be a configuration. -/
structure Suitable (es : Entries) : Prop where
  commit : ∃ x, es.lookup "commit" = some (.string x)
  archiveName : ∃ x, es.lookup "archive_name" = some (.string x)
  expectedSha256 : ∀ v, es.lookup "expected_sha256" = some v → ∃ x, v = .string x
  buildDir : ∃ x, es.lookup "build_dir" = some (.string x)
  buildJobs : ∃ n : Int, es.lookup "build_jobs" = some (.integer n) ∧ 0 ≤ n ∧ n ≤ 4294967295
  installWithSudo : ∃ b, es.lookup "install_with_sudo" = some (.boolean b)
  cmake : ∀ v, es.lookup "cmake" = some v → (∃ o t, v = .table o t ∧ CmakeSuitable t) ∨
    ∃ g vs c, v = .array g vs ∧ CmakeListed vs c

lemma cmakeTold_iff {es : Entries} : (∃ c, CmakeTold es c) ↔ CmakeSuitable es := by
  constructor
  · rintro ⟨c, h⟩
    refine ⟨⟨_, h.generator⟩, ⟨_, h.buildType⟩, ⟨_, h.exportCompileCommands⟩, ?_,
      ⟨_, h.includeTests⟩, ⟨_, h.assertions⟩, fun v hv => ?_⟩
    · obtain ⟨g, ht⟩ := h.targets
      exact ⟨g, _, ht⟩
    · rcases h.projects with ⟨hp, -⟩ | ⟨g, hp⟩
      · simp [hp] at hv
      · exact ⟨g, _, Option.some.inj (hv.symm.trans hp)⟩
  · rintro ⟨⟨generator, hg⟩, ⟨buildType, hb⟩, ⟨commands, hc⟩, ⟨g, targets, ht⟩, ⟨tests, hi⟩,
      ⟨assertions, ha⟩, hp⟩
    rcases hl : es.lookup "projects" with _ | v
    · exact ⟨⟨generator, buildType, commands, targets, tests, assertions, []⟩, hg, hb, hc,
        ⟨g, ht⟩, hi, ha, .inl ⟨hl, rfl⟩⟩
    · obtain ⟨g', projects, rfl⟩ := hp v hl
      exact ⟨⟨generator, buildType, commands, targets, tests, assertions, projects⟩, hg, hb, hc,
        ⟨g, ht⟩, hi, ha, .inr ⟨g', hl⟩⟩

lemma told_iff {es : Entries} : (∃ c, Told es c) ↔ Suitable es := by
  constructor
  · rintro ⟨c, h⟩
    have hjobs := c.buildJobs.toNat_lt
    refine ⟨⟨_, h.commit⟩, ⟨_, h.archiveName⟩, fun v hv => ?_, ⟨_, h.buildDir⟩,
      ⟨_, h.buildJobs, by omega, by omega⟩, ⟨_, h.installWithSudo⟩, fun v hv => ?_⟩
    · obtain ⟨digest, -, rfl⟩ := Option.map_eq_some_iff.mp (h.expectedSha256.symm.trans hv)
      exact ⟨digest, rfl⟩
    · rcases h.cmake with ⟨hnone, -⟩ | ⟨o, t, ht, htold⟩ | ⟨g, vs, hvs, hlisted⟩
      · simp [hnone] at hv
      · exact .inl ⟨o, t, Option.some.inj (hv.symm.trans ht), cmakeTold_iff.mp ⟨_, htold⟩⟩
      · exact .inr ⟨g, vs, _, Option.some.inj (hv.symm.trans hvs), hlisted⟩
  · rintro ⟨⟨commit, hcommit⟩, ⟨name, hname⟩, hdigest, ⟨dir, hdir⟩, ⟨jobs, hjobs, hlow, hhigh⟩,
      ⟨install, hsudo⟩, hcmake⟩
    obtain ⟨digest, hd⟩ : ∃ digest : Option String,
        es.lookup "expected_sha256" = digest.map .string := by
      rcases hl : es.lookup "expected_sha256" with _ | v
      · exact ⟨none, rfl⟩
      · obtain ⟨x, rfl⟩ := hdigest v hl
        exact ⟨some x, rfl⟩
    obtain ⟨options, ho⟩ : ∃ options : CmakeConfig, es.lookup "cmake" = none ∧ options = {} ∨
        (∃ o t, es.lookup "cmake" = some (.table o t) ∧ CmakeTold t options) ∨
        ∃ g vs, es.lookup "cmake" = some (.array g vs) ∧ CmakeListed vs options := by
      rcases hl : es.lookup "cmake" with _ | v
      · exact ⟨{}, .inl ⟨rfl, rfl⟩⟩
      · rcases hcmake v hl with ⟨o, t, rfl, ht⟩ | ⟨g, vs, options, rfl, hlisted⟩
        · obtain ⟨options, htold⟩ := cmakeTold_iff.mpr ht
          exact ⟨options, .inr (.inl ⟨o, t, rfl, htold⟩)⟩
        · exact ⟨options, .inr (.inr ⟨g, vs, rfl, hlisted⟩)⟩
    refine ⟨⟨commit, name, digest, dir, UInt32.ofNat jobs.toNat, install, options⟩, hcommit,
      hname, hd, hdir, ?_, hsudo, ho⟩
    have hsize : jobs.toNat < UInt32.size := by
      show jobs.toNat < 4294967296
      omega
    rw [hjobs, UInt32.toNat_ofNat_of_lt' hsize, Int.toNat_of_nonneg hlow]

/-- Two documents hold the same under each known key, in the options too, whatever else they hold
and in whatever order. -/
structure AgreeOnKnown (es es' : Entries) : Prop where
  own : ∀ k ∈ ["commit", "archive_name", "expected_sha256", "build_dir", "build_jobs",
    "install_with_sudo"], es'.lookup k = es.lookup k
  cmake : es'.lookup "cmake" = es.lookup "cmake" ∨
    ∃ o t o' t', es.lookup "cmake" = some (.table o t) ∧ es'.lookup "cmake" = some (.table o' t') ∧
      ∀ k ∈ ["generator", "build_type", "export_compile_commands", "targets", "include_tests",
        "assertions", "projects"], t'.lookup k = t.lookup k

lemma AgreeOnKnown.symm {es es' : Entries} (h : AgreeOnKnown es es') : AgreeOnKnown es' es where
  own k hk := (h.own k hk).symm
  cmake := by
    rcases h.cmake with h | ⟨o, t, o', t', ht, ht', hk⟩
    · exact .inl h.symm
    · exact .inr ⟨o', t', o, t, ht', ht, fun k hm => (hk k hm).symm⟩

lemma Told.of_agree {es es' : Entries} {c : Config} (h : Told es c) (ha : AgreeOnKnown es es') :
    Told es' c := by
  refine ⟨(ha.own _ (by simp)).trans h.commit, (ha.own _ (by simp)).trans h.archiveName,
    (ha.own _ (by simp)).trans h.expectedSha256, (ha.own _ (by simp)).trans h.buildDir,
    (ha.own _ (by simp)).trans h.buildJobs, (ha.own _ (by simp)).trans h.installWithSudo, ?_⟩
  rcases ha.cmake with hc | ⟨o, t, o', t', ht, ht', hk⟩
  · rw [hc]
    exact h.cmake
  rcases h.cmake with ⟨hnone, -⟩ | ⟨o₂, t₂, ht₂, htold⟩ | ⟨g, vs, hvs, -⟩
  · simp [ht] at hnone
  · obtain ⟨rfl, rfl⟩ := Value.table.inj (Option.some.inj (ht.symm.trans ht₂))
    refine .inr (.inl ⟨o', t', ht', ?_⟩)
    refine ⟨(hk _ (by simp)).trans htold.generator, (hk _ (by simp)).trans htold.buildType,
      (hk _ (by simp)).trans htold.exportCompileCommands, ?_,
      (hk _ (by simp)).trans htold.includeTests, (hk _ (by simp)).trans htold.assertions, ?_⟩
    · rw [hk "targets" (by simp)]
      exact htold.targets
    · rw [hk "projects" (by simp)]
      exact htold.projects
  · simp [ht] at hvs

/-! ### The file -/

lemma load_ok {t t' : FileTree} {path : Path} {text : String} {es : Entries} {c : Config}
    (hr : (FileOp.readAll path).run t = .ok (Bytes.ofString text, t'))
    (hd : document? text = some es) : load t path = .ok c ↔ Told es c := by
  rw [← decode_ok (distinct_document hd)]
  unfold load
  rw [hr]
  simp only
  rw [Bytes.decode?_ofString]
  simp only [parse, hd]
  rcases decode es with e | c'
  · simp [Except.mapError]
  · simp [Except.mapError]

/-- A text that is no document is refused as a whole. -/
lemma load_refused {t t' : FileTree} {path : Path} {text : String}
    (hr : (FileOp.readAll path).run t = .ok (Bytes.ofString text, t'))
    (hd : document? text = none) : load t path = .error (.noConfig path .noDocument) := by
  unfold load
  rw [hr]
  simp only
  rw [Bytes.decode?_ofString]
  simp only [parse, hd]
  rfl

/-- **Decoding**: a file that holds a document is read as the configuration that its known keys tell
of, it is read just if they are suitable, and nothing else in it makes a difference. A file that
holds none is refused. -/
theorem load_told {t t' : FileTree} {path : Path} {text : String}
    (hr : (FileOp.readAll path).run t = .ok (Bytes.ofString text, t')) :
    (document? text = none → load t path = .error (.noConfig path .noDocument)) ∧
      ∀ es, document? text = some es →
        (∀ c, load t path = .ok c ↔ Told es c) ∧
        ((∃ c, load t path = .ok c) ↔ Suitable es) ∧
        ∀ (u u' : FileTree) (path' : Path) (text' : String) (es' : Entries),
          (FileOp.readAll path').run u = .ok (Bytes.ofString text', u') →
          document? text' = some es' → AgreeOnKnown es es' →
          ∀ c, load u path' = .ok c ↔ load t path = .ok c := by
  refine ⟨load_refused hr, fun es hd => ⟨fun c => load_ok hr hd, ?_,
    fun u u' path' text' es' hr' hd' ha c => ?_⟩⟩
  · rw [← told_iff]
    exact exists_congr fun c => load_ok hr hd
  · rw [load_ok hr hd, load_ok hr' hd']
    exact ⟨fun h => h.of_agree ha.symm, fun h => h.of_agree ha⟩

/-- Known keys out of their order, and one that is only known among the options. -/
def looseFields : List Field :=
  [⟨"install_with_sudo", Writer.boolean false, .boolean false⟩,
   ⟨"generator", Writer.boolean true, .boolean true⟩,
   ⟨"build_jobs", Nat.toDigits 10 7, .integer 7⟩,
   ⟨"commit", Writer.string "c".toList, .string "c"⟩,
   ⟨"archive_name", Writer.string "".toList, .string ""⟩,
   ⟨"build_dir", Writer.string "b".toList, .string "b"⟩]

/-- Options out of their order, and a key that is none of them. -/
def looseOptions : List Field :=
  [⟨"assertions", Writer.boolean true, .boolean true⟩,
   ⟨"commit", Writer.boolean true, .boolean true⟩,
   ⟨"targets", Writer.strings ["X86", ""], .array false (["X86", ""].map .string)⟩,
   ⟨"build_type", Writer.string "t".toList, .string "t"⟩,
   ⟨"include_tests", Writer.boolean false, .boolean false⟩,
   ⟨"generator", Writer.string "g".toList, .string "g"⟩,
   ⟨"export_compile_commands", Writer.boolean false, .boolean false⟩]

def looseText : String := String.ofList
  (looseFields.flatMap Field.write ++ '\n' :: headerOf "cmake" ++ looseOptions.flatMap Field.write)

def looseConfig : Config :=
  ⟨"c", "", none, "b", 7, false, ⟨"g", "t", false, ["X86", ""], false, true, []⟩⟩

/-- A file "f" and nothing else. -/
def soleFile (content : Bytes) : FileTree :=
  (FileTree.empty.putFile [[102]] 0o644).2.append 0 content

lemma readAll_soleFile (content : Bytes) :
    (FileOp.readAll [102]).run (soleFile content) = .ok (content, soleFile content) := by
  have hl : (soleFile content).lookup true [102] = .ok ([[102]], .file 0) := rfl
  have hf : (soleFile content).file? 0 = some ⟨content, 0o644⟩ := rfl
  exact FileOp.readAll_file hl hf (show Mode.ownerReads 0o644 = true by decide)

lemma good_looseFields : ∀ f ∈ looseFields, f.Good := by
  have hjobs : Written (Nat.toDigits 10 7) (.integer 7) := written_toDigits (by omega)
  simp only [looseFields, List.forall_mem_cons]
  exact ⟨good_of_mem (written_boolean _) (by simp [keys]),
    good_of_mem (written_boolean _) (by simp [keys]),
    good_of_mem hjobs (by simp [keys]),
    good_of_mem (written_string _) (by simp [keys]),
    good_of_mem (written_string _) (by simp [keys]),
    good_of_mem (written_string _) (by simp [keys]), by simp⟩

lemma good_looseOptions : ∀ f ∈ looseOptions, f.Good := by
  simp only [looseOptions, List.forall_mem_cons]
  exact ⟨good_of_mem (written_boolean _) (by simp [keys]),
    good_of_mem (written_boolean _) (by simp [keys]),
    good_of_mem (written_strings _) (by simp [keys]),
    good_of_mem (written_string _) (by simp [keys]),
    good_of_mem (written_boolean _) (by simp [keys]),
    good_of_mem (written_string _) (by simp [keys]),
    good_of_mem (written_boolean _) (by simp [keys]), by simp⟩

lemma nodup_looseOptions : (looseOptions.map Field.key).Nodup := by
  show ["assertions", "commit", "targets", "build_type", "include_tests", "generator",
    "export_compile_commands"].Nodup
  decide

def looseEntries : Entries :=
  looseFields.map Field.entry ++ [("cmake", .table .header (looseOptions.map Field.entry))]

lemma told_looseEntries : Told looseEntries looseConfig := by
  refine ⟨rfl, rfl, rfl, rfl, rfl, rfl, .inr (.inl ⟨_, _, rfl, ?_⟩)⟩
  exact ⟨rfl, rfl, rfl, ⟨_, rfl⟩, rfl, rfl, .inl ⟨rfl, rfl⟩⟩

/-- Neither the order of keys nor one that is out of place makes a difference. -/
theorem load_told_loose :
    (FileOp.readAll [102]).run (soleFile (Bytes.ofString looseText)) =
        .ok (Bytes.ofString looseText, soleFile (Bytes.ofString looseText)) ∧
      document? looseText = some (looseFields.map Field.entry ++
        [("cmake", .table .header (looseOptions.map Field.entry))]) ∧
      load (soleFile (Bytes.ofString looseText)) [102] = .ok looseConfig := by
  have hr := readAll_soleFile (Bytes.ofString looseText)
  have hkeys : (looseFields.map Field.key ++ ["cmake"]).Nodup := by
    show ["install_with_sudo", "generator", "build_jobs", "commit", "archive_name", "build_dir",
      "cmake"].Nodup
    decide
  have hd : document? looseText = some looseEntries :=
    document?_fields good_looseFields good_looseOptions (bareKey_of_mem "cmake" (by simp [keys]))
      hkeys nodup_looseOptions
  exact ⟨hr, hd, (((load_told hr).2 _ hd).1 _).mpr told_looseEntries⟩

/-! ### Numbers that are too large -/

/-- Digits, and digits as an exponent: a floating-point number by the grammar, however large. -/
def Exponential (number : String) : Prop :=
  ∃ ds es : List Char, number.toList = ds ++ 'e' :: es ∧ ds ≠ [] ∧ es ≠ [] ∧ ds.head? ≠ some '0' ∧
    ∀ c ∈ ds ++ es, c.isDigit = true

lemma exponential_small : Exponential "1e4" :=
  ⟨['1'], ['4'], rfl, by simp [Char.isDigit]⟩

lemma exponential_large : Exponential "1e400" :=
  ⟨['1'], ['4', '0', '0'], rfl, by simp [Char.isDigit]⟩

lemma written_exponential : Written "1e4".toList (.float (.ofDecimal false 1 4)) where
  head := skipBlanks_append (c := '1') rfl rfl
  read rest := by
    have hfloat : float? ('1' :: 'e' :: '4' :: '\n' :: rest) =
        some (.ofDecimal false 1 4, '\n' :: rest) := rfl
    show value? depthLimit ('1' :: 'e' :: '4' :: '\n' :: rest) = _
    rw [value?_scalar (by decide) (by decide), scalar?, string?_eq_none (by decide) (by decide),
      hfloat]
    rfl

/-- A text is no document if the number on its first line is too large, whatever follows. -/
lemma document?_overflown (cs : List Char) :
    document? (String.ofList (Writer.entry "x" "1e400".toList ++ cs)) = none := by
  have hline : line?
      ('x' :: ' ' :: '=' :: ' ' :: '1' :: 'e' :: '4' :: '0' :: '0' :: '\n' :: cs) = none := by cbv
  have hlines : lines? (Writer.entry "x" "1e400".toList ++ cs) = none := by
    show lines? ('x' :: ' ' :: '=' :: ' ' :: '1' :: 'e' :: '4' :: '0' :: '0' :: '\n' :: cs) = none
    rw [lines?, hline]
    rfl
  have hmark : skipMark (Writer.entry "x" "1e400".toList ++ cs) =
      Writer.entry "x" "1e400".toList ++ cs := rfl
  rw [document?, String.toList_ofList, hmark, hlines]
  rfl

/-- The text with a number in front, under a key that is not known. -/
def withNumber (number : String) : String := String.ofList
  (Writer.entry "x" number.toList ++ looseFields.flatMap Field.write ++
    '\n' :: headerOf "cmake" ++ looseOptions.flatMap Field.write)

def smallNumber : Field := ⟨"x", "1e4".toList, .float (.ofDecimal false 1 4)⟩

lemma good_smallNumber : smallNumber.Good :=
  ⟨show BareKey "x" by simp [BareKey, isBare], written_exponential⟩

lemma withNumber_small : withNumber "1e4" = String.ofList
    ((smallNumber :: looseFields).flatMap Field.write ++ '\n' :: headerOf "cmake" ++
      looseOptions.flatMap Field.write) := by
  rw [List.flatMap_cons]
  rfl

lemma load_withNumber :
    load (soleFile (Bytes.ofString (withNumber "1e4"))) [102] = .ok looseConfig := by
  have hgood : ∀ f ∈ smallNumber :: looseFields, f.Good :=
    List.forall_mem_cons.mpr ⟨good_smallNumber, good_looseFields⟩
  have hkeys : ((smallNumber :: looseFields).map Field.key ++ ["cmake"]).Nodup := by
    show ["x", "install_with_sudo", "generator", "build_jobs", "commit", "archive_name",
      "build_dir", "cmake"].Nodup
    decide
  have hd : document? _ = some (smallNumber.entry :: looseEntries) :=
    document?_fields hgood good_looseOptions (bareKey_of_mem "cmake" (by simp [keys])) hkeys
      nodup_looseOptions
  have hagree : AgreeOnKnown looseEntries (smallNumber.entry :: looseEntries) := by
    constructor
    case own =>
      intro k hk
      have hne : (k == smallNumber.key) = false := by
        rw [beq_eq_false_iff_ne]
        rintro rfl
        simp [smallNumber] at hk
      rw [Field.entry, List.lookup_cons, hne]
    case cmake => exact .inl rfl
  rw [withNumber_small]
  exact (load_ok (readAll_soleFile _) hd).mpr (told_looseEntries.of_agree hagree)

/-- A number that is too large is no number to the reader, so that the text is no document. -/
theorem load_overflown : ¬ ∀ (number number' : String) (c : Config),
    Exponential number → Exponential number' →
      load (soleFile (Bytes.ofString (withNumber number))) [102] = .ok c →
      load (soleFile (Bytes.ofString (withNumber number'))) [102] = .ok c := by
  intro h
  have hsame := h "1e4" "1e400" looseConfig exponential_small exponential_large load_withNumber
  have hnone : document? (withNumber "1e400") = none := by
    simp only [withNumber, List.append_assoc, document?_overflown]
  rw [load_refused (readAll_soleFile _) hnone] at hsame
  cases hsame

end PinnedBuild.Config
