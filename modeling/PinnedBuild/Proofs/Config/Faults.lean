import Mathlib
import PinnedBuild.Proofs.Config.Listed
import PinnedBuild.Proofs.Toml.Order

/-!
Which fault of a document is reported.

A known key whose value does not fit is reported where it stands, and configure options that are
not complete are such a value. A missing key is only reported of a document whose known keys all
fit. What stands under other keys makes no difference.
-/

namespace PinnedBuild.Config

open Files PinnedBuild.Toml

/-! ### What is wanted -/

/-- The options in the order of their declaration, with what each should hold. -/
def optionWanted : List (String × Wanted) :=
  [("generator", .string), ("build_type", .string), ("export_compile_commands", .boolean),
   ("targets", .sequence), ("include_tests", .boolean), ("assertions", .boolean),
   ("projects", .sequence)]

def requiredOptions : List String :=
  ["generator", "build_type", "export_compile_commands", "targets", "include_tests", "assertions"]

/-- The keys of a document, with what each should hold. -/
def fieldWanted : List (String × Wanted) :=
  [("commit", .string), ("archive_name", .string), ("expected_sha256", .string),
   ("build_dir", .string), ("build_jobs", .u32), ("install_with_sudo", .boolean),
   ("cmake", .cmake)]

/-- The keys that have no default, in the order of their declaration. -/
def requiredFields : List String :=
  ["commit", "archive_name", "build_dir", "build_jobs", "install_with_sudo"]

/-- How a value is not the one that is wanted. -/
inductive Misfit : Value → Wanted → DataError → Prop
  | string {v : Value} (h : ∀ s, v ≠ .string s) : Misfit v .string (.wrongType v .string)
  | boolean {v : Value} (h : ∀ b, v ≠ .boolean b) : Misfit v .boolean (.wrongType v .boolean)
  | number {v : Value} (h : ∀ n, v ≠ .integer n) : Misfit v .u32 (.wrongType v .u32)
  | range {n : Int} (h : n < 0 ∨ 4294967295 < n) : Misfit (.integer n) .u32 (.outOfRange n)
  | sequence {v : Value} (h : ∀ g vs, v ≠ .array g vs) :
      Misfit v .sequence (.wrongType v .sequence)
  | element (front : List Value) {g : Bool} {rest : List Value} {v : Value}
      (hfront : ∀ w ∈ front, ∃ s, w = .string s) (h : ∀ s, v ≠ .string s) :
      Misfit (.array g (front ++ v :: rest)) .sequence (.wrongType v .string)

/-- All known keys hold what is wanted. -/
def Sound (M : Value → Wanted → DataError → Prop) (wanted : List (String × Wanted))
    (es : Entries) : Prop :=
  ∀ k v, (k, v) ∈ es → ∀ want, wanted.lookup k = some want → ∀ e, ¬ M v want e

/-- The first known key that does not hold what is wanted. -/
inductive FirstMisfit (M : Value → Wanted → DataError → Prop) (wanted : List (String × Wanted)) :
    Entries → DataError → Prop
  | at (front : Entries) {rest : Entries} {k : String} {v : Value} {want : Wanted} {e : DataError}
      (hfront : Sound M wanted front) (hk : wanted.lookup k = some want) (hv : M v want e) :
      FirstMisfit M wanted (front ++ (k, v) :: rest) e

/-- The first of the keys that is not there. -/
inductive FirstMissing (es : Entries) : List String → DataError → Prop
  | at (front : List String) {rest : List String} {k : String}
      (hfront : ∀ k' ∈ front, (es.lookup k').isSome) (hk : es.lookup k = none) :
      FirstMissing es (front ++ k :: rest) (.missing k)

/-- The fault of a table: its first key that does not fit, or else its first missing key. -/
inductive Fault (M : Value → Wanted → DataError → Prop) (wanted : List (String × Wanted))
    (required : List String) (es : Entries) (e : DataError) : Prop
  | present (h : FirstMisfit M wanted es e)
  | missing (hs : Sound M wanted es) (h : FirstMissing es required e)

/-- How the value of a key of the document is not the one that is wanted. A date is a table without
any of the options. -/
inductive FieldMisfit : Value → Wanted → DataError → Prop
  | plain {v : Value} {want : Wanted} {e : DataError} (h : Misfit v want e) : FieldMisfit v want e
  | kind {v : Value} (hs : ∀ s, v ≠ .datetime s) (ha : ∀ g vs, v ≠ .array g vs)
      (ht : ∀ o es, v ≠ .table o es) : FieldMisfit v .cmake (.wrongType v .cmake)
  | date {text : String} : FieldMisfit (.datetime text) .cmake (.missing "generator")
  | table {o : Origin} {es : Entries} {e : DataError}
      (h : Fault Misfit optionWanted requiredOptions es e) : FieldMisfit (.table o es) .cmake e
  | listed {g : Bool} {vs : List Value} {e : DataError}
      (h : FirstMisfit Misfit optionWanted (named vs) e) : FieldMisfit (.array g vs) .cmake e
  | short {g : Bool} {vs : List Value} (hs : Sound Misfit optionWanted (named vs))
      (h : vs.length < 6) : FieldMisfit (.array g vs) .cmake (.tooShort vs.length)

/-- The fault of a document. -/
abbrev DocumentFault : Entries → DataError → Prop := Fault FieldMisfit fieldWanted requiredFields

/-- A document without its unknown keys and options. -/
def knownPart (es : Entries) : Entries :=
  (es.filter fun e => (fieldWanted.lookup e.1).isSome).map fun
    | ("cmake", .table _ t) =>
      ("cmake", .table .header (t.filter fun e => (optionWanted.lookup e.1).isSome))
    | e => e

variable {v : Value} {vs : List Value} {es : Entries} {e : DataError} {k : String}
  {want : Wanted} {names : List String} {n : Nat} {M : Value → Wanted → DataError → Prop}
  {wanted : List (String × Wanted)}

/-! ### Single values -/

lemma map_error {ε α β : Type} {r : Except ε α} {f : α → β} {e : ε} :
    r.map f = .error e ↔ r = .error e := by
  rcases r with e' | x
  · simp [Except.map]
  · simp [Except.map]

lemma bind_error {ε α β : Type} {r : Except ε α} {f : α → Except ε β} {e : ε} :
    (r >>= f) = .error e ↔ r = .error e ∨ ∃ x, r = .ok x ∧ f x = .error e := by
  rcases r with e' | x
  · simp
  · simp

lemma decodeString_error : decodeString v = .error e ↔ Misfit v .string e := by
  constructor
  · intro h
    cases v with
    | string s => simp [decodeString] at h
    | _ =>
      obtain rfl := Except.error.inj h
      exact .string (by simp)
  · rintro ⟨h⟩
    cases v with
    | string s => exact absurd rfl (h s)
    | _ => rfl

lemma decodeBool_error : decodeBool v = .error e ↔ Misfit v .boolean e := by
  constructor
  · intro h
    cases v with
    | boolean b => simp [decodeBool] at h
    | _ =>
      obtain rfl := Except.error.inj h
      exact .boolean (by simp)
  · rintro (_ | _)
    rename_i h
    cases v with
    | boolean b => exact absurd rfl (h b)
    | _ => rfl

lemma decodeU32_error : decodeU32 v = .error e ↔ Misfit v .u32 e := by
  have hsize : (UInt32.size : Int) = 4294967296 := rfl
  constructor
  · intro h
    cases v with
    | integer n =>
      simp only [decodeU32] at h
      split_ifs at h with hn
      obtain rfl := Except.error.inj h
      exact .range (by omega)
    | _ =>
      obtain rfl := Except.error.inj h
      exact .number (by simp)
  · intro h
    rcases h with _ | _ | h | h
    · cases v with
      | integer n => exact absurd rfl (h n)
      | _ => rfl
    · exact if_neg (by omega)

lemma mapM_decodeString_error : vs.mapM decodeString = .error e ↔
    ∃ front v rest, vs = front ++ v :: rest ∧ (∀ w ∈ front, ∃ s, w = .string s) ∧
      decodeString v = .error e := by
  induction vs with
  | nil => simp [pure, Except.pure]
  | cons v vs ih =>
    rw [List.mapM_cons, bind_error]
    constructor
    · rintro (hv | ⟨s, hs, hrest⟩)
      · exact ⟨[], v, vs, rfl, by simp, hv⟩
      · rcases bind_error.mp hrest with hrest | ⟨xs, -, hx⟩
        · obtain ⟨front, w, rest, rfl, hfront, hw⟩ := ih.mp hrest
          refine ⟨v :: front, w, rest, rfl, ?_, hw⟩
          exact List.forall_mem_cons.mpr ⟨⟨s, decodeString_ok.mp hs⟩, hfront⟩
        · simp [pure, Except.pure] at hx
    · rintro ⟨_ | ⟨u, front⟩, w, rest, heq, hfront, hw⟩
      · obtain ⟨rfl, rfl⟩ := List.cons.inj heq
        exact .inl hw
      · obtain ⟨rfl, rfl⟩ := List.cons.inj heq
        obtain ⟨⟨s, rfl⟩, hstrings⟩ := List.forall_mem_cons.mp hfront
        refine .inr ⟨s, rfl, bind_error.mpr (.inl ?_)⟩
        exact ih.mpr ⟨front, w, rest, rfl, hstrings, hw⟩

lemma decodeStrings_error : decodeStrings v = .error e ↔ Misfit v .sequence e := by
  constructor
  · intro h
    cases v with
    | array g vs =>
      obtain ⟨front, w, rest, rfl, hfront, hw⟩ := mapM_decodeString_error.mp h
      cases decodeString_error.mp hw with
      | string hne => exact .element front hfront hne
    | _ =>
      obtain rfl := Except.error.inj h
      exact .sequence (by simp)
  · intro h
    rcases h with _ | _ | _ | _ | h | ⟨front, hfront, h⟩
    · cases v with
      | array g vs => exact absurd rfl (h g vs)
      | _ => rfl
    · exact mapM_decodeString_error.mpr
        ⟨_, _, _, rfl, hfront, decodeString_error.mpr (.string h)⟩

/-! ### Tables -/

lemma sound_nil : Sound M wanted [] := by simp [Sound]

lemma sound_cons : Sound M wanted ((k, v) :: es) ↔
    (∀ want, wanted.lookup k = some want → ∀ e, ¬ M v want e) ∧ Sound M wanted es := by
  constructor
  · exact fun h => ⟨h k v (by simp), fun k' v' hm => h k' v' (by simp [hm])⟩
  · rintro ⟨hv, hes⟩ k' v' hm
    rcases List.mem_cons.mp hm with heq | hm
    · obtain ⟨rfl, rfl⟩ := Prod.mk.inj heq
      exact hv
    · exact hes k' v' hm

lemma sound_unknown (hk : wanted.lookup k = none) (v : Value) : Sound M wanted [(k, v)] :=
  sound_cons.mpr ⟨by simp [hk], sound_nil⟩

lemma not_firstMisfit_nil : ¬ FirstMisfit M wanted [] e := by
  intro h
  generalize hes : ([] : Entries) = es at h
  rcases h with ⟨front⟩
  simp at hes

lemma firstMisfit_cons : FirstMisfit M wanted ((k, v) :: es) e ↔
    (∃ want, wanted.lookup k = some want ∧ M v want e) ∨
      (∀ want, wanted.lookup k = some want → ∀ e, ¬ M v want e) ∧ FirstMisfit M wanted es e := by
  constructor
  · intro h
    generalize hes : (k, v) :: es = es₀ at h
    rcases h with @⟨front, rest, k', v', want, _, hfront, hk, hv⟩
    rcases front with _ | ⟨⟨k₁, v₁⟩, front⟩
    · obtain ⟨heq, rfl⟩ := List.cons.inj hes
      obtain ⟨rfl, rfl⟩ := Prod.mk.inj heq
      exact .inl ⟨want, hk, hv⟩
    · obtain ⟨heq, rfl⟩ := List.cons.inj hes
      obtain ⟨rfl, rfl⟩ := Prod.mk.inj heq
      obtain ⟨hfirst, hfront⟩ := sound_cons.mp hfront
      exact .inr ⟨hfirst, .at front hfront hk hv⟩
  · rintro (⟨want, hk, hv⟩ | ⟨hfirst, @⟨front, rest, k', v', want, _, hfront, hk, hv⟩⟩)
    · exact .at [] sound_nil hk hv
    · exact .at ((k, v) :: front) (sound_cons.mpr ⟨hfirst, hfront⟩) hk hv

variable {σ : Type} {known : String → Option (σ → Value → Except DataError σ)}

/-- What is done with the keys of a table fails just where a value is not the one that is wanted. -/
structure Checks (known : String → Option (σ → Value → Except DataError σ))
    (wanted : List (String × Wanted)) (M : Value → Wanted → DataError → Prop) : Prop where
  unknown : ∀ k, wanted.lookup k = none → known k = none
  known : ∀ k want, wanted.lookup k = some want → ∃ f, known k = some f ∧
    ∀ s v e, v.Distinct → (f s v = .error e ↔ M v want e)

/-- Decoding fails at the first key that does not fit, and not if all fit. -/
lemma Checks.decodeEntries (h : Checks known wanted M) (hd : ∀ e ∈ es, e.2.Distinct) (s : σ) :
    (∀ e, decodeEntries known s es = .error e ↔ FirstMisfit M wanted es e) ∧
      ((∃ s', decodeEntries known s es = .ok s') ↔ Sound M wanted es) := by
  induction es generalizing s with
  | nil =>
    refine ⟨fun e => ⟨fun he => by simp [Config.decodeEntries, pure, Except.pure] at he,
      fun hf => (not_firstMisfit_nil hf).elim⟩, fun _ => sound_nil, fun _ => ⟨s, rfl⟩⟩
  | cons entry es ih =>
    rcases entry with ⟨k, v⟩
    obtain ⟨hv, hes⟩ := List.forall_mem_cons.mp hd
    simp only [firstMisfit_cons, sound_cons]
    rw [decodeEntries_cons]
    rcases hw : wanted.lookup k with _ | want
    · rw [h.unknown k hw]
      simpa using ih hes s
    · obtain ⟨f, hf, hspec⟩ := h.known k want hw
      simp only [hf]
      rcases hr : f s v with e' | s'
      · have hm : M v want e' := (hspec s v e' hv).mp hr
        have honly : ∀ e, M v want e ↔ e' = e := fun e => by
          rw [← hspec s v e hv, hr, Except.error.injEq]
        simp [Except.bind, honly]
      · have hnone : ∀ e, ¬ M v want e := fun e hm => by
          rw [← hspec s v e hv, hr] at hm
          simp at hm
        simpa [Except.bind, hnone] using ih hes s'

/-! ### Missing keys -/

lemma required_bind {α β : Type} {o : Option α} {f : α → Except DataError β} {k : String}
    {ks : List String} (ho : o = none ↔ es.lookup k = none)
    (hf : ∀ x, f x = .error e ↔ FirstMissing es ks e) :
    (required k o >>= f) = .error e ↔ FirstMissing es (k :: ks) e := by
  constructor
  · intro h
    rcases o with _ | x
    · obtain rfl := Except.error.inj h
      exact .at [] (by simp) (ho.mp rfl)
    · have hthere : (es.lookup k).isSome :=
        Option.isSome_iff_ne_none.mpr fun hnone => by simpa using ho.mpr hnone
      rcases (hf x).mp h with @⟨front, rest, k', hfront, hk⟩
      exact .at (k :: front) (List.forall_mem_cons.mpr ⟨hthere, hfront⟩) hk
  · intro h
    generalize hks : k :: ks = ks₀ at h
    rcases h with @⟨front, rest, k', hfront, hk⟩
    rcases front with _ | ⟨k₁, front⟩
    · obtain ⟨rfl, rfl⟩ := List.cons.inj hks
      rw [ho.mpr hk]
      rfl
    · obtain ⟨rfl, rfl⟩ := List.cons.inj hks
      obtain ⟨hthere, hfront⟩ := List.forall_mem_cons.mp hfront
      rcases o with _ | x
      · simp [ho.mp rfl] at hthere
      · exact (hf x).mpr (.at front hfront hk)

lemma firstMissing_nil {α : Type} (x : α) :
    (pure x : Except DataError α) = .error e ↔ FirstMissing es [] e := by
  constructor
  · intro h
    simp [pure, Except.pure] at h
  · intro h
    generalize hks : ([] : List String) = ks at h
    rcases h with ⟨front⟩
    simp at hks

lemma Slot.eq_none {α : Type} {decoder : Decoder α} {o : Option α}
    (h : Slot es k decoder none o) : o = none ↔ es.lookup k = none := by
  unfold Slot at h
  split at h
  · rename_i hl
    simp [hl, h]
  · rename_i v hl
    obtain ⟨x, -, rfl⟩ := h
    simp [hl]

lemma CmakeDraft.complete_error {d : CmakeDraft} (hs : d.Slots es) :
    d.complete = .error e ↔ FirstMissing es requiredOptions e :=
  required_bind hs.generator.eq_none fun _ =>
    required_bind hs.buildType.eq_none fun _ =>
      required_bind hs.exportCompileCommands.eq_none fun _ =>
        required_bind hs.targets.eq_none fun _ =>
          required_bind hs.includeTests.eq_none fun _ =>
            required_bind hs.assertions.eq_none fun _ => firstMissing_nil _

lemma Draft.complete_error {d : Draft} (hs : d.Slots es) :
    d.complete = .error e ↔ FirstMissing es requiredFields e :=
  required_bind hs.commit.eq_none fun _ =>
    required_bind hs.archiveName.eq_none fun _ =>
      required_bind hs.buildDir.eq_none fun _ =>
        required_bind hs.buildJobs.eq_none fun _ =>
          required_bind hs.installWithSudo.eq_none fun _ => firstMissing_nil _

/-! ### Configure options -/

lemma checks_options : Checks CmakeDraft.known optionWanted Misfit where
  unknown := by
    intro k hk
    unfold CmakeDraft.known
    split
    case h_8 => rfl
    all_goals simp [optionWanted] at hk
  known := by
    intro k want hk
    obtain ⟨front, rest, hsplit, -⟩ := List.lookup_eq_some_iff.mp hk
    have hmem : (k, want) ∈ optionWanted := by simp [hsplit]
    simp only [optionWanted, List.mem_cons, Prod.mk.injEq, List.not_mem_nil, or_false] at hmem
    rcases hmem with ⟨rfl, rfl⟩ | ⟨rfl, rfl⟩ | ⟨rfl, rfl⟩ | ⟨rfl, rfl⟩ | ⟨rfl, rfl⟩ | ⟨rfl, rfl⟩ |
      ⟨rfl, rfl⟩
    · exact ⟨_, rfl, fun _ _ _ _ => map_error.trans decodeString_error⟩
    · exact ⟨_, rfl, fun _ _ _ _ => map_error.trans decodeString_error⟩
    · exact ⟨_, rfl, fun _ _ _ _ => map_error.trans decodeBool_error⟩
    · exact ⟨_, rfl, fun _ _ _ _ => map_error.trans decodeStrings_error⟩
    · exact ⟨_, rfl, fun _ _ _ _ => map_error.trans decodeBool_error⟩
    · exact ⟨_, rfl, fun _ _ _ _ => map_error.trans decodeBool_error⟩
    · exact ⟨_, rfl, fun _ _ _ _ => map_error.trans decodeStrings_error⟩

/-- A table fails as a whole with its fault. -/
lemma Checks.decodeTable {α : Type} {required : List String} {finish : σ → Except DataError α}
    (h : Checks known wanted M) (hd : ∀ e ∈ es, e.2.Distinct) (s : σ)
    (hf : ∀ s', Config.decodeEntries known s es = .ok s' →
      (finish s' = .error e ↔ FirstMissing es required e)) :
    (Config.decodeEntries known s es).bind finish = .error e ↔ Fault M wanted required es e := by
  obtain ⟨herror, hok⟩ := h.decodeEntries hd s
  constructor
  · intro hr
    rcases bind_error.mp hr with hr | ⟨s', hs', hr⟩
    · exact .present ((herror e).mp hr)
    · exact .missing (hok.mp ⟨s', hs'⟩) ((hf s' hs').mp hr)
  · rintro (hm | ⟨hs, hm⟩)
    · exact bind_error.mpr (.inl ((herror e).mpr hm))
    · obtain ⟨s', hs'⟩ := hok.mpr hs
      exact bind_error.mpr (.inr ⟨s', hs', (hf s' hs').mpr hm⟩)

lemma decodeOptions_error (hd : Distinct es) :
    (decodeEntries CmakeDraft.known {} es).bind CmakeDraft.complete = .error e ↔
      Fault Misfit optionWanted requiredOptions es e :=
  checks_options.decodeTable hd.values {} fun _ hs =>
    CmakeDraft.complete_error (CmakeDraft.slots hd.keys hs)

/-- The fault of listed options from one of them on: the first that does not fit, or else that there
are too few. -/
def ListFault (names : List String) (vs : List Value) (n : Nat) (e : DataError) : Prop :=
  FirstMisfit Misfit optionWanted (names.zip vs) e ∨
    Sound Misfit optionWanted (names.zip vs) ∧ vs.length + 1 < names.length ∧
      e = .tooShort (n + vs.length)

lemma listFault_nil (h : 1 < names.length) (n : Nat) {α : Type} :
    (.error (.tooShort n) : Except DataError α) = .error e ↔ ListFault names [] n e := by
  rw [ListFault, List.zip_nil_right, Except.error.injEq]
  simp [not_firstMisfit_nil, sound_nil, h, eq_comm]

lemma listFault_bind {α β : Type} {decoder : Decoder α} {f : α → Except DataError β}
    (hdec : ∀ e, decoder v = .error e ↔ Misfit v want e) (hk : optionWanted.lookup k = some want)
    (hf : ∀ x, f x = .error e ↔ ListFault names vs (n + 1) e) :
    (decoder v >>= f) = .error e ↔ ListFault (k :: names) (v :: vs) n e := by
  rw [ListFault, List.zip_cons_cons, firstMisfit_cons, sound_cons]
  rcases hr : decoder v with e' | x
  · have honly : ∀ e, Misfit v want e ↔ e' = e := fun e => by
      rw [← hdec e, hr, Except.error.injEq]
    simp [hk, honly, bind, Except.bind]
  · have hnone : ∀ e, ¬ Misfit v want e := fun e hm => by
      rw [← hdec e, hr] at hm
      simp at hm
    have hlen : n + (v :: vs).length = n + 1 + vs.length := by
      rw [List.length_cons]
      omega
    show f x = .error e ↔ _
    rw [hf x, ListFault, hlen]
    simp [hk, hnone]

lemma decodePositions_error :
    decodePositions vs = .error e ↔ ListFault optionNames vs 0 e := by
  unfold decodePositions optionNames
  rcases vs with _ | ⟨v₁, vs⟩
  · exact listFault_nil (by simp) 0
  refine listFault_bind (fun _ => decodeString_error) rfl fun _ => ?_
  rcases vs with _ | ⟨v₂, vs⟩
  · exact listFault_nil (by simp) 1
  refine listFault_bind (fun _ => decodeString_error) rfl fun _ => ?_
  rcases vs with _ | ⟨v₃, vs⟩
  · exact listFault_nil (by simp) 2
  refine listFault_bind (fun _ => decodeBool_error) rfl fun _ => ?_
  rcases vs with _ | ⟨v₄, vs⟩
  · exact listFault_nil (by simp) 3
  refine listFault_bind (fun _ => decodeStrings_error) rfl fun _ => ?_
  rcases vs with _ | ⟨v₅, vs⟩
  · exact listFault_nil (by simp) 4
  refine listFault_bind (fun _ => decodeBool_error) rfl fun _ => ?_
  rcases vs with _ | ⟨v₆, vs⟩
  · exact listFault_nil (by simp) 5
  refine listFault_bind (fun _ => decodeBool_error) rfl fun _ => ?_
  rcases vs with _ | ⟨v₇, vs⟩
  · simp [ListFault, not_firstMisfit_nil, bind, Except.bind, pure, Except.pure]
  · refine listFault_bind (fun _ => decodeStrings_error) rfl fun _ => ?_
    simp [ListFault, not_firstMisfit_nil, pure, Except.pure]

lemma decodeCmake_error (hd : v.Distinct) :
    decodeCmake v = .error e ↔ FieldMisfit v .cmake e := by
  have hnames : optionNames.length = 7 := rfl
  constructor
  · intro h
    cases v with
    | table o t => exact .table ((decodeOptions_error hd.entries).mp h)
    | array g vs =>
      rcases decodePositions_error.mp h with h | ⟨hs, hlen, rfl⟩
      · exact .listed h
      · rw [Nat.zero_add]
        exact .short hs (by omega)
    | datetime text =>
      obtain rfl := Except.error.inj h
      exact .date
    | _ =>
      obtain rfl := Except.error.inj h
      exact .kind (by simp) (by simp) (by simp)
  · intro h
    cases h with
    | plain h => nomatch h
    | kind hs ha ht =>
      cases v with
      | table o t => exact absurd rfl (ht o t)
      | array g vs => exact absurd rfl (ha g vs)
      | datetime text => exact absurd rfl (hs text)
      | _ => rfl
    | date => rfl
    | table h => exact (decodeOptions_error hd.entries).mpr h
    | listed h => exact decodePositions_error.mpr (.inl h)
    | short hs hlen =>
      exact decodePositions_error.mpr (.inr ⟨hs, by omega, by simp⟩)

/-! ### The whole document -/

lemma fieldMisfit_plain (h : want ≠ .cmake) : FieldMisfit v want e ↔ Misfit v want e := by
  constructor
  · rintro (h' | _ | _ | _ | _ | _)
    · exact h'
    all_goals exact absurd rfl h
  · exact .plain

lemma map_error_plain {α : Type} {decoder : Decoder α} {f : α → σ} (hw : want ≠ .cmake)
    (h : decoder v = .error e ↔ Misfit v want e) :
    (decoder v).map f = .error e ↔ FieldMisfit v want e :=
  map_error.trans (h.trans (fieldMisfit_plain hw).symm)

lemma checks_fields : Checks Draft.known fieldWanted FieldMisfit where
  unknown := by
    intro k hk
    unfold Draft.known
    split
    case h_8 => rfl
    all_goals simp [fieldWanted] at hk
  known := by
    intro k want hk
    obtain ⟨front, rest, hsplit, -⟩ := List.lookup_eq_some_iff.mp hk
    have hmem : (k, want) ∈ fieldWanted := by simp [hsplit]
    simp only [fieldWanted, List.mem_cons, Prod.mk.injEq, List.not_mem_nil, or_false] at hmem
    rcases hmem with ⟨rfl, rfl⟩ | ⟨rfl, rfl⟩ | ⟨rfl, rfl⟩ | ⟨rfl, rfl⟩ | ⟨rfl, rfl⟩ | ⟨rfl, rfl⟩ |
      ⟨rfl, rfl⟩
    · exact ⟨_, rfl, fun _ _ _ _ => map_error_plain (by simp) decodeString_error⟩
    · exact ⟨_, rfl, fun _ _ _ _ => map_error_plain (by simp) decodeString_error⟩
    · exact ⟨_, rfl, fun _ _ _ _ => map_error_plain (by simp) decodeString_error⟩
    · exact ⟨_, rfl, fun _ _ _ _ => map_error_plain (by simp) decodeString_error⟩
    · exact ⟨_, rfl, fun _ _ _ _ => map_error_plain (by simp) decodeU32_error⟩
    · exact ⟨_, rfl, fun _ _ _ _ => map_error_plain (by simp) decodeBool_error⟩
    · exact ⟨_, rfl, fun _ _ _ hd => map_error.trans (decodeCmake_error hd)⟩

/-- What is reported of a document is its fault. -/
lemma decode_error (hd : Distinct es) : decode es = .error e ↔ DocumentFault es e :=
  checks_fields.decodeTable hd.values {} fun _ hs => Draft.complete_error (Draft.slots hd.keys hs)

/-! ### Unknown keys -/

lemma decodeEntries_filter {p : String → Bool} (hp : ∀ k, p k = false → known k = none) (s : σ)
    (es : Entries) :
    decodeEntries known s (es.filter fun e => p e.1) = decodeEntries known s es := by
  induction es generalizing s with
  | nil => rfl
  | cons entry es ih =>
    rcases entry with ⟨k, v⟩
    rw [decodeEntries_cons]
    rcases hk : p k with _ | _
    · rw [List.filter_cons_of_neg (by simp [hk]), hp k hk]
      exact ih s
    · rw [List.filter_cons_of_pos (by simpa using hk), decodeEntries_cons]
      rcases known k with _ | f
      · exact ih s
      · exact bind_congr ih

lemma decodeEntries_map {g : String × Value → String × Value}
    (hg : ∀ e s, decodeEntries known s [g e] = decodeEntries known s [e]) (s : σ) (es : Entries) :
    decodeEntries known s (es.map g) = decodeEntries known s es := by
  induction es generalizing s with
  | nil => rfl
  | cons e es ih =>
    have hsplit : ∀ e es, decodeEntries known s (e :: es) =
        decodeEntries known s [e] >>= fun s => decodeEntries known s es :=
      fun e es => decodeEntries_append known s [e] es
    rw [List.map_cons, hsplit, hg, hsplit e es]
    exact bind_congr ih

/-- Unknown options make no difference. -/
lemma decodeCmake_filter (o o' : Origin) (es : Entries) :
    decodeCmake (.table o (es.filter fun e => (optionWanted.lookup e.1).isSome)) =
      decodeCmake (.table o' es) := by
  have hp : ∀ k, (optionWanted.lookup k).isSome = false → CmakeDraft.known k = none :=
    fun k hk => checks_options.unknown k (by simpa using hk)
  show (decodeEntries CmakeDraft.known {} _).bind _ = _
  rw [decodeEntries_filter hp]
  rfl

/-- Unknown keys make no difference. -/
lemma decode_knownPart (es : Entries) : decode (knownPart es) = decode es := by
  have hp : ∀ k, (fieldWanted.lookup k).isSome = false → Draft.known k = none :=
    fun k hk => checks_fields.unknown k (by simpa using hk)
  unfold decode knownPart
  rw [decodeEntries_map, decodeEntries_filter hp]
  intro e d
  split
  · rename_i o t
    rw [decodeEntries_known rfl, decodeEntries_known rfl, decodeCmake_filter]
  · rfl

/-! ### What is reported -/

/-- **The first fault of a document** is the one that is reported: the entries stand in the order
that the lines tell, those of the configure options too; a configuration is refused just for its
fault, under the name of the file; and unknown keys neither make nor hide one. A text that is no
document has no such fault, and is refused as a whole. -/
theorem load_reports {t t' : FileTree} {path : Path} {text : String}
    (hr : (FileOp.readAll path).run t = .ok (Bytes.ofString text, t')) :
    (document? text = none → load t path = .error (.noConfig path .noDocument)) ∧
    ∀ ls es, lines? (skipMark text.toList) = some ls → assemble? ls = some es →
      (es.map Prod.fst = keyOrder (marks [] ls) ∧
        ∀ o options, es.lookup "cmake" = some (.table o options) →
          options.map Prod.fst = keyOrder ((marks [] ls).filterMap (Mark.below "cmake"))) ∧
      (∀ err, load t path = .error err ↔
        ∃ e, err = .noConfig path (.data e) ∧ DocumentFault es e) ∧
      (∀ e, (LoadError.noConfig path (.data e)).message =
        "parse config " ++ path.display ++ (": TOML parse error: " ++ e.message)) ∧
      ∀ (u u' : FileTree) (path' : Path) (text' : String) (es' : Entries),
        (FileOp.readAll path').run u = .ok (Bytes.ofString text', u') →
        document? text' = some es' → knownPart es' = knownPart es →
          (∀ c, load u path' = .ok c ↔ load t path = .ok c) ∧
          ∀ e, load u path' = .error (.noConfig path' e) ↔
            load t path = .error (.noConfig path e) := by
  refine ⟨load_refused hr, fun ls es hls hes => ?_⟩
  have hd : document? text = some es := by
    rw [document?, hls]
    exact hes
  have horder := ordered_assemble (distinct_lines hls) hes
  refine ⟨⟨horder.keys, horder.inner "cmake"⟩, fun err => ?_, fun e => ?_, ?_⟩
  · rw [load_document hr hd]
    rcases hdec : decode es with e | c
    · have hfault := (decode_error (distinct_document hd)).mp hdec
      constructor
      · intro herr
        exact ⟨e, (Except.error.inj herr).symm, hfault⟩
      · rintro ⟨e', rfl, hfault'⟩
        have hdec' := (decode_error (distinct_document hd)).mpr hfault'
        obtain rfl := Except.error.inj (hdec.symm.trans hdec')
        rfl
    · constructor
      · intro herr
        simp [Except.mapError] at herr
      · rintro ⟨e', -, hfault'⟩
        have hdec' := (decode_error (distinct_document hd)).mpr hfault'
        simp [hdec] at hdec'
  · rw [← String.append_assoc]
    rfl
  · intro u u' path' text' es' hr' hd' hknown
    rw [load_document hr hd, load_document hr' hd', ← decode_knownPart es, ← hknown,
      decode_knownPart]
    rcases decode es' with e | c
    · simp [Except.mapError]
    · simp [Except.mapError]

/-- An unknown key, options with two faults behind an unknown one, and a job count below zero. -/
def faultyText : String :=
  "x = 1\ncmake = \x7by = 2, targets = [\"a\", 3], generator = 5\x7d\nbuild_jobs = -1\n"

def faultyOptions : Entries :=
  [("y", .integer 2), ("targets", .array false [.string "a", .integer 3]),
   ("generator", .integer 5)]

def faultyEntries : Entries :=
  [("x", .integer 1), ("cmake", .table .inline faultyOptions), ("build_jobs", .integer (-1))]

def faultyLines : List Line :=
  [.assign [] "x" (.integer 1), .assign [] "cmake" (.table .inline faultyOptions),
   .assign [] "build_jobs" (.integer (-1))]

/-- The fault is an element of the targets; the other faults come behind it. -/
theorem load_reports_element :
    lines? (skipMark faultyText.toList) = some faultyLines ∧
      assemble? faultyLines = some faultyEntries ∧
      load (soleFile (Bytes.ofString faultyText)) [102] =
        .error (.noConfig [102] (.data (.wrongType (.integer 3) .string))) ∧
      (LoadError.noConfig [102] (.data (.wrongType (.integer 3) .string))).message =
        "parse config f: TOML parse error: invalid type: integer `3`, expected a string" := by
  have hls : lines? (skipMark faultyText.toList) = some faultyLines := by cbv
  have hes : assemble? faultyLines = some faultyEntries := rfl
  have hoptions : FirstMisfit Misfit optionWanted faultyOptions
      (.wrongType (.integer 3) .string) :=
    .at [("y", .integer 2)] (sound_unknown rfl _) rfl
      (.element [.string "a"] (by simp) (by simp))
  have hfault : DocumentFault faultyEntries (.wrongType (.integer 3) .string) :=
    .present (.at [("x", .integer 1)] (sound_unknown rfl _) rfl
      (.table (.present hoptions)))
  obtain ⟨-, hreport, hmessage, -⟩ := (load_reports (readAll_soleFile _)).2 _ _ hls hes
  have hpath : Path.display [102] = "f" := by cbv
  refine ⟨hls, hes, (hreport _).mpr ⟨_, rfl, hfault⟩, ?_⟩
  rw [hmessage, hpath]
  rfl

/-- The header of a table behind one inside it, with another table between. -/
def passageText : String := "[cmake.generator]\n[build_jobs]\n[cmake]\n"

/-- A fault behind a number that is under a key that is not known. -/
def numberText (number : String) : String := String.ofList
  (Writer.entry "x" number.toList ++ Writer.entry "commit" (Nat.toDigits 10 1) ++
    '\n' :: headerOf "cmake")

lemma load_numberText : load (soleFile (Bytes.ofString (numberText "1e4"))) [102] =
    .error (.noConfig [102] (.data (.wrongType (.integer 1) .string))) := by
  have hcommit : Field.Good ⟨"commit", Nat.toDigits 10 1, .integer 1⟩ :=
    good_of_mem (written_toDigits (by omega)) (by simp [keys])
  have hgood : ∀ f ∈ [smallNumber, ⟨"commit", Nat.toDigits 10 1, .integer 1⟩], f.Good := by
    simpa using ⟨good_smallNumber, hcommit⟩
  have hnone : ∀ g ∈ ([] : List Field), g.Good := by simp
  have hd := document?_fields hgood hnone
    (bareKey_of_mem "cmake" (by simp [keys])) (by simp [smallNumber]) (by simp)
  have htext : numberText "1e4" = String.ofList
      ([smallNumber, ⟨"commit", Nat.toDigits 10 1, .integer 1⟩].flatMap Field.write ++
        '\n' :: headerOf "cmake" ++ [].flatMap Field.write) := by
    simp only [numberText, List.flatMap_cons, List.flatMap_nil, List.append_nil, List.append_assoc]
    rfl
  rw [htext, load_document (readAll_soleFile _) hd]
  rfl

lemma load_numberText_large : load (soleFile (Bytes.ofString (numberText "1e400"))) [102] =
    .error (.noConfig [102] .noDocument) := by
  have hnone : document? (numberText "1e400") = none := by
    simp only [numberText, List.append_assoc, document?_overflown]
  exact load_refused (readAll_soleFile _) hnone

/-- The table that an inner header already named stands where its own header is, so that it is not
always the key that was written first whose fault is reported. A number that is too large hides the
fault behind it. -/
theorem not_first_written : (∃ ls es es₀ e e₀,
    lines? (skipMark passageText.toList) = some ls ∧ assemble? ls = some es ∧ es₀.Perm es ∧
      es₀.map Prod.fst = keyOrder ((marks [] ls).map fun m => ⟨m.path, false⟩) ∧
      DocumentFault es₀ e₀ ∧
      load (soleFile (Bytes.ofString passageText)) [102] = .error (.noConfig [102] (.data e)) ∧
      load (soleFile (Bytes.ofString passageText)) [102] ≠ .error (.noConfig [102] (.data e₀))) ∧
    ¬ ∀ (number number' : String) (e : DataError), Exponential number → Exponential number' →
      load (soleFile (Bytes.ofString (numberText number))) [102] =
        .error (.noConfig [102] (.data e)) →
      load (soleFile (Bytes.ofString (numberText number'))) [102] =
        .error (.noConfig [102] (.data e)) := by
  have hls : lines? (skipMark passageText.toList) =
      some [.header ["cmake"] "generator", .header [] "build_jobs", .header [] "cmake"] := by cbv
  have hes : assemble? [.header ["cmake"] "generator", .header [] "build_jobs",
      .header [] "cmake"] = some [("build_jobs", .table .header []),
        ("cmake", .table .header [("generator", .table .header [])])] := rfl
  have hd : document? passageText = some [("build_jobs", .table .header []),
      ("cmake", .table .header [("generator", .table .header [])])] := by
    rw [document?, hls]
    exact hes
  have hload : load (soleFile (Bytes.ofString passageText)) [102] =
      .error (.noConfig [102] (.data (.wrongType (.table .header []) .u32))) := by
    rw [load_document (readAll_soleFile _) hd]
    rfl
  have hoptions : FirstMisfit Misfit optionWanted [("generator", .table .header [])]
      (.wrongType (.table .header []) .string) :=
    .at [] sound_nil rfl (.string (by simp))
  refine ⟨⟨_, _, [("cmake", .table .header [("generator", .table .header [])]),
    ("build_jobs", .table .header [])], _, .wrongType (.table .header []) .string, hls, hes,
    .swap .., rfl, .present (.at [] sound_nil rfl (.table (.present hoptions))),
    hload, ?_⟩, fun h => ?_⟩
  · rw [hload]
    simp
  · have hsame := h "1e4" "1e400" _ exponential_small exponential_large load_numberText
    rw [load_numberText_large] at hsame
    cases hsame

end PinnedBuild.Config
