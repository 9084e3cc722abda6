import Mathlib
import PinnedBuild.Proofs.Archive.TopNames
import PinnedBuild.Proofs.LogIndependence

/-!
Members whose paths lead upwards are passed over: each is warned of and leaves all else as it was,
so that an archive without them is extracted to the same end. No other member is passed over.
-/

namespace PinnedBuild.Archive

open Files

variable {dest archive : Path} {names : List Name} {m : Member} {ms : List Member} {w v : World}
  {feed : Feed}

/-- A member that is passed over. -/
def Member.IsSkipped (m : Member) : Prop := m.kind ≠ .globalRecords ∧ m.LeadsUp

instance (m : Member) : Decidable m.IsSkipped := inferInstanceAs (Decidable (_ ∧ _))

def Member.warning (m : Member) : LogLine :=
  ⟨.warn, .extract, "skipped archive entry outside destination: " ++ m.path.display⟩

/-- The lines that warn of members, unless the log drops them. -/
def warnings (f : LogFilter) (ms : List Member) : List LogLine :=
  ((ms.filter fun m => m.IsSkipped).map Member.warning).filter f.keeps

/-! ### One member -/

lemma run_extractMember_skipped (h : m.IsSkipped) (dest : Path) (names : List Name) (v : World) :
    (extractMember dest names m).run v = (.ok names, v.say m.warning) := by
  have hmember : (Unpacking.member dest m).run v.files = (.ok false, v.files) := by
    unfold Unpacking.member
    rw [Unpacking.names?_of_leadsUp h.2]
    rfl
  unfold extractMember
  rw [if_neg h.1, run_bind, Act.run_onFiles, hmember]
  rfl

/-- Members that are not passed over are unpacked, or nothing is done with them, or they cannot be
unpacked. Nothing is said of them. -/
lemma after_extractMember_quiet (h : ¬ m.IsSkipped) (dest : Path) (names : List Name) (v : World) :
    After (extractMember dest names m) v
      (fun _ v' => v' = { v with files := v'.files } ∧
        (m.kind = .globalRecords ∧ v' = v ∨
          (Unpacking.member dest m).run v.files = (.ok true, v'.files)))
      fun e v' => v' = { v with files := v'.files } ∧
        ∃ e', e = .cannotUnpack m e' ∧
          (Unpacking.member dest m).run v.files = (.error e', v'.files) := by
  unfold extractMember
  split
  · exact after_pure ⟨rfl, .inl ⟨by assumption, rfl⟩⟩
  · rename_i hk
    have hup : ¬ m.LeadsUp := fun hup => h ⟨hk, hup⟩
    have htold := Unpacking.after_member_told dest m v.files
    unfold After at htold ⊢
    rw [run_bind, Act.run_onFiles]
    rcases hrun : (Unpacking.member dest m).run v.files with ⟨e | unpacked, t⟩ <;>
      rw [hrun] at htold
    · exact ⟨rfl, e, rfl, rfl⟩
    · obtain rfl := htold.mpr hup
      exact ⟨rfl, .inr rfl⟩

/-! ### What is said -/

lemma warnings_cons_of_skipped (h : m.IsSkipped) (f : LogFilter) (ms : List Member) :
    warnings f (m :: ms) = [m.warning].filter f.keeps ++ warnings f ms := by
  unfold warnings
  rw [List.filter_cons_of_pos (by simpa using h), List.map_cons, List.filter_cons, List.filter_cons]
  split <;> rfl

lemma warnings_cons_of_not_skipped (h : ¬ m.IsSkipped) (f : LogFilter) (ms : List Member) :
    warnings f (m :: ms) = warnings f ms := by
  unfold warnings
  rw [List.filter_cons_of_neg (by simpa using h)]

/-- The members up to one that fails are told of. -/
lemma after_extractMembers_told (dest : Path) (ms : List Member) (names : List Name) (v : World) :
    After (ms.foldlM (extractMember dest) names) v
      (fun _ v' => v'.events = v.events ++ (warnings v.filter ms).map .logged)
      fun _ v' => ∃ done, done <+: ms ∧
        v'.events = v.events ++ (warnings v.filter done).map .logged := by
  induction ms generalizing names v with
  | nil => exact after_pure (by simp [warnings])
  | cons m ms ih =>
    rw [List.foldlM_cons]
    by_cases h : m.IsSkipped
    · refine after_bind ?_
      unfold After
      rw [run_extractMember_skipped h]
      have hcons : ∀ ms, (v.say m.warning).events ++
          (warnings (v.say m.warning).filter ms).map Event.logged =
          v.events ++ (warnings v.filter (m :: ms)).map .logged := by
        intro ms
        rw [World.events_say, World.filter_say, warnings_cons_of_skipped h, List.map_append,
          List.append_assoc]
      refine (ih names (v.say m.warning)).mono (fun _ v' hv => ?_) fun _ v' hv => ?_
      · rw [hv, hcons]
      · obtain ⟨done, hdone, hv⟩ := hv
        exact ⟨m :: done, List.cons_prefix_cons.mpr ⟨rfl, hdone⟩, by rw [hv, hcons]⟩
    · refine after_bind ((after_extractMember_quiet h dest names v).mono ?_ ?_)
      · rintro names v' ⟨hv, -⟩
        rw [warnings_cons_of_not_skipped h]
        have hevents : v'.events = v.events := by rw [hv]
        have hfilter : v'.filter = v.filter := by rw [hv]
        rw [← hevents, ← hfilter]
        refine (ih names v').mono (fun _ _ h => h) ?_
        rintro _ u ⟨done, hdone, hu⟩
        exact ⟨m :: done, List.cons_prefix_cons.mpr ⟨rfl, hdone⟩, by
          rw [warnings_cons_of_not_skipped h, hu]⟩
      · rintro _ v' ⟨hv, -⟩
        refine ⟨[], List.nil_prefix, ?_⟩
        rw [hv]
        simp [warnings]

/-! ### Without them -/

/-- Worlds with the same log that differ in nothing but what they have been told. -/
def ToldApart (s : Sink) (w v : World) : Prop := ∃ front back, World.Beside s front back w v

lemma lifts_toldApart (s : Sink) : World.Lifts s.Alike (ToldApart s) where
  files := fun ⟨_, _, h⟩ => h.files
  exchange := fun ⟨front, back, h⟩ ht => ⟨front, back, h.exchange ht⟩
  say line := fun ⟨front, back, h⟩ => ⟨front, back, (World.lifts_beside s front back).say line h⟩

/-- One of the two is told something more. -/
lemma ToldApart.say_left {s : Sink} (h : ToldApart s w v) (line : LogLine) :
    ToldApart s (w.say line) v := by
  obtain ⟨_, _, h⟩ := h
  have hlog := World.steady_logged w (if w.filter.keeps line then [line] else [])
  rw [← World.say_eq] at hlog
  refine ⟨(w.say line).events, v.events, ?_⟩
  constructor
  case sink => exact ⟨(World.sink_say w line).trans h.sink.1, h.sink.2⟩
  case filter => exact h.filter.trans hlog.1.symm
  case time => exact h.time.trans hlog.2.symm
  case files =>
    have hfiles := h.files.symm
    rw [← h.sink.1] at hfiles ⊢
    rw [World.say_eq]
    exact (World.alike_logged w _ hfiles).symm
  case events => exact ⟨[], by simp, by simp⟩

/-- Members that are passed over can be left out. -/
lemma twin_filter {s : Sink} (h : ToldApart s w v) (dest : Path) (ms : List Member)
    (names : List Name) :
    Twin (ToldApart s) (ms.foldlM (extractMember dest) names)
      ((ms.filter fun m => ¬ m.IsSkipped).foldlM (extractMember dest) names) w v := by
  induction ms generalizing names w v with
  | nil => exact twin_pure _ h
  | cons m ms ih =>
    by_cases hm : m.IsSkipped
    · -- Only the first of the two runs meets this member, and it says something.
      rw [List.filter_cons_of_neg (by simpa using hm)]
      have hrun : ((m :: ms).foldlM (extractMember dest) names).run w =
          (ms.foldlM (extractMember dest) names).run (w.say m.warning) := by
        rw [List.foldlM_cons, run_bind, run_extractMember_skipped hm]
      unfold Twin
      rw [hrun]
      exact ih (h.say_left m.warning) names
    · rw [List.filter_cons_of_pos (by simpa using hm), List.foldlM_cons, List.foldlM_cons]
      exact (twin_extractMember (lifts_toldApart s) (Sink.Alike.enduring s) h dest names m).bind
        fun names w v h => ih h names

/-- What becomes of members, one by one and all together. -/
structure PassesOver (archive dest : Path) (ms : List Member) (w : World) : Prop where
  /-- A member that is passed over is warned of, and leaves all else as it was. -/
  skipped m names v : m.IsSkipped →
    (extractMember dest names m).run v = (.ok names, v.say m.warning)
  /-- Any other is unpacked, or holds records for all, or makes extraction fail. -/
  others m names v : ¬ m.IsSkipped → After (extractMember dest names m) v
    (fun _ v' => v' = { v with files := v'.files } ∧
      (m.kind = .globalRecords ∧ v' = v ∨
        (Unpacking.member dest m).run v.files = (.ok true, v'.files)))
    fun e v' => v' = { v with files := v'.files } ∧
      ∃ e', e = .cannotUnpack m e' ∧ (Unpacking.member dest m).run v.files = (.error e', v'.files)
  /-- Each member that is passed over is warned of once, up to one that makes extraction fail. -/
  told : After (extract archive dest) w
    (fun _ v => v.events = w.events ++ (warnings w.filter ms).map .logged)
    fun _ v => ∃ done, done <+: ms ∧
      v.events = w.events ++ (warnings w.filter done).map .logged
  /-- An archive without them is extracted to the same end. -/
  without archive' feed' : (feedOf archive').run w.files = .ok (feed', w.files) →
    members feed' = (ms.filter fun m => ¬ m.IsSkipped, true) →
    ((extract archive dest).run w).1 = ((extract archive' dest).run w).1 ∧
      w.sink.Alike ((extract archive dest).run w).2.files ((extract archive' dest).run w).2.files

/-- **Skipping**: members whose paths lead upwards are passed over, and only they. -/
theorem extract_passes_over (hfeed : (feedOf archive).run w.files = .ok (feed, w.files))
    (hms : members feed = (ms, true)) (dest : Path) : PassesOver archive dest ms w where
  skipped _ names v h := run_extractMember_skipped h dest names v
  others _ names v h := after_extractMember_quiet h dest names v
  told := by
    unfold After
    rw [run_extract_whole hfeed hms]
    exact after_extractMembers_told dest ms [] w
  without archive' feed' hfeed' hms' := by
    rw [run_extract_whole hfeed hms, run_extract_whole hfeed' hms']
    obtain ⟨hvalue, _, _, hbeside⟩ := twin_filter ⟨_, _, World.Beside.refl w⟩ dest ms []
    exact ⟨hvalue, hbeside.files⟩

/-- A file "../f" and a file "a". -/
def climbing : List Entry :=
  [⟨[46, 46, 47, 102], false, 0o644, []⟩, ⟨[97], false, 0o644, []⟩]

/-- The member that climbs out is passed over, and the other one is unpacked. -/
theorem extract_passes_over_climbing :
    (feedOf [97]).run (besideArchive (gzipped (written climbing))) =
        .ok (⟨written climbing, true, 0⟩, besideArchive (gzipped (written climbing))) ∧
      members ⟨written climbing, true, 0⟩ = (climbing.map Entry.member, true) ∧
      PassesOver [97] [100] (climbing.map Entry.member)
        { files := besideArchive (gzipped (written climbing)) } := by
  have hfits : ∀ e ∈ climbing, e.Fits := by decide
  have hlength : (written climbing).length < 65536 := by decide +kernel
  have hfeed := @feedOf_besideArchive .owner _ hlength
  have hms := members_besideArchive hfits hlength
  exact ⟨hfeed, hms, extract_passes_over (w := { files := _ }) hfeed hms [100]⟩

/-- A file "/f". -/
def rooted : List Entry := [⟨[47, 102], false, 0o644, [1]⟩]

/-- A path that begins with a slash is not passed over, but unpacked below the directory. -/
theorem extract_rooted :
    (∀ e ∈ rooted, e.Fits ∧ Path.isAbsolute e.path = true) ∧
      ∃ v, (extract [97] [100]).run { files := besideArchive (gzipped (written rooted)) } =
          (.ok [], v) ∧
        v.events = [] ∧ v.files.object? [[100], [102]] = some (.file ⟨[1], 0o644⟩) := by
  have hfits : ∀ e ∈ rooted, e.Fits := by decide
  have hrooted : ∀ e ∈ rooted, Path.isAbsolute e.path = true := by decide
  refine ⟨fun e he => ⟨hfits e he, hrooted e he⟩, ?_⟩
  rw [extract_besideArchive hfits (by decide +kernel)]
  refine ⟨_, Prod.ext (ok_of_toOption (by decide +kernel)) rfl, ?_, ?_⟩
  · decide +kernel
  · decide +kernel

end PinnedBuild.Archive
