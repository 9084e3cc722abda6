import Mathlib
import PinnedBuild.Download.Fetch
import PinnedBuild.Proofs.World

/-!
How a download ends and what its file then holds, for storage that may take no more at any point.

The pieces are written one after the other whatever their sizes, so that what is held is what was
received, and a failure to write is told before one of the transfer and that before the status.
-/

namespace PinnedBuild.Download

open Files FileTree

variable {disk : Disk} {h : Handle} {id : Nat} {t u : FileTree} {g : File} {w : World}

namespace Disk

/-- Writing pieces one after the other, up to one that cannot be written. -/
def writes (disk : Disk) (h : Handle) (pieces : List Bytes) (t : FileTree) :
    Except FileError Unit × FileTree :=
  (pieces.forM (disk.write h)).run t

lemma writes_cons (piece : Bytes) (rest : List Bytes) (t : FileTree) :
    disk.writes h (piece :: rest) t = match (disk.write h piece).run t with
      | (.ok _, u) => disk.writes h rest u
      | (.error e, u) => (.error e, u) := by
  show (disk.write h piece >>= fun _ => rest.forM (disk.write h)).run t = _
  rw [run_bind]
  rcases (disk.write h piece).run t with ⟨e | _, u⟩ <;> rfl

/-- Receiving pieces writes them, and counts their bytes if all can be written. -/
lemma run_receive (pieces : List Bytes) (n : Nat) (t : FileTree) :
    ∃ count, (disk.receive h n pieces).run t =
        (.ok (count, match (disk.writes h pieces t).1 with
          | .ok _ => none
          | .error e => some e), (disk.writes h pieces t).2) ∧
      ((disk.writes h pieces t).1 = .ok () → count = n + pieces.flatten.length) := by
  induction pieces generalizing n t with
  | nil => exact ⟨n, rfl, fun _ => by simp⟩
  | cons piece rest ih =>
    rw [writes_cons, receive, run_bind, run_tryCatch, run_bind]
    rcases (disk.write h piece).run t with ⟨e | _, u⟩
    · exact ⟨n, rfl, by simp⟩
    · obtain ⟨count, hc, hn⟩ := ih (n + piece.length) u
      refine ⟨count, hc, fun hok => ?_⟩
      rw [hn hok, List.flatten_cons, List.length_append, Nat.add_assoc]

/-! ### What a file holds -/

lemma run_write_file (b : Bytes) (t : FileTree) :
    (disk.write (.file id) b).run t = match disk t id b with
      | none => (.ok (), t.append id b)
      | some (n, e) => (.error e, t.append id (b.take n)) := by
  unfold write
  rw [run_bind]
  show (match disk t id b with
    | none => _
    | some (n, e) => _ : FileAct Unit).run t = _
  rcases disk t id b with _ | ⟨n, e⟩
  · rfl
  · rfl

/-- What of the pieces a file takes: all of them, or those in front of one that is refused and as
much of that one as there is room for. -/
def Takes (disk : Disk) (id : Nat) (t : FileTree) (pieces : List Bytes) (bytes : Bytes) : Prop :=
  (disk.writes (.file id) pieces t).1 = .ok () ∧ bytes = pieces.flatten ∨
    ∃ done piece rest n e, (disk.writes (.file id) pieces t).1 = .error e ∧
      pieces = done ++ piece :: rest ∧ (disk.writes (.file id) done t).1 = .ok () ∧
      disk (t.append id done.flatten) id piece = some (n, e) ∧
      bytes = done.flatten ++ piece.take n

lemma writes_file (pieces : List Bytes) (t : FileTree) :
    ∃ bytes, (disk.writes (.file id) pieces t).2 = t.append id bytes ∧
      disk.Takes id t pieces bytes := by
  induction pieces generalizing t with
  | nil => exact ⟨[], (append_nil t id).symm, .inl ⟨rfl, rfl⟩⟩
  | cons piece rest ih =>
    rcases hd : disk t id piece with _ | ⟨n, e⟩
    · have hcons : ∀ more, disk.writes (.file id) (piece :: more) t =
          disk.writes (.file id) more (t.append id piece) := by
        intro more
        rw [writes_cons, run_write_file, hd]
      obtain ⟨bytes, hb, htakes⟩ := ih (t.append id piece)
      refine ⟨piece ++ bytes, by rw [hcons, hb, append_append], ?_⟩
      rcases htakes with ⟨hok, rfl⟩ | ⟨done, p, rest', n, e, herr, rfl, hdone, hp, rfl⟩
      · exact .inl ⟨by rw [hcons, hok], rfl⟩
      · refine .inr ⟨piece :: done, p, rest', n, e, by rw [hcons, herr], rfl, by rw [hcons, hdone],
          ?_, by simp⟩
        rwa [append_append] at hp
    · have hstop : disk.writes (.file id) (piece :: rest) t =
          (.error e, t.append id (piece.take n)) := by
        rw [writes_cons, run_write_file, hd]
      refine ⟨piece.take n, by rw [hstop], .inr ⟨[], piece, rest, n, e, by rw [hstop], rfl, rfl, ?_,
        rfl⟩⟩
      rw [List.flatten_nil, append_nil, hd]

/-- Devices keep nothing. -/
lemma writes_device (d : Device) (pieces : List Bytes) (t : FileTree) :
    (disk.writes (.device d) pieces t).2 = t := by
  induction pieces with
  | nil => rfl
  | cons piece rest ih =>
    rw [writes_cons]
    show (match (FileOp.toAct (FileOp.write (.device d) piece)).run t with
      | (.ok _, u) => disk.writes (.device d) rest u
      | (.error e, u) => (.error e, u)).2 = t
    rw [FileOp.run_toAct]
    rcases hw : (FileOp.write (.device d) piece).run t with e | ⟨y, u⟩
    · rfl
    · obtain rfl := FileOp.write_device_ok hw
      exact ih

end Disk

/-! ### How a download ends -/

/-- The first of the failures, or the number of bytes. -/
def told (url : String) (dest : Path) (written : Except FileError Unit)
    (outcome : Except TransferError Nat) (n : Nat) : Except FetchError Nat :=
  match written, outcome with
  | .error e, _ => .error (.storage dest e)
  | .ok _, .error e => .error (.transfer e)
  | .ok _, .ok code => if 200 ≤ code ∧ code < 300 then .ok n else .error (.status url code)

section

variable {url : String} {dest : Path} {written : Except FileError Unit}
  {outcome : Except TransferError Nat} {n k code : Nat}

lemma told_ok : told url dest written outcome n = .ok k ↔
    written = .ok () ∧ (∃ code, outcome = .ok code ∧ 200 ≤ code ∧ code < 300) ∧ k = n := by
  unfold told
  rcases written with e | _
  · simp
  rcases outcome with e | code
  · simp
  · by_cases hcode : 200 ≤ code ∧ code < 300
    · simp [hcode, eq_comm]
    · simp only [if_neg hcode]
      simpa using fun h₁ h₂ => absurd ⟨h₁, h₂⟩ hcode

lemma told_storage {e : FileError} :
    told url dest written outcome n = .error (.storage dest e) ↔ written = .error e := by
  unfold told
  rcases written with e' | _
  · simp
  rcases outcome with e' | code
  · simp
  · simp only
    split_ifs <;> simp

lemma told_transfer {e : TransferError} :
    told url dest written outcome n = .error (.transfer e) ↔
      written = .ok () ∧ outcome = .error e := by
  unfold told
  rcases written with e' | _
  · simp
  rcases outcome with e' | code
  · simp
  · simp only
    split_ifs <;> simp

lemma told_status : told url dest written outcome n = .error (.status url code) ↔
    written = .ok () ∧ outcome = .ok code ∧ ¬ (200 ≤ code ∧ code < 300) := by
  unfold told
  rcases written with e | _
  · simp
  rcases outcome with e | code'
  · simp
  · simp only
    split_ifs with hcode
    · simp only [false_iff]
      rintro ⟨-, ⟨rfl⟩, hnot⟩
      exact hnot hcode
    · simp only [Except.error.injEq, FetchError.status.injEq, true_and, Except.ok.injEq]
      constructor
      · rintro rfl
        exact ⟨rfl, hcode⟩
      · exact fun h => h.1

end

lemma run_fetchOnto (disk : Disk) (net : Network) (url : String) (dest : Path)
    (options : FetchOptions) (hc : (FileOp.create dest).run w.files = .ok (h, u)) :
    (fetchOnto disk net url dest options).run w =
      let t := transferOf net url options
      let written := disk.writes h t.pieces u
      (told url dest written.1 t.outcome t.pieces.flatten.length,
        { w with files := written.2, events := w.events ++ t.requests.map .requested }) := by
  unfold fetchOnto
  rw [run_bind, Act.run_op, hc]
  simp only
  rw [run_bind, Act.run_emits]
  simp only
  obtain ⟨count, hr, hn⟩ := disk.run_receive (h := h) (transferOf net url options).pieces 0 u
  rw [run_bind, Act.run_onFiles, hr]
  simp only
  rcases hw : (disk.writes h (transferOf net url options).pieces u).1 with e | ⟨⟩
  · rfl
  · obtain rfl := hn hw
    simp only [Transfer.performed, Option.isSome_none, Bool.false_eq_true, if_false, Nat.zero_add,
      told]
    rcases (transferOf net url options).outcome with e | code
    · rfl
    · simp only
      split_ifs <;> rfl

/-- What is held of the pieces where the path leads. -/
lemma held (dest : Path) (pieces : List Bytes) (hc : (FileOp.create dest).run t = .ok (h, u)) :
    (∃ loc id g, (disk.writes h pieces u).2.lookup true dest = .ok (loc, .file id) ∧
        h = .file id ∧ (disk.writes h pieces u).2.file? id = some g ∧
        disk.Takes id u pieces g.content) ∨
      ∃ loc d, (disk.writes h pieces u).2.lookup true dest = .ok (loc, .device d) ∧
        h = .device d := by
  rcases FileOp.create_ok hc with ⟨loc, id, g, hl, rfl, hg, hempty⟩ | ⟨loc, d, hl, rfl⟩
  · obtain ⟨bytes, hb, htakes⟩ := disk.writes_file pieces u
    rw [hb]
    refine .inl ⟨loc, id, _, FileOp.lookup_modifyFile _ hl, rfl, FileOp.file?_modifyFile hg _, ?_⟩
    simpa [hempty] using htakes
  · refine .inr ⟨loc, d, ?_, rfl⟩
    rw [Disk.writes_device]
    exact hl

/-- A download once its file `h` has been opened and emptied, which leaves the tree `u`. -/
structure Fetched (disk : Disk) (t : Transfer) (url : String) (dest : Path) (h : Handle)
    (u : FileTree) (w : World) (r : Except FetchError Nat) (v : World) : Prop where
  requests : v.events = w.events ++ t.requests.map .requested
  ok_iff (n : Nat) : r = .ok n ↔ (disk.writes h t.pieces u).1 = .ok () ∧
    (∃ code, t.outcome = .ok code ∧ 200 ≤ code ∧ code < 300) ∧ n = t.pieces.flatten.length
  storage_iff (e : FileError) : r = .error (.storage dest e) ↔
    (disk.writes h t.pieces u).1 = .error e
  transfer_iff (e : TransferError) : r = .error (.transfer e) ↔
    (disk.writes h t.pieces u).1 = .ok () ∧ t.outcome = .error e
  status_iff (code : Nat) : r = .error (.status url code) ↔
    (disk.writes h t.pieces u).1 = .ok () ∧ t.outcome = .ok code ∧ ¬ (200 ≤ code ∧ code < 300)
  held : (∃ loc id g, v.files.lookup true dest = .ok (loc, .file id) ∧ h = .file id ∧
      v.files.file? id = some g ∧ disk.Takes id u t.pieces g.content) ∨
    ∃ loc d, v.files.lookup true dest = .ok (loc, .device d) ∧ h = .device d

/-- **Downloads**: if the file cannot be opened, nothing is asked for and nothing changes. Otherwise
all that is asked for is seen, the first of the failures is told, and the file holds what was
written to it. -/
theorem fetchOnto_told (disk : Disk) (net : Network) (url : String) (dest : Path)
    (options : FetchOptions) (w : World) :
    match (FileOp.create dest).run w.files with
    | .error e => (fetchOnto disk net url dest options).run w = (.error (.storage dest e), w)
    | .ok (h, u) => Fetched disk (transferOf net url options) url dest h u w
        ((fetchOnto disk net url dest options).run w).1
        ((fetchOnto disk net url dest options).run w).2 := by
  split
  · rename_i e he
    unfold fetchOnto
    rw [run_bind, Act.run_op, he]
  · rename_i h u hc
    rw [run_fetchOnto disk net url dest options hc]
    generalize transferOf net url options = t
    exact ⟨rfl, fun _ => told_ok, fun _ => told_storage, fun _ => told_transfer,
      fun _ => told_status, held dest t.pieces hc⟩

/-! ### Devices -/

/-- The device that keeps nothing, in its usual place. -/
def nullTree : FileTree := (FileTree.empty.put [[100, 101, 118]] (.directory 0o755)).put
  [[100, 101, 118], [110, 117, 108, 108]] (.device .null)

def nullPath : Path := [47, 100, 101, 118, 47, 110, 117, 108, 108]

/-- A network of one answer. -/
def greeting : Network := fun _ _ => ⟨["/f"], [[104, 105]], .ok 200⟩

/-- Both bytes are written, and none is there to be read. -/
theorem fetch_null_keeps_nothing :
    ∃ v, (fetch greeting "http://h/f" nullPath {}).run { files := nullTree } = (.ok 2, v) ∧
      (FileOp.readAll nullPath).run v.files = .ok ([], v.files) := by
  have hc : (FileOp.create nullPath).run nullTree = .ok (.device .null, nullTree) := rfl
  have ht : transferOf greeting "http://h/f" {} = ⟨["/f"], [[104, 105]], .ok 200⟩ := by
    simp [transferOf, greeting]
  refine ⟨{ files := nullTree, events := [.requested "/f"] }, ?_, rfl⟩
  have hrun := run_fetchOnto (w := { files := nullTree }) .roomy greeting "http://h/f" nullPath {}
    hc
  rw [ht] at hrun
  exact hrun

end PinnedBuild.Download
