import PinnedBuild.Archive.Gzip
import PinnedBuild.Archive.Pax

/-!
The members of an archive, read off a feed.

A member is a header and the data after it, padded to full blocks. Long names and extended records
stand in members of their own before the one they belong to. A block of zeros is the end.
-/

namespace PinnedBuild.Archive

open Files

/-- What a member asks for. -/
inductive Kind where
  | file
  | directory
  | symbolicLink
  | hardLink
  /-- Records that belong to no member in particular. -/
  | globalRecords
  /-- A name or records for another member, in a place where none follows. -/
  | attachment
  deriving DecidableEq, Repr

/-- A part of a file: a hole of zeros, or bytes of which fewer may be there than there should. -/
inductive Segment where
  | hole (length : Nat)
  | data (expected : Nat) (bytes : Bytes)
  deriving DecidableEq, Repr

structure Member where
  path : Path
  kind : Kind
  link : Option Path
  mode : Option Mode
  body : List Segment
  deriving Repr

namespace Feed

/-- The feed after `n` bytes, if it has them. -/
def drop? (n : Nat) (f : Feed) : Option Feed :=
  if n = 0 then some f
  else match f.bytes.drop (n - 1) with
    | [] => none
    | _ :: rest => some { f with bytes := rest, position := f.position + n }

/-- The next block: `none` for a proper end in front of it. -/
def block? (f : Feed) : Except Unit (Option (Bytes × Feed)) :=
  if f.bytes.isEmpty && f.complete then .ok none
  else
    match f.drop? blockSize with
    | some rest => .ok (some (f.bytes.take blockSize, rest))
    | none => .error ()

theorem length_drop?_lt {n : Nat} {f r : Feed} (hn : n ≠ 0) (h : f.drop? n = some r) :
    r.bytes.length < f.bytes.length := by
  unfold drop? at h
  rw [if_neg hn] at h
  split at h
  · simp at h
  · rename_i x rest hd
    have := congrArg List.length hd
    simp only [List.length_drop, List.length_cons] at this
    injection h with h
    subst h
    show rest.length < _
    omega

theorem length_block?_lt {f r : Feed} {b : Bytes} (h : f.block? = .ok (some (b, r))) :
    r.bytes.length < f.bytes.length := by
  unfold block? at h
  split at h
  · simp at h
  · split at h
    · rename_i q hq
      simp only [Except.ok.injEq, Option.some.injEq, Prod.mk.injEq] at h
      exact h.2 ▸ length_drop?_lt (by decide) hq
    · simp at h

end Feed

/-- A header, the size of its data and the feed in which they follow. -/
structure Raw where
  header : Header
  size : Nat
  after : Feed

namespace Raw

/-- What has to be passed over to come to the next header: the data in full blocks. -/
def span (r : Raw) : Nat := (r.size + (blockSize - 1)) / blockSize * blockSize

def data (r : Raw) : Bytes := r.after.bytes.take r.size

/-- The next header. The size in extended records wins over that in the header. Positions in an
archive have 64 bits. -/
def next? (records : Option Bytes) (f : Feed) : Except Unit (Option Raw) := do
  let some (h, after) ← f.block? | return none
  if Header.isZero h then return none
  else if !Header.checksumFits h then .error ()
  else
    let some own := Header.size? h | .error ()
    let r : Raw := ⟨h, (records.bind Pax.size?).getD own, after⟩
    if r.size + (blockSize - 1) < UInt64.size ∧ after.position + r.span < UInt64.size then
      return some r
    else .error ()

theorem length_after_lt {records : Option Bytes} {f : Feed} {r : Raw}
    (h : next? records f = .ok (some r)) : r.after.bytes.length < f.bytes.length := by
  simp only [next?, bind, Except.bind, pure, Except.pure] at h
  split at h
  · simp at h
  · rename_i o ho
    split at h
    · rename_i b q
      split at h
      · simp at h
      · split at h
        · simp at h
        · split at h
          · split at h
            · simp only [Except.ok.injEq, Option.some.injEq] at h
              subst h
              exact Feed.length_block?_lt ho
            · simp at h
          · simp at h
    · simp at h

end Raw

/-- What has been read ahead for the next member. -/
structure Attached where
  name : Option Bytes := none
  link : Option Bytes := none
  records : Option Bytes := none
  deriving Repr

namespace Attached

def isNone (a : Attached) : Bool := a.name.isNone && a.link.isNone && a.records.isNone

/-- A long name may end with a zero byte, which is no part of it. -/
def withoutZero (b : Bytes) : Bytes := if b.getLast? = some 0 then b.dropLast else b

def path (a : Attached) (h : Header) : Path :=
  ((a.name.map withoutZero).or (a.records.bind (Pax.value? "path"))).getD h.name

def linkName (a : Attached) (h : Header) : Option Path :=
  ((a.link.map withoutZero).or (a.records.bind (Pax.value? "linkpath"))).or h.linkName?

/-- The attachment that a member is, put to the others; each kind may come once. -/
def add? (a : Attached) (h : Header) (data : Bytes) : Option (Except Unit Attached) :=
  if h.isGnu || h.isUstar then
    match h.typeFlag with
    | 'L' => some (if a.name.isSome then .error () else .ok { a with name := some data })
    | 'K' => some (if a.link.isSome then .error () else .ok { a with link := some data })
    | 'x' => some (if a.records.isSome then .error () else .ok { a with records := some data })
    | _ => none
  else none

end Attached

/-- In layouts other than ustar a name that ends in a slash is that of a directory. -/
def kindOf (h : Header) (path : Path) : Kind :=
  match h.typeFlag with
  | '5' => .directory
  | '1' => .hardLink
  | '2' => .symbolicLink
  | 'g' => .globalRecords
  | 'x' | 'L' | 'K' => .attachment
  | _ => if !h.isUstar && path.getLast? == some Path.slash then .directory else .file

/-! ### Files with holes -/

/-- Reading the map of a file with holes: where the file has come to, how much of the data is not
yet given out, and the parts so far, last first. -/
structure HoleMap where
  position : Nat
  remaining : Nat
  body : List Segment
  /-- The data not yet given out. -/
  data : Bytes

namespace HoleMap

/-- One entry: offset and length of bytes that are there. An entry whose fields begin with a zero
byte is none. -/
def add (size : Nat) (entry : Bytes) (m : HoleMap) : Option HoleMap :=
  let offset := entry.take 12
  let length := (entry.drop 12).take 12
  if offset.headD 0 = 0 ∨ length.headD 0 = 0 then some m
  else do
    let off ← Header.octal? offset
    let len ← Header.octal? length
    if len ≠ 0 ∧ (size - m.remaining) % blockSize ≠ 0 then none
    else if off < m.position then none
    else if UInt64.size ≤ off + len ∨ m.remaining < len then none
    else
      let hole := if m.position < off then [.hole (off - m.position)] else []
      return ⟨off + len, m.remaining - len,
        .data len (m.data.take len) :: hole ++ m.body, m.data.drop len⟩

/-- Entries of 24 bytes each. -/
def addAll (size : Nat) (count : Nat) (entries : Bytes) (m : HoleMap) : Option HoleMap :=
  (List.range count).foldlM (fun m i => m.add size ((entries.drop (24 * i)).take 24)) m

end HoleMap

/-- Entries of a map in the header and in the blocks that follow while each is marked to have
another after it. -/
def holeEntries (more : Bool) (f : Feed) : Except Unit (List Bytes × Feed) :=
  if more then
    match _h : f.block? with
    | .error e => .error e
    | .ok none => .error ()
    | .ok (some (b, rest)) =>
      (holeEntries (b.drop 504 |>.headD 0 |> (· == 1)) rest).map fun (bs, f) => (b :: bs, f)
  else .ok ([], f)
termination_by f.bytes.length
decreasing_by exact Feed.length_block?_lt _h

/-- The parts of a file with holes, and the feed in which its data stand. -/
def holeBody (r : Raw) : Except Unit (List Segment × Feed) := do
  if !r.header.isGnu then .error ()
  else
    let (blocks, after) ← holeEntries (r.header.byteAt 482 == 1) r.after
    let start : HoleMap := ⟨0, r.size, [], after.bytes⟩
    let filled := (start.addAll r.size 4 (r.header.field 386 96)).bind fun m =>
      blocks.foldlM (fun m b => m.addAll r.size 21 b) m
    match filled, Header.octal? (r.header.field 483 12) with
    | some m, some real =>
      if m.position = real ∧ m.remaining = 0 then return (m.body.reverse, after) else .error ()
    | _, _ => .error ()

/-! ### Members -/

/-- The member that a header describes, and the feed in which its data stand. -/
def Raw.member (r : Raw) (a : Attached) : Except Unit (Member × Feed) := do
  let path := a.path r.header
  let (body, after) ← if r.header.typeFlag = 'S' then holeBody r
    else .ok ([.data r.size r.data], r.after)
  return (⟨path, kindOf r.header path, a.linkName r.header, r.header.mode?, body⟩, after)

/-- The members that can be read, and whether they end as they should. `skip` bytes stand before
the next header. -/
def membersFrom (found : List Member) (a : Attached) (skip : Nat) (f : Feed) : List Member × Bool :=
  match _h : f.drop? skip with
  | none => (found.reverse, false)
  | some f' =>
    match _h' : Raw.next? a.records f' with
    | .error _ => (found.reverse, false)
    | .ok none => (found.reverse, a.isNone)
    | .ok (some r) =>
      match a.add? r.header r.data with
      | some (.error _) => (found.reverse, false)
      | some (.ok a') => membersFrom found a' r.span r.after
      | none =>
        match r.member a with
        | .error _ => (found.reverse, false)
        | .ok (m, after) =>
          if after.bytes.length ≤ r.after.bytes.length then
            membersFrom (m :: found) {} r.span after
          else (found.reverse, false)
termination_by f.bytes.length
decreasing_by
  all_goals
    have h1 : f'.bytes.length ≤ f.bytes.length := by
      by_cases hs : skip = 0
      · subst hs
        simp only [Feed.drop?, if_true, Option.some.injEq] at _h
        simp [_h]
      · exact Nat.le_of_lt (Feed.length_drop?_lt hs _h)
    have h2 := Raw.length_after_lt _h'
    omega

def members (f : Feed) : List Member × Bool := membersFrom [] {} 0 f

end PinnedBuild.Archive
