import PinnedBuild.Archive.Inflate
import PinnedBuild.Archive.Crc32

/-!
A gzip file as a feed: the bytes it delivers, and whether it then ends as it should.

Only the first member of a file is read, and its checksum only when all its bytes have been taken.
-/

namespace PinnedBuild.Archive

structure Feed where
  bytes : Bytes
  /-- After the bytes comes a proper end. -/
  complete : Bool
  /-- How many bytes stood in front of these. -/
  position : Nat := 0
  deriving Repr

/-- A feed that breaks off after its bytes. -/
def Feed.broken (bytes : Bytes) : Feed := { bytes := bytes, complete := false }

namespace Gzip

/-- The longest name or comment. -/
def maxText : Nat := 65535

def flag (flags : UInt8) (n : UInt8) : Bool := flags &&& n != 0

/-- What stands after a text and the zero byte that ends it. -/
def afterText? (room : Nat) : Bytes → Option Bytes
  | [] => none
  | b :: rest =>
    if b = 0 then some rest
    else match room with
      | 0 => none
      | room + 1 => afterText? room rest

def afterExtra? : Bytes → Option Bytes
  | a :: b :: rest =>
    let n := a.toNat + 256 * b.toNat
    if (rest.take n).length = n then some (rest.drop n) else none
  | _ => none

def when? (asked : Bool) (skip : Bytes → Option Bytes) (b : Bytes) : Option Bytes :=
  if asked then skip b else some b

/-- The low half of the checksum of all that stands before it. -/
def afterCheck? (file : Bytes) : Bytes → Option Bytes
  | a :: b :: rest =>
    let before := file.take (file.length - (rest.length + 2))
    if (Crc32.crc32 before).toNat % 65536 = a.toNat + 256 * b.toNat then some rest else none
  | _ => none

/-- What stands after the header. Flags without a meaning must not be set. -/
def afterHeader? (file : Bytes) : Option Bytes :=
  match file with
  | 0x1f :: 0x8b :: 8 :: flags :: _ :: _ :: _ :: _ :: _ :: _ :: rest =>
    if flag flags 0xe0 then none
    else do
      let rest ← when? (flag flags 4) afterExtra? rest
      let rest ← when? (flag flags 8) (afterText? maxText) rest
      let rest ← when? (flag flags 16) (afterText? maxText) rest
      when? (flag flags 2) (afterCheck? file) rest
  | _ => none

/-- The trailer: checksum and length of the data. -/
def trailerFits (data trailer : Bytes) : Bool :=
  match trailer with
  | a :: b :: c :: d :: e :: f :: g :: h :: _ =>
    (Crc32.crc32 data).toNat == Bytes.toNatLE [a, b, c, d]
      && data.length % UInt32.size == Bytes.toNatLE [e, f, g, h]
  | _ => false

/-- Input is taken, and output is handed on, this many bytes at a time. -/
def window : Nat := 32768

/-- How much of the output is handed on when a defect shows in the byte before the last `unread`
ones: what was put out when the last full buffer of input had been taken, or the last full window
of output, whichever is more. -/
def handedOn (file body : Bytes) (put unread : Nat) : Nat :=
  let header := file.length - body.length
  let taken := (file.length - unread - 1) / window * window
  max (put / window * window) (Inflate.inflate (body.take (taken - header))).1.size

def feed (file : Bytes) : Feed :=
  match afterHeader? file with
  | none => .broken []
  | some body =>
    match Inflate.inflate body with
    | (out, .ok s) => { bytes := out.toList, complete := trailerFits out.toList s.aligned }
    | (out, .error .truncated) => .broken out.toList
    | (out, .error (.corrupt unread)) =>
      .broken (out.toList.take (handedOn file body out.size unread))

end Gzip

end PinnedBuild.Archive
