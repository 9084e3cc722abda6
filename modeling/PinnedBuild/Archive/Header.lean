import PinnedBuild.Files.Tree
import PinnedBuild.Text.Space

/-!
The header block of an archive member: 512 bytes of fixed fields.

Three layouts are told apart by the magic at byte 257: the old one, ustar and that of GNU.
-/

namespace PinnedBuild.Archive

open Files

def blockSize : Nat := 512

/-- A header, which is a full block. -/
abbrev Header := Bytes

namespace Header

def field (h : Header) (offset length : Nat) : Bytes := (h.drop offset).take length

def byteAt (h : Header) (offset : Nat) : UInt8 := (h.drop offset).headD 0

/-- A text ends with its first zero byte or with its field. -/
def text (b : Bytes) : Bytes := b.takeWhile (· != 0)

/-- A number in ASCII digits to a base, with an optional plus sign, below 2 ^ 64. -/
def number? (base : Nat) (cs : List Char) : Option Nat :=
  let digits := match cs with
    | '+' :: ds => ds
    | ds => ds
  if digits.isEmpty then none
  else
    let value := digits.foldlM (fun n c =>
      let d := c.toNat - 48
      if c.isDigit ∧ d < base then some (n * base + d) else none) 0
    value.filter (· < UInt64.size)

def octal? (b : Bytes) : Option Nat :=
  (Bytes.decode? (text b)).bind fun s => number? 8 (Text.trim s.toList)

/-- An octal number, or a binary one if the first bit is set. -/
def number12? (b : Bytes) : Option Nat :=
  if b.headD 0 &&& 0x80 = 0 then octal? b else some (Bytes.toNatBE (b.drop 4))

def mode? (h : Header) : Option Mode := (octal? (h.field 100 8)).map fun n => BitVec.ofNat 12 n

def size? (h : Header) : Option Nat := number12? (h.field 124 12)

def typeFlag (h : Header) : Char := Char.ofNat (h.byteAt 156).toNat

def isUstar (h : Header) : Bool :=
  h.field 257 8 == [117, 115, 116, 97, 114, 0, 48, 48]

def isGnu (h : Header) : Bool :=
  h.field 257 8 == [117, 115, 116, 97, 114, 32, 32, 0]

def isZero (h : Header) : Bool := h.all (· == 0)

/-- The sum of all bytes, those of the checksum itself counted as spaces. -/
def checksum (h : Header) : Nat :=
  (h.take 148 ++ h.drop 156).foldl (fun n x => n + x.toNat) (8 * 32)

def checksumFits (h : Header) : Bool := octal? (h.field 148 8) == some h.checksum

/-- In the ustar layout a first part of the name may stand in a field of its own. -/
def name (h : Header) : Path :=
  let front := text (h.field 345 155)
  if h.isUstar && !front.isEmpty then front ++ Path.slash :: text (h.field 0 100)
  else text (h.field 0 100)

def linkName? (h : Header) : Option Path :=
  if h.byteAt 157 = 0 then none else some (text (h.field 157 100))

end Header

end PinnedBuild.Archive
