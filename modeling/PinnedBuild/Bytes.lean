/-!
Byte strings: the contents of files and the names in a file system.
-/

namespace PinnedBuild

abbrev Bytes := List UInt8

namespace Bytes

/-- The bytes of a text in UTF-8. -/
def ofString (s : String) : Bytes := s.toUTF8.data.toList

/-- The text that the bytes spell in UTF-8, if they spell one. -/
def decode? (b : Bytes) : Option String := String.fromUTF8? ⟨b.toArray⟩

theorem decode?_ofString (s : String) : decode? (ofString s) = some s := by
  have h : (⟨(ofString s).toArray⟩ : ByteArray) = s.toUTF8 := by simp [ofString]
  rw [decode?, h]
  exact dif_pos s.isValidUTF8

def hexDigit (n : UInt8) : Char :=
  if n < 10 then Char.ofNat (48 + n.toNat) else Char.ofNat (87 + n.toNat)

/-- Two lowercase hexadecimal digits for each byte. -/
def toHex (b : Bytes) : String :=
  String.ofList (b.foldr (fun (x : UInt8) cs => hexDigit (x >>> 4) :: hexDigit (x &&& 15) :: cs) [])

/-- The bytes of `n`, most significant first, in `width` bytes. -/
def ofNatBE : Nat → Nat → Bytes
  | 0, _ => []
  | width + 1, n => ofNatBE width (n / 256) ++ [UInt8.ofNat n]

/-- The number whose digits to base 256 are the bytes, most significant first. -/
def toNatBE (b : Bytes) : Nat := b.foldl (fun n x => n * 256 + x.toNat) 0

/-- The number whose digits to base 256 are the bytes, least significant first. -/
def toNatLE (b : Bytes) : Nat := b.foldr (fun x n => n * 256 + x.toNat) 0

end Bytes

end PinnedBuild
