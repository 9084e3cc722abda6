import PinnedBuild.Bytes

/-!
The cyclic redundancy check of 32 bits, bits taken least significant first.
-/

namespace PinnedBuild.Archive.Crc32

def shift (c : UInt32) : UInt32 :=
  if c &&& 1 = 0 then c >>> 1 else (c >>> 1) ^^^ 0xEDB88320

def step (c : UInt32) (b : UInt8) : UInt32 :=
  shift (shift (shift (shift (shift (shift (shift (shift (c ^^^ b.toUInt32))))))))

def crc32 (b : Bytes) : UInt32 := b.foldl step 0xFFFFFFFF ^^^ 0xFFFFFFFF

end PinnedBuild.Archive.Crc32
