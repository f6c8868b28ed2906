import Restyle.Text.Utf8

/-!
# Checksums

The cyclic redundancy check with which an archive guards the content of its entries.
-/

namespace Restyle.Archive

/-- The generator polynomial, lowest power first. -/
def polynomial : UInt32 := 0xEDB88320

def shift (c : UInt32) : UInt32 :=
  if c &&& 1 == 1 then (c >>> 1) ^^^ polynomial else c >>> 1

def checksumStep (c : UInt32) (b : UInt8) : UInt32 :=
  (List.range 8).foldl (fun c _ => shift c) (c ^^^ b.toUInt32)

def checksum (data : Bytes) : UInt32 :=
  (data.foldl checksumStep 0xFFFFFFFF) ^^^ 0xFFFFFFFF

end Restyle.Archive
