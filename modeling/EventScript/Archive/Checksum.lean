import EventScript.Text.Utf8

/-!
# Checksums

The checksum of a content is the remainder of a division by the polynomial `0xEDB88320`, over bits
with the lowest first.
-/

namespace EventScript.Archive

/-- One bit of the division. -/
def divideBit (r : UInt32) : UInt32 :=
  if r &&& 1 = 1 then (r >>> 1) ^^^ 0xEDB88320 else r >>> 1

/-- Takes a byte into the remainder. -/
def divideByte (r : UInt32) (b : UInt8) : UInt32 :=
  Nat.repeat divideBit 8 (r ^^^ b.toUInt32)

/-- The checksum of a content. -/
def checksum (content : Bytes) : UInt32 :=
  (content.foldl divideByte 0xFFFFFFFF) ^^^ 0xFFFFFFFF

end EventScript.Archive
