import EventScript.Text.Utf8

/-!
# Records of an archive

An archive is made of records of bytes. Each begins with a signature, and its numbers have the least
significant byte first.
-/

namespace EventScript.Archive

/-- The number that bytes give, the least significant one first. -/
def littleEndian : Bytes → Nat
  | [] => 0
  | b :: bs => b.toNat + 256 * littleEndian bs

/-- The number of the two bytes at a position. -/
def short (r : Bytes) (i : Nat) : Nat := littleEndian ((r.drop i).take 2)

/-- The number of the four bytes at a position. -/
def long (r : Bytes) (i : Nat) : Nat := littleEndian ((r.drop i).take 4)

/-- The number of the eight bytes at a position. -/
def wide (r : Bytes) (i : Nat) : Nat := littleEndian ((r.drop i).take 8)

/-- The greatest number of two bytes. In a record it says that the number is kept elsewhere. -/
def maxShort : Nat := 0xFFFF

/-- The greatest number of four bytes. In a record it says that the number is kept elsewhere. -/
def maxLong : Nat := 0xFFFFFFFF

/-- The bytes of a record that begins with a signature and has at least `size` bytes. -/
def record? (signature size : Nat) (raw : Bytes) : Option Bytes :=
  let r := raw.take size
  if r.length = size ∧ long r 0 = signature then some r else none

/-- The characters of the bytes from 128 on in a name that is not Unicode. -/
def upperCharacters : String :=
  "ÇüéâäàåçêëèïîìÄÅÉæÆôöòûùÿÖÜ¢£¥₧ƒáíóúñÑªº¿⌐¬½¼¡«»░▒▓│┤╡╢╖╕╣║╗╝╜╛┐" ++
  "└┴┬├─┼╞╟╚╔╩╦╠═╬╧╨╤╥╙╘╒╓╫╪┘┌█▄▌▐▀αßΓπΣσµτΦΘΩδ∞φε∩≡±≥≤⌠⌡÷≈°∙·√ⁿ²■\u00a0"

/-- The character of a byte in a name that is not Unicode. -/
def character (b : UInt8) : Char :=
  if b < 128 then Char.ofNat b.toNat else upperCharacters.toList.getD (b.toNat - 128) ' '

/-- The name that bytes stand for. -/
def nameOf (isUnicode : Bool) (bytes : Bytes) : String :=
  if isUnicode then Utf8.decodeLossy bytes else String.ofList (bytes.map character)

end EventScript.Archive
