import EventScript.Archive.Ending
import EventScript.Text.Decimal

/-!
# The directory of an archive

The directory has a record for each member: its name, how it is packed, its checksum, and where in the
archive its content is. After the name come extra fields. One holds the numbers that are too great for
the record, another says that the content is enciphered.
-/

namespace EventScript.Archive

/-- A record of the directory. -/
structure Member where
  name : String
  /-- Whether a password is needed. -/
  isLocked : Bool
  /-- Whether an extra field says how the content is enciphered. -/
  hasCipher : Bool
  method : Nat
  checksum : Nat
  packedSize : Nat
  size : Nat
  /-- Where the member's own record is. -/
  offset : Nat
  deriving DecidableEq, Repr

/-- A number that is taken from an extra field if the record keeps it there, and the bytes after it. -/
def widen (n : Nat) (extra : Bytes) : Option (Nat × Bytes) :=
  if n ≠ maxLong then some (n, extra)
  else if (extra.take 8).length = 8 then some (wide extra 0, extra.drop 8)
  else none

namespace Member

/-- A member with the numbers that an extra field holds, and the bytes after them; `none` if they end
too soon. -/
def widened (m : Member) (extra : Bytes) : Member × Option Bytes :=
  match widen m.size extra with
  | none => (m, none)
  | some (size, extra) =>
    match widen m.packedSize extra with
    | none => ({ m with size }, none)
    | some (packedSize, extra) =>
      match widen m.offset extra with
      | none => ({ m with size, packedSize }, none)
      | some (offset, extra) => ({ m with size, packedSize, offset }, some extra)

/-- Whether an extra field names a known cipher. -/
def isCipher (field : Bytes) : Bool :=
  (short field 0 == 1 || short field 0 == 2) && short field 2 == 0x4541 &&
    decide (1 ≤ field.getD 4 0 ∧ field.getD 4 0 ≤ 3)

/-- A member with what its extra fields say. Fields that end too soon count for nothing, and one for an
unknown cipher makes the archive useless. Each field takes four bytes at least, so `n` may be the
number of bytes. -/
def withExtra : (n : Nat) → (extra : Bytes) → Member → Option Member
  | 0, _, m => some m
  | n + 1, extra, m =>
    if extra.length < 4 then some m
    else
      let kind := short extra 0
      let size := short extra 2
      let field := extra.drop 4
      if kind = 1 then
        match m.widened field with
        | (m, none) => some m
        | (m, some rest) => withExtra n (rest.drop (size - (field.length - rest.length))) m
      else if kind = 0x9901 then
        if size ≠ 7 then none
        else if field.length < 7 then some m
        else if isCipher field then withExtra n (field.drop 7) { m with hasCipher := true }
        else none
      else withExtra n (field.drop size) m

/-- The method that only an extra field for a cipher explains. -/
def cipherMethod : Nat := 99

/-- A member of an archive that is moved by `shift` from the beginning of its file. -/
def placed? (shift : Nat) (m : Member) : Option Member :=
  if (m.method = cipherMethod ∧ !m.hasCipher) ∨ Text.maxWord64 < m.offset + shift then none
  else some { m with offset := m.offset + shift }

/-- The number of bytes of a record of the directory, without the name and what follows it. -/
def recordSize : Nat := 46

/-- Reads a record of the directory, and gives the bytes after it. -/
def read? (shift : Nat) (raw : Bytes) : Option (Member × Bytes) := do
  let r ← record? 0x02014B50 recordSize raw
  let named := raw.drop recordSize
  let nameSize := short r 28
  let extraSize := short r 30
  let size := nameSize + extraSize + short r 32
  if named.length < size then none
  else
    let flags := short r 8
    let name := nameOf (flags.testBit 11) (named.take nameSize)
    let extra := (named.drop nameSize).take extraSize
    let m ← withExtra extra.length extra
      ⟨name, flags.testBit 0, false, short r 10, long r 16, long r 20, long r 24, long r 42⟩
    let m ← m.placed? shift
    return (m, named.drop size)

end Member

/-- Reads `n` records of the directory. -/
def members? (shift : Nat) : (n : Nat) → Bytes → Option (List Member)
  | 0, _ => some []
  | n + 1, raw => do
    let (m, raw) ← Member.read? shift raw
    let ms ← members? shift n raw
    return m :: ms

/-- The members of an archive in the order of its directory. -/
def directory? (raw : Bytes) : Option (List Member) := do
  let place ← place? raw
  members? place.shift place.members (raw.drop place.start)

end EventScript.Archive
