import EventScript.Archive.Record

/-!
# The end of an archive

The last record of an archive says where its directory is and how many members it has. Where its
numbers are too short for that, a wide record says it, and a signpost in front of the last record says
where the wide one is. `place?` finds the directory of an archive.
-/

namespace EventScript.Archive

/-- The number of bytes of the last record, without its remark. -/
def endingSize : Nat := 22

/-- The last record of an archive. -/
structure Ending where
  /-- Where the record is. -/
  position : Nat
  disk : Nat
  directoryDisk : Nat
  /-- The number of members on this disk. -/
  members : Nat
  /-- The number of members on all disks. -/
  allMembers : Nat
  directorySize : Nat
  directoryOffset : Nat
  remarkSize : Nat
  deriving DecidableEq, Repr

namespace Ending

/-- The last place where the bytes can be those of the last record; `position` is where the bytes
begin. -/
def last? (position : Nat) : Bytes → Option (Nat × Bytes)
  | [] => none
  | b :: bs =>
    match last? (position + 1) bs with
    | some found => some found
    | none => (record? 0x06054B50 endingSize (b :: bs)).map fun _ => (position, b :: bs)

/-- The last record of an archive, which has to have all of its remark, of at most 65535 bytes. -/
def find? (raw : Bytes) : Option Ending := do
  let start := raw.length - (endingSize + maxShort)
  let (position, r) ← last? start (raw.drop start)
  if short r 20 ≤ (r.drop endingSize).length then
    return ⟨position, short r 4, short r 6, short r 8, short r 10, long r 12, long r 16, short r 20⟩
  else none

/-- Whether one of the numbers is kept elsewhere. -/
def isShort (e : Ending) : Bool :=
  e.disk == maxShort || e.directoryDisk == maxShort || e.members == maxShort ||
    e.allMembers == maxShort || e.directorySize == maxLong || e.directoryOffset == maxLong

end Ending

/-- The number of bytes of a signpost. -/
def signpostSize : Nat := 20

/-- The record that says where the wide record at the end is. -/
structure Signpost where
  disk : Nat
  offset : Nat
  deriving DecidableEq, Repr

/-- The signpost in front of a last record at the very end. -/
def Signpost.find? (raw : Bytes) (remarkSize : Nat) : Option Signpost := do
  let back := signpostSize + endingSize + remarkSize
  if raw.length < back then none
  else
    let r ← record? 0x07064B50 signpostSize (raw.drop (raw.length - back))
    return ⟨long r 4, wide r 8⟩

/-- The number of bytes of a wide record at the end. -/
def wideEndingSize : Nat := 56

/-- The wide record at the end. -/
structure WideEnding where
  /-- How far the record is from where it should be. -/
  shift : Nat
  disk : Nat
  directoryDisk : Nat
  members : Nat
  directoryOffset : Nat
  deriving DecidableEq, Repr

/-- The first wide record that begins at one of the first `n` bytes, which are `shift` bytes from
where it should be. -/
def WideEnding.find? (shift : Nat) : (n : Nat) → Bytes → Option WideEnding
  | 0, _ => none
  | n + 1, raw =>
    match record? 0x06064B50 wideEndingSize raw with
    | some r => some ⟨shift, long r 16, long r 20, wide r 32, wide r 48⟩
    | none => find? (shift + 1) n (raw.drop 1)

/-- Where the directory of an archive is. -/
structure Place where
  /-- How far the archive is moved from the beginning of its file. -/
  shift : Nat
  start : Nat
  members : Nat
  deriving DecidableEq, Repr

/-- The place that the last record gives. -/
def Ending.place? (e : Ending) : Option Place :=
  if e.position < e.directorySize + e.directoryOffset then none
  else
    let shift := e.position - e.directorySize - e.directoryOffset
    some ⟨shift, e.directoryOffset + shift, e.members⟩

/-- The least distance from a wide record to the last record. -/
def wideDistance : Nat := 60

/-- No place in a file is this far from its beginning. -/
def beyondFiles : Nat := 9223372036854775808

/-- The place that the wide record gives. -/
def Signpost.place? (s : Signpost) (e : Ending) (raw : Bytes) : Option Place := do
  if (!e.isShort && e.disk != s.disk) || e.position < wideDistance then none
  else
    let w ← WideEnding.find? 0 (e.position - wideDistance + 1 - s.offset) (raw.drop s.offset)
    if w.disk ≠ w.directoryDisk ∨ beyondFiles ≤ w.directoryOffset + w.shift then none
    else return ⟨w.shift, w.directoryOffset + w.shift, w.members⟩

/-- Where the directory of an archive is. All of the archive has to be on one disk. -/
def place? (raw : Bytes) : Option Place := do
  let e ← Ending.find? raw
  if !e.isShort && e.disk != e.directoryDisk then none
  else
    match Signpost.find? raw e.remarkSize with
    | none => e.place?
    | some s => s.place? e raw

end EventScript.Archive
