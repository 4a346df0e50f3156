import EventScript.Archive.Checksum
import EventScript.Archive.Inflate
import EventScript.Archive.Member
import EventScript.Fault

/-!
# Archives

An archive holds members with a name and a content, which may be compressed. `texts` gives those that
are wanted.
-/

namespace EventScript.Archive

/-- The number of bytes of a member's own record, without the name and what follows it. -/
def localSize : Nat := 30

namespace Member

/-- Whether a member is a directory. -/
def isDirectory (m : Member) : Bool :=
  m.name.toList.getLast? = some '/' || m.name.toList.getLast? = some '\\'

/-- The packed content of a member, if it can be reached and there is a way to unpack it. -/
def packed? (m : Member) (raw : Bytes) : Option Bytes :=
  if m.isLocked || m.hasCipher then none
  else
    match record? 0x04034B50 localSize (raw.drop m.offset) with
    | none => none
    | some r =>
      if m.method = 0 ∨ m.method = 8 then
        some ((raw.drop (m.offset + localSize + short r 26 + short r 28)).take m.packedSize)
      else none

/-- The content of a member, given its packed content. -/
def content (m : Member) (packed : Bytes) : Except Disk.Fault Bytes :=
  if m.method = 0 then .ok packed
  else
    match inflate packed with
    | .ok content => .ok content
    | .error .corrupt => .error .badStream
    | .error .truncated => .error .shortStream

/-- The text of a member, given its packed content. -/
def text (m : Member) (packed : Bytes) : Except Disk.Fault String := do
  let content ← m.content packed
  if (Archive.checksum content).toNat ≠ m.checksum then throw .badChecksum
  else
    match Utf8.decode? content with
    | some text => return text
    | none => throw .notText

end Member

/-- The names and texts of the members that are wanted, in the order of the directory. All members have
to be within reach, wanted or not. -/
def textsOf (raw : Bytes) (wanted : String → Bool) :
    List Member → Except Fault (List (String × String))
  | [] => .ok []
  | m :: ms => do
    match m.packed? raw with
    | none => throw .archive
    | some packed =>
      if m.isDirectory || !wanted m.name then textsOf raw wanted ms
      else
        let text ← (m.text packed).mapError Fault.file
        let rest ← textsOf raw wanted ms
        return (m.name, text) :: rest

/-- The names and texts of the members of an archive that are wanted. -/
def texts (raw : Bytes) (wanted : String → Bool) : Except Fault (List (String × String)) :=
  match directory? raw with
  | none => .error .archive
  | some members => textsOf raw wanted members

end EventScript.Archive
