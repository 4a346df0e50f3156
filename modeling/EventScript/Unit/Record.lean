import EventScript.Fault
import EventScript.Unit.Basic
import EventScript.Word

/-!
# Unit records

A header takes 165 bytes: the name, filled up with zeros to 128 bytes, nine words and the kind.
-/

namespace EventScript.Header

/-- The words of a record. -/
def words (h : Header) : List UInt32 :=
  [h.instances, h.stringCount, h.stringIndex, h.variableCount, h.variableOffset, h.scriptLength,
   h.scriptOffset, h.entry, h.attributeOffset]

/-- The bytes of a name, if they fit a record with a zero after them. -/
def encodeName (name : String) : Except Fault Bytes :=
  let bs := Utf8.encode name
  if bs.length < nameSize ∧ !bs.contains 0 then
    .ok (bs ++ List.replicate (nameSize - bs.length) 0)
  else .error (.bounds (.nameField name))

/-- The record of a header. -/
def encode (h : Header) : Except Fault Bytes :=
  match encodeName h.name with
  | .error e => .error e
  | .ok name => .ok (name ++ h.words.flatMap bytes32 ++ [h.kind])

/-- The name in the first bytes of a record, which ends before the first zero. -/
def decodeName (bs : Bytes) : String := Utf8.decodeLossy (bs.takeWhile fun b => b != 0)

/-- The header that a record holds. -/
def decode (record : Bytes) : Except Fault Header :=
  if record.length = recordSize then
    let rest := record.drop nameSize
    match words32 (rest.take 36), rest.drop 36 with
    | [instances, stringCount, stringIndex, variableCount, variableOffset, scriptLength,
        scriptOffset, entry, attributeOffset], [kind] =>
      .ok {
        name := decodeName (record.take nameSize)
        instances, stringCount, stringIndex, variableCount, variableOffset, scriptLength,
        scriptOffset, entry, attributeOffset, kind }
    | _, _ => .error (.bounds (.recordLength record.length))
  else .error (.bounds (.recordLength record.length))

end EventScript.Header
