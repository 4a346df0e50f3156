import EventScript.Text.Utf8

/-!
# Units

A unit is a script with what belongs to it. Its header is a record of fixed size; the windows of a
header say where the unit's strings, variables, code and attributes lie in the shared chunks of a map.
-/

namespace EventScript

/-- The number of attribute bytes of a unit. -/
def attributeCount : Nat := 256

/-- The record of a unit. -/
structure Header where
  name : String := ""
  instances : UInt32 := 0
  stringCount : UInt32 := 0
  /-- The first entry of the unit in the shared table of string offsets. -/
  stringIndex : UInt32 := 0
  variableCount : UInt32 := 0
  /-- Where the unit's variables begin in the shared variables, in bytes. -/
  variableOffset : UInt32 := 0
  scriptLength : UInt32 := 0
  scriptOffset : UInt32 := 0
  /-- The address at which the script starts. -/
  entry : UInt32 := 0
  attributeOffset : UInt32 := 0
  kind : UInt8 := 0
  deriving DecidableEq, Repr

/-- A script with its strings, variables and attributes. -/
structure ScriptUnit where
  header : Header
  strings : List String
  vars : List Int32
  code : Bytes
  attributes : Bytes
  deriving DecidableEq, Repr

end EventScript
