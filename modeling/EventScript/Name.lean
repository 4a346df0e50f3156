import EventScript.Text.Decimal

/-!
# Names in scripts

Identifiers, the words with a fixed meaning, the three objects every script can address, and the
names with a number at the end: `varN` for a variable slot, and `routineN`, `flagN`, `refN`,
`attrN` for an ordinal that has no name.
-/

namespace EventScript

namespace Name

/-- A character that can begin an identifier. -/
def isStart (c : Char) : Bool := Text.isLetter c || c == '_'

/-- A character that can stand in an identifier. -/
def isPart (c : Char) : Bool := Text.isLetter c || Text.isDigit c || c == '_'

/-- A letter or underscore followed by letters, digits and underscores. -/
def isIdentifier : List Char → Bool
  | [] => false
  | c :: cs => isStart c && cs.all isPart

/-- Words of statements and conditions, which name nothing else. -/
def reserved : List String :=
  ["if", "and", "or", "end", "goto", "gosub", "return", "endint", "async", "call", "unit",
   "anchor", "pause"]

/-- The number at the end of a name that is `stem` followed by digits only. -/
def number? (stem name : String) : Option Nat := do
  Text.numeral? (← Text.after? stem.toList name.toList)

/-- The name `stem` with a number at the end. -/
def withNumber (stem : String) (n : Nat) : String := stem ++ Text.decimal n

/-- The variable slot that a name `varN` stands for, if `N` is at most 255. -/
def slot? (name : String) : Option UInt8 :=
  ((number? "var" name).filter fun n => n ≤ 255).map UInt8.ofNat

end Name

/-- The objects that need no name of their own. -/
inductive Builtin where
  | self
  | player
  | camera
  deriving DecidableEq, Repr

namespace Builtin

/-- The word for an object. -/
def name : Builtin → String
  | self => "self"
  | player => "player"
  | camera => "camera"

/-- The object that a word stands for. -/
def ofName? (s : String) : Option Builtin :=
  if s = "self" then some self
  else if s = "player" then some player
  else if s = "camera" then some camera
  else none

/-- The byte for an object. -/
def code : Builtin → UInt8
  | self => 0
  | player => 1
  | camera => 2

/-- The object that a byte stands for. -/
def ofCode? (b : UInt8) : Option Builtin :=
  if b = 0 then some self
  else if b = 1 then some player
  else if b = 2 then some camera
  else none

@[simp] theorem ofCode?_code (o : Builtin) : ofCode? o.code = some o := by
  cases o <;> rfl

@[simp] theorem ofName?_name (o : Builtin) : ofName? o.name = some o := by
  cases o <;> rfl

end Builtin

/-- A name that a definition file may give: an identifier that scripts read in no other way. -/
def Name.isDefinable (cs : List Char) : Bool :=
  let name := String.ofList cs
  isIdentifier cs && !reserved.contains name && (Builtin.ofName? name).isNone && (slot? name).isNone

end EventScript
