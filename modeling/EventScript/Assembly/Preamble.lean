import EventScript.Catalog.Symbol
import EventScript.Source.Lexer
import EventScript.Source.Reading
import EventScript.Unit.Basic

/-!
# The lines in front of a body

Each line before the body of a unit sets one thing. A later line replaces what an earlier one set, but
`strings` adds to the strings, and a label given as entry counts whatever else is given.
-/

namespace EventScript.Assembly

open Source

/-- What the lines before a body have set. -/
structure Preamble where
  instances : UInt32 := 1
  kind : UInt8 := 0
  entry : Option UInt32 := none
  entryLabel : Option UInt32 := none
  strings : List String := []
  vars : List Int32 := []
  attributes : Bytes := List.replicate attributeCount 0
  deriving DecidableEq, Repr

/-- Reads strings with commas between them, to the end of the line. -/
def readStrings : List Token → Except Source.Fault (List String)
  | [.str text] => .ok [text]
  | .str text :: .sym .comma :: ts => do
    let rest ← readStrings ts
    return text :: rest
  | .str _ :: _ => .error (.expectedSymbol .comma)
  | _ => .error .expectedString

/-- Reads integers with commas between them, to the end of the line. -/
def readValues : List Token → Except Source.Fault (List Int32)
  | [.int value] => do return [← wordOf value]
  | .int value :: .sym .comma :: ts => do
    let word ← wordOf value
    let rest ← readValues ts
    return word :: rest
  | .int value :: _ => do
    let _ ← wordOf value
    throw (.expectedSymbol .comma)
  | [.sym .minus, .int value] => do return [← wordOf (-value)]
  | .sym .minus :: .int value :: .sym .comma :: ts => do
    let word ← wordOf (-value)
    let rest ← readValues ts
    return word :: rest
  | .sym .minus :: .int value :: _ => do
    let _ ← wordOf (-value)
    throw (.expectedSymbol .comma)
  | _ => .error .expectedInteger

/-- The 32-bit word that an integer stands for. -/
def wordIn (e : Source.Fault) (value : Int) : Except Source.Fault UInt32 :=
  if 0 ≤ value ∧ value ≤ 4294967295 then .ok (UInt32.ofNat value.toNat) else .error e

namespace Preamble

/-- What a line `entry = …` sets. -/
def setEntry (p : Preamble) : List Token → Except Source.Fault (Preamble × List Token)
  | .label label :: ts => .ok ({ p with entryLabel := some label }, ts)
  | .int value :: ts => do
    let address ← wordIn .entryRange value
    return ({ p with entry := some address }, ts)
  | _ => .error .expectedEntry

/-- The initial values of `count` variables. -/
def initial (count : Nat) (values : List Int32) : Except Source.Fault (List Int32) :=
  if values.length ≤ count then .ok (values ++ List.replicate (count - values.length) 0)
  else .error (.variableExcess values.length count)

/-- What a line `variables(…)` or `variables(…) = …` sets, after the word. -/
def setVariables (p : Preamble) (ts : List Token) : Except Source.Fault (Preamble × List Token) := do
  let ts ← readSymbol .leftParen ts
  let (count, ts) ← readInteger ts
  if count < 0 then throw .negativeCount
  let ts ← readSymbol .rightParen ts
  match ts with
  | .sym .equal :: ts =>
    let values ← readValues ts
    let values ← initial count.toNat values
    return ({ p with vars := values }, [])
  | ts =>
    let values ← initial count.toNat []
    return ({ p with vars := values }, ts)

/-- What a line that begins with `key` sets. -/
def set (catalog : Catalog) (p : Preamble) (key : String) (ts : List Token) :
    Except Source.Fault (Preamble × List Token) :=
  if key = "instances" then do
    let ts ← readSymbol .equal ts
    let (value, ts) ← readInteger ts
    let instances ← wordIn (.instanceRange value) value
    return ({ p with instances := instances }, ts)
  else if key = "kind" then do
    let ts ← readSymbol .equal ts
    let (value, ts) ← readInteger ts
    let kind ← byteOf .kind value
    return ({ p with kind := kind }, ts)
  else if key = "entry" then do
    let ts ← readSymbol .equal ts
    p.setEntry ts
  else if key = "strings" then do
    let ts ← readSymbol .equal ts
    let strings ← readStrings ts
    return ({ p with strings := p.strings ++ strings }, [])
  else if key = "variables" then p.setVariables ts
  else do
    let index ← catalog.resolve .attr key
    let ts ← readSymbol .equal ts
    let (value, ts) ← readInteger ts
    let value ← byteOf .attributeValue value
    return ({ p with attributes := p.attributes.set index value }, ts)

/-- What a line sets. -/
def read (catalog : Catalog) (p : Preamble) (text : List Char) : Except Source.Fault Preamble := do
  let ts ← tokens text
  match ts with
  | .ident key :: ts =>
    let (p, ts) ← p.set catalog key ts
    readEnd ts
    return p
  | _ => throw (.notPreamble (String.ofList text))

end Preamble

end EventScript.Assembly
