import EventScript.Code.Basic
import EventScript.Code.Encoding
import EventScript.Code.Fault
import EventScript.Traced

/-!
# Code read from bytes

`decode` reads bytes as code. It notes every call it comes across with the number of its arguments,
also when the bytes turn out to be no code. The numbers that go down from one function to the next
bound how deep they call each other; `depth` is more than any bytes need.
-/

namespace EventScript.Code

/-- A call in bytecode. -/
structure CallSite where
  routine : UInt16
  count : UInt8
  deriving DecidableEq, Repr

/-- How far the reading has come. -/
structure Cursor where
  position : Nat
  rest : Bytes
  deriving DecidableEq, Repr

/-- The number of bytes before and after the position. -/
def Cursor.length (c : Cursor) : Nat := c.position + c.rest.length

/-- A step that reads some bytes. -/
abbrev Reader := StateT Cursor (Traced CallSite Fault)

namespace Reader

/-- Ends the reading. -/
def fail {α : Type} (e : Fault) : Reader α := fun _ => Traced.fail e

/-- How many bytes have been read. -/
def position : Reader Nat := fun c => Traced.value (c.position, c)

/-- The next byte, which stays to be read. -/
def peek? : Reader (Option UInt8) := fun c => Traced.value (c.rest.head?, c)

/-- Notes a call. -/
def note (site : CallSite) : Reader Unit := fun c => ⟨[site], .ok ((), c)⟩

/-- The fault of `want` bytes that are not there. -/
def short {α : Type} (want : Nat) : Reader α := fun c =>
  Traced.fail (.truncated want c.position c.length)

/-- Reads a byte. -/
def byte : Reader UInt8 := fun c =>
  match c.rest with
  | a :: rest => Traced.value (a, ⟨c.position + 1, rest⟩)
  | _ => short 1 c

/-- Reads a 16-bit word. -/
def word : Reader UInt16 := fun c =>
  match c.rest with
  | a :: b :: rest => Traced.value (word16 a b, ⟨c.position + 2, rest⟩)
  | _ => short 2 c

/-- Reads a 32-bit word. -/
def long : Reader UInt32 := fun c =>
  match c.rest with
  | a₁ :: a₂ :: a₃ :: a₄ :: rest => Traced.value (word32 a₁ a₂ a₃ a₄, ⟨c.position + 4, rest⟩)
  | _ => short 4 c

/-- Passes over some bytes. -/
def skip (n : Nat) : Reader Unit := fun c =>
  if n ≤ c.rest.length then Traced.value ((), ⟨c.position + n, c.rest.drop n⟩) else short n c

/-- Reads an index into a table of `count` strings. -/
def stringIndex (count : Nat) : Reader UInt32 := do
  let index ← long
  if index.toNat < count then return index else fail (.noString index count)

end Reader

open Reader

/-- Reads the way in which a routine of an object is called. -/
def readMode : Reader CallMode := do
  let start ← position
  let op ← byte
  match CallMode.ofCode? op with
  | some mode => return mode
  | none => fail (.unknownOpcode start op)

mutual

/-- Reads an operand. -/
def readOperand (strings : Nat) : Nat → Layout → Reader Operand
  | 0, _ => short 1
  | n + 1, layout => do
    let start ← position
    let op ← byte
    match Opcode.ofCode? op with
    | some .flag =>
      let ordinal ← word
      skip (layout.padding 2)
      return .flag ordinal
    | some .var =>
      let slot ← byte
      skip (layout.padding 3)
      return .var slot
    | some .field =>
      let object ← readObject strings n
      let reference ← word
      return .field object (UInt8.ofNat reference.toNat)
    | some .literal => return .literal (← long).toInt32
    | some .flexible => return .flexible (← long).toInt32
    | some .string => return .string (← stringIndex strings)
    | some (.call .function) =>
      let (routine, arguments) ← readCall strings n
      return .call routine arguments
    | some .objectCall =>
      let object ← readObject strings n
      let mode ← readMode
      let (routine, arguments) ← readCall strings n
      return .objectCall object mode routine arguments
    | _ => fail (.unknownOpcode start op)

/-- Reads an object. -/
def readObject (strings : Nat) : Nat → Reader Object
  | 0 => short 1
  | n + 1 => do
    let start ← position
    let selector ← byte
    if selector = 0 then
      let code ← byte
      skip 1
      match Builtin.ofCode? code with
      | some which => return .builtin which
      | none => fail (.unknownOpcode (start + 1) code)
    else if selector = 1 then return .named (← stringIndex strings)
    else if selector = 2 then return .dynamic (← readOperand strings n .packed)
    else fail (.unknownOpcode start selector)

/-- Reads what follows the opcode of a call. -/
def readCall (strings : Nat) : Nat → Reader (UInt16 × List Operand)
  | 0 => short 1
  | n + 1 => do
    let routine ← word
    if routine = 0 then return (0, [])
    else
      let count ← byte
      note ⟨routine, count⟩
      let arguments ← readArguments strings n count.toNat
      return (routine, arguments)

/-- Reads a number of arguments. -/
def readArguments (strings : Nat) : Nat → Nat → Reader (List Operand)
  | 0, _ => short 1
  | _ + 1, 0 => return []
  | n + 1, count + 1 => do
    let a ← readOperand strings n .padded
    let as ← readArguments strings n count
    return a :: as

end

/-- Reads a formula, which goes on as long as operators follow. -/
def readFormula (strings : Nat) : Nat → Reader Formula
  | 0 => short 1
  | n + 1 => do
    let operand ← readOperand strings n .packed
    match (← peek?).bind Operator.ofCode? with
    | some operator =>
      skip 1
      let rest ← readFormula strings n
      return .more operand operator rest
    | none => return .last operand

/-- Reads a comparison. -/
def readComparison (strings n : Nat) : Reader Comparison := do
  let left ← readFormula strings n
  let start ← position
  let code ← byte
  match Comparator.ofCode? code with
  | some comparator =>
    let right ← readFormula strings n
    return ⟨left, comparator, right⟩
  | none => fail (.unknownOpcode start code)

/-- Reads a condition. -/
def readCondition (strings : Nat) : Nat → Reader Condition
  | 0 => short 1
  | n + 1 => do
    let comparison ← readComparison strings n
    let start ← position
    let code ← byte
    if code = 0 then return .last comparison
    else
      match Conjunction.ofCode? code with
      | some conjunction =>
        let rest ← readCondition strings n
        return .more comparison conjunction rest
      | none => fail (.unknownOpcode start code)

/-- The target of a jump that need not have one. -/
def targetOf (address : UInt32) : Option UInt32 := if address = 0 then none else some address

/-- Reads a place, after its opcode, and the formula whose value goes there. -/
def readAssignment (strings n : Nat) (place : Reader Place) : Reader Action := do
  let place ← place
  let formula ← readFormula strings n
  return .assign place formula

/-- What comes before a block: the guard, or a whole statement if no block follows. -/
inductive Head where
  | action (action : Action)
  | guard (guard : Guard)

/-- Reads a statement up to its block. -/
def readHead (strings n : Nat) : Reader Head := do
  let start ← position
  let op ← byte
  match Opcode.ofCode? op with
  | some (.call mode) =>
    let (routine, arguments) ← readCall strings n
    return .action (.call mode routine arguments)
  | some .objectCall =>
    let object ← readObject strings n
    let mode ← readMode
    let (routine, arguments) ← readCall strings n
    return .action (.objectCall object mode routine arguments)
  | some .condition => return .guard (.condition (← readCondition strings n))
  | some .result => return .guard (.result (← byte))
  | some .goto => return .action (.goto (targetOf (← long)))
  | some .stop => return .action (.stop (targetOf (← long)))
  | some .gosub => return .action (.gosub (← long))
  | some .pause => return .action (.pause (← long))
  | some .anchor => return .action (.anchor (← byte))
  | some .leave => return .action .leave
  | some .leaveInterrupt => return .action .leaveInterrupt
  | some .flag => return .action (← readAssignment strings n (return .flag (← word)))
  | some .var => return .action (← readAssignment strings n (return .var (← byte)))
  | some .field =>
    return .action (← readAssignment strings n (do
      let object ← readObject strings n
      let reference ← word
      return .field object (UInt8.ofNat reference.toNat)))
  | _ => fail (.unknownOpcode start op)

/-- Reads the length of a block and gives the address of its end. -/
def readStop : Reader Nat := do
  let size ← long
  fun c =>
    let stop := c.position + size.toNat
    if stop ≤ c.length then Traced.value (stop, c)
    else Traced.fail (.longBlock size.toNat c.position c.length)

/-- Reads statements up to the address `stop`. -/
def readBlock (strings : Nat) : Nat → Nat → Reader (List Statement)
  | 0, _ => short 1
  | n + 1, stop => do
    let here ← position
    if here < stop then
      match ← readHead strings n with
      | .action a =>
        let rest ← readBlock strings n stop
        return .action a :: rest
      | .guard guard =>
        let inner ← readStop
        let body ← readBlock strings n inner
        let rest ← readBlock strings n stop
        return .block guard body :: rest
    else if here = stop then return []
    else fail (.crossesEnd stop)

/-- A depth that reading never reaches: of any four nested calls at least one takes a byte. -/
def depth (code : Bytes) : Nat := 4 * code.length + 8

/-- Reads bytes as code that uses a table of `strings` strings. -/
def decode (strings : Nat) (code : Bytes) : Traced CallSite Fault (List Statement) := do
  let (body, _) ← readBlock strings (depth code) code.length ⟨0, code⟩
  return body

end EventScript.Code
