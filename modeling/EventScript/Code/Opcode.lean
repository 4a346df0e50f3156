import EventScript.Operator

/-!
# Opcodes

The bytes that begin a statement or an operand.
-/

namespace EventScript.Code

/-- What the first byte of a statement or operand announces. -/
inductive Opcode where
  | call (mode : CallMode)
  | condition
  | goto
  | stop
  | flag
  | literal
  | flexible
  | var
  | string
  | field
  | objectCall
  | leave
  | leaveInterrupt
  | gosub
  | anchor
  | pause
  | result
  deriving DecidableEq, Repr

namespace Opcode

/-- The byte of an opcode. -/
def code : Opcode → UInt8
  | call mode => mode.code
  | condition => 0x03
  | goto => 0x04
  | stop => 0x05
  | flag => 0x06
  | literal => 0x07
  | flexible => 0x08
  | var => 0x09
  | string => 0x0A
  | field => 0x0B
  | objectCall => 0x0C
  | leave => 0x0D
  | leaveInterrupt => 0x0E
  | gosub => 0x0F
  | anchor => 0x10
  | pause => 0x11
  | result => 0x12

/-- Every opcode, in the order of the bytes. -/
def all : List Opcode :=
  [call .task, call .async, call .function, condition, goto, stop, flag, literal, flexible, var,
   string, field, objectCall, leave, leaveInterrupt, gosub, anchor, pause, result]

/-- The opcode that a byte stands for. -/
def ofCode? (b : UInt8) : Option Opcode := all[b.toNat]?

@[simp] theorem ofCode?_code (o : Opcode) : ofCode? o.code = some o := by
  rcases o with mode | _ <;> first | rfl | cases mode <;> rfl

end Opcode

end EventScript.Code
