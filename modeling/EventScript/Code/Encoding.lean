import EventScript.Code.Basic
import EventScript.Code.Opcode

/-!
# Scripts as bytes

`encode` writes code down. Jumps need the addresses of their labels, which `at` gives; a label itself
takes no room. In arguments of a call, flags and variables are padded with zeros to the width of a
number.
-/

namespace EventScript.Code

/-- Whether short operands are padded. -/
inductive Layout where
  | packed
  | padded
  deriving DecidableEq, Repr

/-- The zeros after an operand that is `n` bytes short of full width. -/
def Layout.padding : Layout → Nat → Nat
  | packed, _ => 0
  | padded, n => n

/-- The bytes between the opcode of a call and its arguments. The routine zero takes no arguments and
has no count. -/
def callHead (routine : UInt16) (count : Nat) : Bytes :=
  if routine = 0 then bytes16 routine else bytes16 routine ++ [UInt8.ofNat count]

mutual

/-- The bytes of an operand. -/
def Operand.encode (layout : Layout) : Operand → Bytes
  | .flag ordinal =>
    Opcode.flag.code :: bytes16 ordinal ++ List.replicate (layout.padding 2) 0
  | .var slot => Opcode.var.code :: slot :: List.replicate (layout.padding 3) 0
  | .field object reference => Opcode.field.code :: object.encode ++ [0, reference]
  | .literal value => Opcode.literal.code :: bytes32 value.toUInt32
  | .flexible value => Opcode.flexible.code :: bytes32 value.toUInt32
  | .string index => Opcode.string.code :: bytes32 index
  | .call routine arguments =>
    (Opcode.call .function).code :: callHead routine arguments.length ++ encodeArguments arguments
  | .objectCall object mode routine arguments =>
    Opcode.objectCall.code :: object.encode ++ (Opcode.call mode).code ::
      callHead routine arguments.length ++ encodeArguments arguments

/-- The bytes of an object. -/
def Object.encode : Object → Bytes
  | .builtin which => [0, which.code, 0]
  | .named index => 1 :: bytes32 index
  | .dynamic value => 2 :: value.encode .packed

/-- The bytes of the arguments of a call. -/
def encodeArguments : List Operand → Bytes
  | [] => []
  | a :: as => a.encode .padded ++ encodeArguments as

end

/-- The bytes of a formula. -/
def Formula.encode : Formula → Bytes
  | last operand => operand.encode .packed
  | more operand operator rest => operand.encode .packed ++ operator.code :: rest.encode

/-- The bytes of a comparison. -/
def Comparison.encode (c : Comparison) : Bytes :=
  c.left.encode ++ c.comparator.code :: c.right.encode

/-- The bytes of a condition; a zero ends it. -/
def Condition.encode : Condition → Bytes
  | last comparison => comparison.encode ++ [0]
  | more comparison conjunction rest => comparison.encode ++ conjunction.code :: rest.encode

/-- The bytes of a guard. -/
def Guard.encode : Guard → Bytes
  | condition c => Opcode.condition.code :: c.encode
  | result value => [Opcode.result.code, value]

/-- The four bytes of a jump's target; no target is written as zero. -/
def encodeTarget (address : UInt32 → UInt32) : Option UInt32 → Bytes
  | none => bytes32 0
  | some label => bytes32 (address label)

/-- The bytes of a statement without a block. -/
def Action.encode (address : UInt32 → UInt32) : Action → Bytes
  | call mode routine arguments =>
    (Opcode.call mode).code :: callHead routine arguments.length ++ encodeArguments arguments
  | objectCall object mode routine arguments =>
    (Operand.objectCall object mode routine arguments).encode .packed
  | assign place formula => place.operand.encode .packed ++ formula.encode
  | goto target => Opcode.goto.code :: encodeTarget address target
  | stop target => Opcode.stop.code :: encodeTarget address target
  | gosub target => Opcode.gosub.code :: encodeTarget address (some target)
  | pause target => Opcode.pause.code :: encodeTarget address (some target)
  | anchor value => [Opcode.anchor.code, value]
  | leave => [Opcode.leave.code]
  | leaveInterrupt => [Opcode.leaveInterrupt.code]

mutual

/-- The bytes of a statement. A block is preceded by its length. -/
def Statement.encode (address : UInt32 → UInt32) : Statement → Bytes
  | .action a => a.encode address
  | .block guard body =>
    let inner := encodeBlock address body
    guard.encode ++ bytes32 (UInt32.ofNat inner.length) ++ inner
  | .mark _ => []

/-- The bytes of a block. -/
def encodeBlock (address : UInt32 → UInt32) : List Statement → Bytes
  | [] => []
  | s :: ss => s.encode address ++ encodeBlock address ss

end

/-- How many bytes the guard of a block and the length of the block take. -/
def Guard.size (g : Guard) : Nat := g.encode.length + 4

/-- How many bytes a statement without a block takes, wherever it jumps. -/
def Action.size (a : Action) : Nat := (a.encode fun _ => 0).length

mutual

/-- How many bytes a statement takes, wherever its jumps go. -/
def Statement.size : Statement → Nat
  | .action a => a.size
  | .block guard body => guard.size + blockSize body
  | .mark _ => 0

/-- How many bytes a block takes. -/
def blockSize : List Statement → Nat
  | [] => 0
  | s :: ss => s.size + blockSize ss

end

@[simp] theorem length_encodeTarget (address : UInt32 → UInt32) (target : Option UInt32) :
    (encodeTarget address target).length = 4 := by
  cases target <;> rfl

theorem Action.length_encode (address : UInt32 → UInt32) (a : Action) :
    (a.encode address).length = a.size := by
  cases a <;> simp [Action.size, Action.encode]

mutual

theorem Statement.length_encode (address : UInt32 → UInt32) :
    ∀ s : Statement, (s.encode address).length = s.size
  | .action a => by rw [Statement.encode, Statement.size, a.length_encode address]
  | .block guard body => by
    simp only [Statement.encode, Statement.size, Guard.size, List.length_append, length_bytes32,
      length_encodeBlock address body]
  | .mark _ => by rw [Statement.encode, Statement.size, List.length_nil]

theorem length_encodeBlock (address : UInt32 → UInt32) :
    ∀ ss : List Statement, (encodeBlock address ss).length = blockSize ss
  | [] => by rw [encodeBlock, blockSize, List.length_nil]
  | s :: ss => by
    rw [encodeBlock, blockSize, List.length_append, s.length_encode address,
      length_encodeBlock address ss]

end

end EventScript.Code
