import EventScript.Name
import EventScript.Operator
import EventScript.Word

/-!
# Scripts as the bytecode holds them

The types of this module say what a unit's bytecode means: names are ordinals, strings are indices
into the strings of the unit, and jumps go to labels. A label is a number; in code that was read from
bytes it is the address that the jump names.
-/

namespace EventScript.Code

mutual

/-- A single value. -/
inductive Operand where
  | flag (ordinal : UInt16)
  | var (slot : UInt8)
  | field (object : Object) (reference : UInt8)
  | literal (value : Int32)
  /-- A number whose meaning depends on the argument it is. -/
  | flexible (value : Int32)
  | string (index : UInt32)
  | call (routine : UInt16) (arguments : List Operand)
  | objectCall (object : Object) (mode : CallMode) (routine : UInt16) (arguments : List Operand)

/-- What a field or a routine belongs to. -/
inductive Object where
  | builtin (which : Builtin)
  | named (index : UInt32)
  /-- The object that a value refers to. -/
  | dynamic (value : Operand)

end

/-- Operands joined by operators. -/
inductive Formula where
  | last (operand : Operand)
  | more (operand : Operand) (operator : Operator) (rest : Formula)

/-- Two formulas and how they are compared. -/
structure Comparison where
  left : Formula
  comparator : Comparator
  right : Formula

/-- Comparisons joined by conjunctions. -/
inductive Condition where
  | last (comparison : Comparison)
  | more (comparison : Comparison) (conjunction : Conjunction) (rest : Condition)

/-- What a block depends on. -/
inductive Guard where
  | condition (condition : Condition)
  /-- The value that the last call gave back. -/
  | result (value : UInt8)

/-- What can be assigned to. -/
inductive Place where
  | flag (ordinal : UInt16)
  | var (slot : UInt8)
  | field (object : Object) (reference : UInt8)

/-- A place as an operand. -/
def Place.operand : Place → Operand
  | flag ordinal => .flag ordinal
  | var slot => .var slot
  | field object reference => .field object reference

/-- A statement without a block. -/
inductive Action where
  | call (mode : CallMode) (routine : UInt16) (arguments : List Operand)
  | objectCall (object : Object) (mode : CallMode) (routine : UInt16) (arguments : List Operand)
  | assign (place : Place) (formula : Formula)
  | goto (target : Option UInt32)
  /-- Ends the script, and says where it goes on when it is started again. -/
  | stop (target : Option UInt32)
  | gosub (target : UInt32)
  | pause (target : UInt32)
  | anchor (value : UInt8)
  | leave
  | leaveInterrupt

/-- A statement of a script. -/
inductive Statement where
  | action (action : Action)
  | block (guard : Guard) (body : List Statement)
  /-- The place that a label names. -/
  | mark (label : UInt32)

end EventScript.Code
