/-!
# What can be wrong with bytecode
-/

namespace EventScript.Code

/-- The reason why bytes are no code. -/
inductive Fault where
  | truncated (want position length : Nat)
  | unknownOpcode (offset : Nat) (opcode : UInt8)
  | crossesEnd (stop : Nat)
  | longBlock (size position length : Nat)
  | noString (index : UInt32) (count : Nat)
  | strayLabel (label : UInt32)
  deriving DecidableEq, Repr

end EventScript.Code
