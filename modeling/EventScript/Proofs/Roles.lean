import EventScript.Code.Encoding

/-!
# What the bytes of code are for

`blockRoles` gives each byte of code a role. Most bytes mean something and are kept whenever code is listed
and assembled again. A reader passes over the others: the padding of a flag or a variable among the arguments of
a call, the last byte of a built-in object, and the first byte of the word for a reference. Two kinds
of opcodes say the same as others: how a number or a string is stored, and how a routine of an object is called
in a value.
-/

namespace EventScript.Code

/-- What becomes of a byte of code that is listed and assembled again. -/
inductive Role where
  | kept
  /-- Nothing reads the byte. -/
  | spare
  /-- The opcode of a number or a string. -/
  | constant
  /-- The opcode of the call of an object's routine in a value. -/
  | mode
  deriving DecidableEq, Repr

mutual

/-- The roles of the bytes of an operand. -/
def Operand.roles (layout : Layout) : Operand → List Role
  | .flag _ => List.replicate 3 .kept ++ List.replicate (layout.padding 2) .spare
  | .var _ => List.replicate 2 .kept ++ List.replicate (layout.padding 3) .spare
  | .field object _ => .kept :: object.roles ++ [.spare, .kept]
  | .literal _ => .constant :: List.replicate 4 .kept
  | .flexible _ => .constant :: List.replicate 4 .kept
  | .string _ => .constant :: List.replicate 4 .kept
  | .call routine arguments =>
    .kept :: List.replicate (callHead routine arguments.length).length .kept ++ argumentRoles arguments
  | .objectCall object _ routine arguments =>
    .kept :: object.roles ++
      .mode :: List.replicate (callHead routine arguments.length).length .kept ++ argumentRoles arguments

/-- The roles of the bytes of an object. -/
def Object.roles : Object → List Role
  | .builtin _ => [.kept, .kept, .spare]
  | .named _ => List.replicate 5 .kept
  | .dynamic value => .kept :: value.roles .packed

/-- The roles of the bytes of the arguments of a call. -/
def argumentRoles : List Operand → List Role
  | [] => []
  | a :: as => a.roles .padded ++ argumentRoles as

end

/-- The roles of the bytes of a formula. -/
def Formula.roles : Formula → List Role
  | .last operand => operand.roles .packed
  | .more operand _ rest => operand.roles .packed ++ .kept :: rest.roles

/-- The roles of the bytes of a comparison. -/
def Comparison.roles (c : Comparison) : List Role := c.left.roles ++ .kept :: c.right.roles

/-- The roles of the bytes of a condition. -/
def Condition.roles : Condition → List Role
  | .last comparison => comparison.roles ++ [.kept]
  | .more comparison _ rest => comparison.roles ++ .kept :: rest.roles

/-- The roles of the bytes of a guard. -/
def Guard.roles : Guard → List Role
  | .condition c => .kept :: c.roles
  | .result _ => List.replicate 2 .kept

/-- The roles of the bytes of a statement without a block. -/
def Action.roles : Action → List Role
  | .call _ routine arguments =>
    .kept :: List.replicate (callHead routine arguments.length).length .kept ++ argumentRoles arguments
  | .objectCall object _ routine arguments =>
    .kept :: object.roles ++
      .kept :: List.replicate (callHead routine arguments.length).length .kept ++ argumentRoles arguments
  | .assign place formula => place.operand.roles .packed ++ formula.roles
  | .goto _ => List.replicate 5 .kept
  | .stop _ => List.replicate 5 .kept
  | .gosub _ => List.replicate 5 .kept
  | .pause _ => List.replicate 5 .kept
  | .anchor _ => List.replicate 2 .kept
  | .leave => [.kept]
  | .leaveInterrupt => [.kept]

mutual

/-- The roles of the bytes of a statement. -/
def Statement.roles : Statement → List Role
  | .action a => a.roles
  | .block guard body => guard.roles ++ List.replicate 4 .kept ++ blockRoles body
  | .mark _ => []

/-- The roles of the bytes of a block. -/
def blockRoles : List Statement → List Role
  | [] => []
  | s :: ss => s.roles ++ blockRoles ss

end

/-! ### Bytes that correspond by their roles -/

/-- Each byte and the one in its place satisfy what the role says. -/
inductive Bytewise (R : Role → UInt8 → UInt8 → Prop) : List Role → Bytes → Bytes → Prop where
  | nil : Bytewise R [] [] []
  | cons {r : Role} {b c : UInt8} {rs : List Role} {bs cs : Bytes} :
    R r b c → Bytewise R rs bs cs → Bytewise R (r :: rs) (b :: bs) (c :: cs)

/-- A byte that was read, and the byte that is written for what was read. -/
def Role.Written : Role → UInt8 → UInt8 → Prop
  | .spare, _, c => c = 0
  | _, b, c => c = b

/-- The opcodes of numbers and strings. -/
def constantOpcodes : Bytes := [Opcode.literal.code, Opcode.flexible.code, Opcode.string.code]

/-- A byte of code, and the byte in its place after the code has been listed and assembled again. -/
def Role.Becomes : Role → UInt8 → UInt8 → Prop
  | .kept, b, c => c = b
  | .spare, _, c => c = 0
  | .constant, b, c => b ∈ constantOpcodes ∧ c ∈ constantOpcodes
  | .mode, b, c => (CallMode.ofCode? b).isSome = true ∧ c = CallMode.function.code

section

variable {R : Role → UInt8 → UInt8 → Prop} {rs rs' : List Role} {bs cs bs' cs' : Bytes}

theorem Bytewise.append (h : Bytewise R rs bs cs) (h' : Bytewise R rs' bs' cs') :
    Bytewise R (rs ++ rs') (bs ++ bs') (cs ++ cs') := by
  induction h with
  | nil => exact h'
  | cons first _ ih => exact .cons first ih

theorem Bytewise.length_eq (h : Bytewise R rs bs cs) : cs.length = bs.length := by
  induction h with
  | nil => rfl
  | cons _ _ ih => rw [List.length_cons, List.length_cons, ih]

/-- Bytes that are kept. -/
theorem bytewise_kept (h : ∀ b, R .kept b b) (bs : Bytes) : Bytewise R (List.replicate bs.length .kept) bs bs := by
  induction bs with
  | nil => exact .nil
  | cons b bs ih => exact .cons (h b) ih

/-- Zeros in place of bytes that nothing reads. -/
theorem bytewise_spare (h : ∀ b, R .spare b 0) (bs : Bytes) :
    Bytewise R (List.replicate bs.length .spare) bs (List.replicate bs.length 0) := by
  induction bs with
  | nil => exact .nil
  | cons b bs ih => exact .cons (h b) ih

/-- What is read, written down, listed and assembled again has changed as the roles allow. -/
theorem Bytewise.becomes (h : Bytewise Role.Written rs bs cs) (h' : Bytewise Role.Becomes rs cs cs') :
    Bytewise Role.Becomes rs bs cs' := by
  induction h generalizing cs' with
  | nil => exact h'
  | @cons r b c rs bs cs written _ ih =>
    cases h' with
    | cons becomes rest =>
      refine .cons ?_ (ih rest)
      cases r with
      | spare => exact becomes
      | _ =>
        obtain rfl : c = b := written
        exact becomes

end

end EventScript.Code
