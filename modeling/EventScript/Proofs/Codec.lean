import EventScript.Code.Decoding
import EventScript.Proofs.Run

/-!
# Code read back from its bytes

Bytes can hold code that `Fits`: its strings are in the table, a call has at most 255 arguments, and
the routine zero has none. Reading the bytes of such code gives the code (`decode_encodeBlock`). Reading is
followed piece by piece with `Reads m bytes a tail`: from `bytes` in front of any `tail`, the reader `m`
takes just `bytes` and ends with `a`.
-/

namespace EventScript.Code

open Reader

/-- From the bytes in front of a tail a reader takes those bytes and ends with a value. -/
def Reads {α : Type} (m : Reader α) (bytes : Bytes) (a : α) (tail : Bytes) : Prop :=
  ∀ p, Yields m ⟨p, bytes ++ tail⟩ a ⟨p + bytes.length, tail⟩

section

variable {α β : Type} {m : Reader α} {f : α → Reader β} {a : α} {b : β} {tail : Bytes}

theorem reads_pure (a : α) (tail : Bytes) : Reads (pure a) [] a tail :=
  fun _ => yields_pure.mpr ⟨rfl, rfl⟩

theorem Reads.bind {first second : Bytes} (h : Reads m first a (second ++ tail))
    (h' : Reads (f a) second b tail) : Reads (m >>= f) (first ++ second) b tail := by
  intro p
  refine yields_bind.mpr ⟨a, ⟨p + first.length, second ++ tail⟩, ?_, ?_⟩
  · rw [List.append_assoc]
    exact h p
  · rw [List.length_append, ← Nat.add_assoc]
    exact h' (p + first.length)

theorem Reads.map {bytes : Bytes} (h : Reads m bytes a tail) (f : α → β) :
    Reads (m >>= fun x => pure (f x)) bytes (f a) tail := by
  intro p
  exact yields_bind.mpr ⟨a, _, h p, yields_pure.mpr ⟨rfl, rfl⟩⟩

theorem reads_position {bytes : Bytes} {f : Nat → Reader β} (h : ∀ start, Reads (f start) bytes b tail) :
    Reads (position >>= f) bytes b tail :=
  fun p => yields_bind.mpr ⟨p, _, rfl, h p p⟩

theorem reads_peek {bytes : Bytes} {f : Option UInt8 → Reader β}
    (h : Reads (f (bytes ++ tail).head?) bytes b tail) : Reads (peek? >>= f) bytes b tail :=
  fun p => yields_bind.mpr ⟨_, _, rfl, h p⟩

theorem reads_note {bytes : Bytes} {f : Unit → Reader β} (site : CallSite)
    (h : Reads (f ()) bytes b tail) : Reads (note site >>= f) bytes b tail :=
  fun p => yields_bind.mpr ⟨(), _, rfl, h p⟩

theorem reads_byte (x : UInt8) (tail : Bytes) : Reads byte [x] x tail := fun _ => rfl

theorem reads_word (w : UInt16) (tail : Bytes) : Reads word (bytes16 w) w tail := by
  intro p
  show Except.ok (word16 _ _, _) = _
  rw [word16_bytes]
  rfl

theorem reads_long (w : UInt32) (tail : Bytes) : Reads long (bytes32 w) w tail := by
  intro p
  show Except.ok (word32 _ _ _ _, _) = _
  rw [word32_bytes]
  rfl

theorem reads_skip (bytes tail : Bytes) : Reads (skip bytes.length) bytes () tail := by
  intro p
  simp only [Yields, skip]
  rw [if_pos (by simp), List.drop_left]
  rfl

theorem reads_stringIndex {strings : Nat} {index : UInt32} (h : index.toNat < strings) (tail : Bytes) :
    Reads (stringIndex strings) (bytes32 index) index tail := by
  intro p
  refine yields_bind.mpr ⟨index, _, reads_long index tail p, ?_⟩
  rw [if_pos h]
  exact yields_pure.mpr ⟨rfl, rfl⟩

theorem reads_mode (mode : CallMode) (tail : Bytes) :
    Reads readMode [(Opcode.call mode).code] mode tail := by
  refine reads_position fun start => ?_
  intro p
  refine yields_bind.mpr ⟨_, _, reads_byte _ tail p, ?_⟩
  rw [show CallMode.ofCode? (Opcode.call mode).code = some mode from CallMode.ofCode?_code mode]
  exact yields_pure.mpr ⟨rfl, rfl⟩

theorem reads_opcode {bytes : Bytes} {f : UInt8 → Reader β} (o : Opcode)
    (h : Reads (f o.code) bytes b tail) : Reads (byte >>= f) (o.code :: bytes) b tail :=
  (reads_byte o.code _).bind h

end

/-! ### Code that bytes can hold -/

/-- A call can have as many arguments. -/
def CallFits (routine : UInt16) (count : Nat) : Prop := (routine = 0 → count = 0) ∧ count ≤ 255

mutual

/-- Bytes can hold the operand in a unit with so many strings. -/
def Operand.Fits (strings : Nat) : Operand → Prop
  | .flag _ => True
  | .var _ => True
  | .field object _ => object.Fits strings
  | .literal _ => True
  | .flexible _ => True
  | .string index => index.toNat < strings
  | .call routine arguments => CallFits routine arguments.length ∧ argumentsFit strings arguments
  | .objectCall object _ routine arguments =>
    object.Fits strings ∧ CallFits routine arguments.length ∧ argumentsFit strings arguments

/-- Bytes can hold the object in a unit with so many strings. -/
def Object.Fits (strings : Nat) : Object → Prop
  | .builtin _ => True
  | .named index => index.toNat < strings
  | .dynamic value => value.Fits strings

/-- Bytes can hold the arguments in a unit with so many strings. -/
def argumentsFit (strings : Nat) : List Operand → Prop
  | [] => True
  | a :: as => a.Fits strings ∧ argumentsFit strings as

end

theorem ofNat_word16_zero (r : UInt8) : UInt8.ofNat (word16 0 r).toNat = r := by
  have h := r.toNat_lt
  apply UInt8.toNat_inj.mp
  simp only [word16, UInt16.toNat_ofNat', UInt8.toNat_ofNat', UInt8.toNat_zero]
  omega

/-- A reference is stored as a word whose first byte is zero. -/
theorem reads_reference {α : Type} (r : UInt8) (f : UInt8 → α) (tail : Bytes) :
    Reads (word >>= fun w => pure (f (UInt8.ofNat w.toNat))) [0, r] (f r) tail := by
  have read := (reads_word (word16 0 r) tail).map fun w => f (UInt8.ofNat w.toNat)
  rwa [ofNat_word16_zero, bytes16_word16] at read

theorem length_callHead_pos (routine : UInt16) (count : Nat) : 1 < (callHead routine count).length := by
  rw [callHead]
  split <;> simp

theorem Operand.length_encode_pos (o : Operand) (layout : Layout) : 0 < (o.encode layout).length := by
  cases o <;> simp [Operand.encode]

variable {strings : Nat}

/-- What follows the opcode of a call is read as the routine and its arguments. -/
theorem reads_call {routine : UInt16} {arguments : List Operand}
    (fits : CallFits routine arguments.length)
    (inner : ∀ n : Nat, (encodeArguments arguments).length < n → ∀ tail : Bytes,
      Reads (readArguments strings n arguments.length) (encodeArguments arguments) arguments tail)
    (n : Nat) (fuel : (callHead routine arguments.length ++ encodeArguments arguments).length ≤ n)
    (tail : Bytes) :
    Reads (readCall strings n) (callHead routine arguments.length ++ encodeArguments arguments)
      (routine, arguments) tail := by
  have head := length_callHead_pos routine arguments.length
  rw [List.length_append] at fuel
  obtain ⟨n, rfl⟩ : ∃ m, n = m + 1 := ⟨n - 1, by omega⟩
  rw [readCall, callHead]
  by_cases zero : routine = 0
  · subst zero
    have none_ : arguments = [] := List.length_eq_zero_iff.mp (fits.1 rfl)
    subst none_
    rw [if_pos rfl, encodeArguments]
    exact (reads_word 0 tail).bind (by rw [if_pos rfl]; exact reads_pure _ tail)
  · rw [if_neg zero, List.append_assoc]
    refine (reads_word routine _).bind ?_
    rw [if_neg zero]
    refine (reads_byte (UInt8.ofNat arguments.length) _).bind (reads_note _ ?_)
    have count : (UInt8.ofNat arguments.length).toNat = arguments.length := by
      have := fits.2
      rw [UInt8.toNat_ofNat', Nat.mod_eq_of_lt (by omega)]
    rw [count]
    exact (inner n (by omega) tail).map fun as => (routine, as)

mutual

/-- The bytes of an operand are read as the operand. -/
theorem Operand.reads_encode : ∀ (o : Operand), o.Fits strings → ∀ (layout : Layout) (n : Nat),
    (o.encode layout).length ≤ n → ∀ tail : Bytes,
      Reads (readOperand strings n layout) (o.encode layout) o tail
  | .flag ordinal, _, layout, n + 1, fuel, tail => by
    rw [Operand.encode, readOperand]
    refine reads_position fun _ => reads_opcode .flag ?_
    simp only [Opcode.ofCode?_code]
    refine (reads_word ordinal _).bind ?_
    have skipped := reads_skip (List.replicate (layout.padding 2) 0) tail
    rw [List.length_replicate] at skipped
    exact skipped.map fun _ => Operand.flag ordinal
  | .var slot, _, layout, n + 1, fuel, tail => by
    rw [Operand.encode, readOperand]
    refine reads_position fun _ => reads_opcode .var ?_
    simp only [Opcode.ofCode?_code]
    refine (reads_byte slot _).bind ?_
    have skipped := reads_skip (List.replicate (layout.padding 3) 0) tail
    rw [List.length_replicate] at skipped
    exact skipped.map fun _ => Operand.var slot
  | .field object reference, h, layout, n + 1, fuel, tail => by
    rw [Operand.encode] at fuel ⊢
    rw [readOperand]
    refine reads_position fun _ => reads_opcode .field ?_
    simp only [Opcode.ofCode?_code]
    simp only [List.length_cons, List.length_append] at fuel
    exact (object.reads_encode h n (by omega) _).bind (reads_reference reference (Operand.field object) tail)
  | .literal value, _, layout, n + 1, fuel, tail => by
    rw [Operand.encode, readOperand]
    refine reads_position fun _ => reads_opcode .literal ?_
    simp only [Opcode.ofCode?_code]
    have read := (reads_long value.toUInt32 tail).map fun w => Operand.literal w.toInt32
    rwa [Int32.toInt32_toUInt32] at read
  | .flexible value, _, layout, n + 1, fuel, tail => by
    rw [Operand.encode, readOperand]
    refine reads_position fun _ => reads_opcode .flexible ?_
    simp only [Opcode.ofCode?_code]
    have read := (reads_long value.toUInt32 tail).map fun w => Operand.flexible w.toInt32
    rwa [Int32.toInt32_toUInt32] at read
  | .string index, h, layout, n + 1, fuel, tail => by
    rw [Operand.encode, readOperand]
    refine reads_position fun _ => reads_opcode .string ?_
    simp only [Opcode.ofCode?_code]
    exact (reads_stringIndex h tail).map Operand.string
  | .call routine arguments, h, layout, n + 1, fuel, tail => by
    rw [Operand.encode] at fuel ⊢
    rw [readOperand]
    refine reads_position fun _ => reads_opcode (.call .function) ?_
    simp only [Opcode.ofCode?_code]
    simp only [List.length_cons, List.length_append] at fuel
    have inner := readArguments_encode arguments h.2
    exact (reads_call h.1 inner n (by rw [List.length_append]; omega) tail).map
      fun p => Operand.call p.1 p.2
  | .objectCall object mode routine arguments, h, layout, n + 1, fuel, tail => by
    rw [Operand.encode, List.append_assoc] at fuel ⊢
    simp only [List.length_cons, List.length_append] at fuel
    rw [readOperand]
    refine reads_position fun _ => reads_opcode .objectCall ?_
    simp only [Opcode.ofCode?_code]
    refine (object.reads_encode h.1 n (by omega) _).bind ((reads_mode mode _).bind ?_)
    have inner := readArguments_encode arguments h.2.2
    exact (reads_call h.2.1 inner n (by rw [List.length_append]; omega) tail).map
      fun p => Operand.objectCall object mode p.1 p.2

/-- The bytes of an object are read as the object. -/
theorem Object.reads_encode : ∀ (o : Object), o.Fits strings → ∀ n : Nat, o.encode.length ≤ n →
    ∀ tail : Bytes, Reads (readObject strings n) o.encode o tail
  | .builtin which, _, n + 1, fuel, tail => by
    rw [Object.encode, readObject]
    refine reads_position fun _ => (reads_byte 0 _).bind ?_
    rw [if_pos rfl]
    refine (reads_byte which.code _).bind ?_
    simp only [Builtin.ofCode?_code]
    exact (reads_skip [0] tail).map fun _ => Object.builtin which
  | .named index, h, n + 1, fuel, tail => by
    rw [Object.encode, readObject]
    refine reads_position fun _ => (reads_byte 1 _).bind ?_
    rw [if_neg (by decide), if_pos rfl]
    exact (reads_stringIndex h tail).map Object.named
  | .dynamic value, h, n + 1, fuel, tail => by
    rw [Object.encode] at fuel ⊢
    rw [readObject]
    refine reads_position fun _ => (reads_byte 2 _).bind ?_
    rw [if_neg (by decide), if_neg (by decide), if_pos rfl]
    exact (value.reads_encode h .packed n (Nat.le_of_succ_le_succ fuel) tail).map Object.dynamic

/-- The bytes of arguments are read as the arguments. -/
theorem readArguments_encode : ∀ (as : List Operand), argumentsFit strings as → ∀ n : Nat,
    (encodeArguments as).length < n → ∀ tail : Bytes,
      Reads (readArguments strings n as.length) (encodeArguments as) as tail
  | [], _, n + 1, _, tail => by
    rw [encodeArguments, List.length_nil, readArguments]
    exact reads_pure [] tail
  | a :: as, h, n + 1, fuel, tail => by
    rw [encodeArguments, List.length_append] at fuel
    have first := a.length_encode_pos .padded
    rw [encodeArguments, List.length_cons, readArguments]
    refine (a.reads_encode h.1 .padded n (by omega) _).bind ?_
    exact (readArguments_encode as h.2 n (by omega) tail).map fun as => a :: as

end

/-! ### Formulas and conditions -/

/-- No operator follows, so that a formula ends here. -/
def Quiet (tail : Bytes) : Prop := ∀ b ∈ tail.head?, Operator.ofCode? b = none

theorem quiet_nil : Quiet [] := by rintro b ⟨⟩

theorem quiet_cons {b : UInt8} (h : Operator.ofCode? b = none) (tail : Bytes) : Quiet (b :: tail) := by
  rintro c ⟨⟩
  exact h

theorem Quiet.bind_eq_none {tail : Bytes} (quiet : Quiet tail) :
    tail.head?.bind Operator.ofCode? = none := by
  cases tail with
  | nil => rfl
  | cons b tail => exact quiet b rfl

/-- Bytes can hold the formula. -/
def Formula.Fits (strings : Nat) : Formula → Prop
  | .last operand => operand.Fits strings
  | .more operand _ rest => operand.Fits strings ∧ rest.Fits strings

/-- Bytes can hold the comparison. -/
def Comparison.Fits (strings : Nat) (c : Comparison) : Prop :=
  c.left.Fits strings ∧ c.right.Fits strings

/-- Bytes can hold the condition. -/
def Condition.Fits (strings : Nat) : Condition → Prop
  | .last comparison => comparison.Fits strings
  | .more comparison _ rest => comparison.Fits strings ∧ rest.Fits strings

/-- Bytes can hold the guard. -/
def Guard.Fits (strings : Nat) : Guard → Prop
  | .condition c => c.Fits strings
  | .result _ => True

/-- Bytes can hold the statement: a target that need not be there is not zero, which means that there
is none. -/
def Action.Fits (strings : Nat) : Action → Prop
  | .call _ routine arguments => CallFits routine arguments.length ∧ argumentsFit strings arguments
  | .objectCall object _ routine arguments =>
    object.Fits strings ∧ CallFits routine arguments.length ∧ argumentsFit strings arguments
  | .assign place formula => place.operand.Fits strings ∧ formula.Fits strings
  | .goto target => target ≠ some 0
  | .stop target => target ≠ some 0
  | _ => True

mutual

/-- Bytes can hold the statement, in which no labels are marked. -/
def Statement.Fits (strings : Nat) : Statement → Prop
  | .action a => a.Fits strings
  | .block guard body => guard.Fits strings ∧ blockFits strings body ∧ blockSize body < 4294967296
  | .mark _ => False

/-- Bytes can hold the block, in which no labels are marked. -/
def blockFits (strings : Nat) : List Statement → Prop
  | [] => True
  | s :: ss => s.Fits strings ∧ blockFits strings ss

end

theorem Formula.reads_encode {tail : Bytes} (quiet : Quiet tail) : ∀ (f : Formula), f.Fits strings →
    ∀ n : Nat, f.encode.length < n → Reads (readFormula strings n) f.encode f tail
  | .last operand, h, n + 1, fuel => by
    rw [Formula.encode] at fuel ⊢
    rw [readFormula]
    have first := operand.reads_encode h .packed n (by omega) tail
    rw [← List.append_nil (operand.encode .packed)]
    refine Reads.bind first (reads_peek ?_)
    rw [List.nil_append, quiet.bind_eq_none]
    exact reads_pure _ tail
  | .more operand operator rest, h, n + 1, fuel => by
    rw [Formula.encode] at fuel ⊢
    simp only [List.length_append, List.length_cons] at fuel
    rw [readFormula]
    refine (operand.reads_encode h.1 .packed n (by omega) _).bind (reads_peek ?_)
    have code : ((operator.code :: rest.encode ++ tail).head?).bind Operator.ofCode? = some operator :=
      Operator.ofCode?_code operator
    rw [code]
    refine (reads_skip [operator.code] _).bind ?_
    exact (rest.reads_encode quiet h.2 n (by omega)).map fun r => Formula.more operand operator r

theorem Comparison.reads_encode {tail : Bytes} (quiet : Quiet tail) (c : Comparison)
    (h : c.Fits strings) (n : Nat) (fuel : c.encode.length < n) :
    Reads (readComparison strings n) c.encode c tail := by
  rw [Comparison.encode] at fuel ⊢
  simp only [List.length_append, List.length_cons] at fuel
  rw [readComparison]
  have between : Quiet (c.comparator.code :: c.right.encode ++ tail) :=
    quiet_cons (by cases c.comparator <;> rfl) _
  refine (c.left.reads_encode between h.1 n (by omega)).bind (reads_position fun _ => ?_)
  refine (reads_byte c.comparator.code _).bind ?_
  simp only [Comparator.ofCode?_code]
  exact (c.right.reads_encode quiet h.2 n (by omega)).map fun r => Comparison.mk c.left c.comparator r

theorem Condition.reads_encode (tail : Bytes) : ∀ (c : Condition), c.Fits strings →
    ∀ n : Nat, c.encode.length < n → Reads (readCondition strings n) c.encode c tail
  | .last comparison, h, n + 1, fuel => by
    rw [Condition.encode] at fuel ⊢
    simp only [List.length_append, List.length_cons] at fuel
    rw [readCondition]
    have between : Quiet ([0] ++ tail) := quiet_cons rfl _
    refine (comparison.reads_encode between h n (by omega)).bind (reads_position fun _ => ?_)
    rw [← List.append_nil [0]]
    refine (reads_byte 0 _).bind ?_
    rw [if_pos rfl]
    exact reads_pure _ tail
  | .more comparison conjunction rest, h, n + 1, fuel => by
    rw [Condition.encode] at fuel ⊢
    simp only [List.length_append, List.length_cons] at fuel
    rw [readCondition]
    have between : Quiet (conjunction.code :: rest.encode ++ tail) :=
      quiet_cons (by cases conjunction <;> rfl) _
    refine (comparison.reads_encode between h.1 n (by omega)).bind (reads_position fun _ => ?_)
    refine (reads_byte conjunction.code _).bind ?_
    rw [if_neg (by cases conjunction <;> decide)]
    simp only [Conjunction.ofCode?_code]
    exact (rest.reads_encode tail h.2 n (by omega)).map fun r => Condition.more comparison conjunction r

/-! ### Statements -/

theorem reads_target {target : Option UInt32} (h : target ≠ some 0) (f : Option UInt32 → Action)
    (tail : Bytes) :
    Reads (long >>= fun w => pure (Head.action (f (targetOf w)))) (encodeTarget id target)
      (.action (f target)) tail := by
  have back : ∀ w, targetOf w = target →
      Reads (long >>= fun w => pure (Head.action (f (targetOf w)))) (bytes32 w)
        (.action (f target)) tail := by
    intro w hw
    have read := (reads_long w tail).map fun w => Head.action (f (targetOf w))
    rwa [hw] at read
  cases target with
  | none => exact back 0 rfl
  | some w =>
    refine back w ?_
    rw [targetOf, if_neg]
    rintro rfl
    exact h rfl

theorem reads_assignment {bytes tail : Bytes} (quiet : Quiet tail) {m : Reader Place} {place : Place}
    {formula : Formula} (h : formula.Fits strings) {n : Nat} (fuel : formula.encode.length < n)
    (first : Reads m bytes place (formula.encode ++ tail)) :
    Reads (readAssignment strings n m >>= fun a => pure (Head.action a)) (bytes ++ formula.encode)
      (.action (.assign place formula)) tail := by
  refine Reads.map ?_ Head.action
  rw [readAssignment]
  exact first.bind ((formula.reads_encode quiet h n fuel).map fun f => Action.assign place f)

/-- The bytes of a statement without a block are read as the statement. -/
theorem Action.reads_encode {tail : Bytes} (quiet : Quiet tail) (a : Action) (h : a.Fits strings)
    (n : Nat) (fuel : (a.encode id).length ≤ n) :
    Reads (readHead strings n) (a.encode id) (.action a) tail := by
  rw [readHead]
  refine reads_position fun _ => ?_
  cases a with
  | call mode routine arguments =>
    rw [Action.encode] at fuel ⊢
    simp only [List.length_cons, List.length_append] at fuel
    refine reads_opcode (.call mode) ?_
    simp only [Opcode.ofCode?_code]
    have inner := readArguments_encode arguments h.2
    exact (reads_call h.1 inner n (by rw [List.length_append]; omega) tail).map
      fun p => Head.action (.call mode p.1 p.2)
  | objectCall object mode routine arguments =>
    rw [Action.encode, Operand.encode, List.append_assoc] at fuel ⊢
    simp only [List.length_cons, List.length_append] at fuel
    refine reads_opcode .objectCall ?_
    simp only [Opcode.ofCode?_code]
    refine (object.reads_encode h.1 n (by omega) _).bind ((reads_mode mode _).bind ?_)
    have inner := readArguments_encode arguments h.2.2
    exact (reads_call h.2.1 inner n (by rw [List.length_append]; omega) tail).map
      fun p => Head.action (.objectCall object mode p.1 p.2)
  | assign place formula =>
    rw [Action.encode, List.length_append] at fuel
    rw [Action.encode]
    have start := place.operand.length_encode_pos .packed
    cases place with
    | flag ordinal =>
      refine reads_opcode .flag ?_
      simp only [Opcode.ofCode?_code]
      exact reads_assignment quiet h.2 (by omega) ((reads_word ordinal _).map Place.flag)
    | var slot =>
      refine reads_opcode .var ?_
      simp only [Opcode.ofCode?_code]
      exact reads_assignment quiet h.2 (by omega) ((reads_byte slot _).map Place.var)
    | field object reference =>
      rw [Place.operand, Operand.encode] at fuel ⊢
      simp only [List.length_cons, List.length_append] at fuel
      refine reads_opcode .field ?_
      simp only [Opcode.ofCode?_code]
      exact reads_assignment quiet h.2 (by omega) ((object.reads_encode h.1 n (by omega) _).bind
        (reads_reference reference (Place.field object) _))
  | goto target =>
    refine reads_opcode .goto ?_
    simp only [Opcode.ofCode?_code]
    exact reads_target h .goto tail
  | stop target =>
    refine reads_opcode .stop ?_
    simp only [Opcode.ofCode?_code]
    exact reads_target h .stop tail
  | gosub target =>
    refine reads_opcode .gosub ?_
    simp only [Opcode.ofCode?_code]
    exact (reads_long target tail).map fun w => Head.action (.gosub w)
  | pause target =>
    refine reads_opcode .pause ?_
    simp only [Opcode.ofCode?_code]
    exact (reads_long target tail).map fun w => Head.action (.pause w)
  | anchor value =>
    refine reads_opcode .anchor ?_
    simp only [Opcode.ofCode?_code]
    exact (reads_byte value tail).map fun b => Head.action (.anchor b)
  | leave =>
    refine reads_opcode .leave ?_
    simp only [Opcode.ofCode?_code]
    exact reads_pure _ tail
  | leaveInterrupt =>
    refine reads_opcode .leaveInterrupt ?_
    simp only [Opcode.ofCode?_code]
    exact reads_pure _ tail

/-- The bytes of a guard are read as the guard. -/
theorem Guard.reads_encode (tail : Bytes) (g : Guard) (h : g.Fits strings) (n : Nat)
    (fuel : g.encode.length ≤ n) : Reads (readHead strings n) g.encode (.guard g) tail := by
  rw [readHead]
  refine reads_position fun _ => ?_
  cases g with
  | condition c =>
    refine reads_opcode .condition ?_
    simp only [Opcode.ofCode?_code]
    exact (c.reads_encode tail h n fuel).map fun c => Head.guard (.condition c)
  | result value =>
    refine reads_opcode .result ?_
    simp only [Opcode.ofCode?_code]
    exact (reads_byte value tail).map fun b => Head.guard (.result b)

theorem quiet_opcode (o : Opcode) (tail : Bytes) : Quiet (o.code :: tail) := by
  refine quiet_cons ?_ tail
  cases o with
  | call mode => cases mode <;> rfl
  | _ => rfl

theorem Action.quiet_encode (a : Action) (tail : Bytes) : Quiet (a.encode id ++ tail) := by
  cases a with
  | assign place formula => cases place <;> exact quiet_opcode _ _
  | _ => exact quiet_opcode _ _

theorem Guard.quiet_encode (g : Guard) (tail : Bytes) : Quiet (g.encode ++ tail) := by
  cases g <;> exact quiet_opcode _ _

/-- No statement begins with an operator. -/
theorem quiet_encodeBlock {tail : Bytes} (quiet : Quiet tail) {ss : List Statement}
    (h : blockFits strings ss) : Quiet (encodeBlock id ss ++ tail) := by
  match ss, h with
  | [], _ => exact quiet
  | .action a :: ss, _ =>
    rw [encodeBlock, List.append_assoc, Statement.encode]
    exact a.quiet_encode _
  | .block guard body :: ss, _ =>
    rw [encodeBlock, List.append_assoc, Statement.encode]
    simp only [List.append_assoc]
    exact guard.quiet_encode _

theorem Action.size_pos (a : Action) : 0 < a.size := by
  cases a with
  | assign place formula =>
    have := place.operand.length_encode_pos .packed
    rw [Action.size, Action.encode, List.length_append]
    omega
  | objectCall object mode routine arguments => exact Nat.succ_pos _
  | _ => exact Nat.succ_pos _

/-- Reading the length of a block gives the address of its end. -/
theorem yields_readStop {size p : Nat} (small : size < 4294967296) {rest : Bytes} (h : size ≤ rest.length) :
    Yields readStop ⟨p, bytes32 (UInt32.ofNat size) ++ rest⟩ (p + 4 + size) ⟨p + 4, rest⟩ := by
  have same : (UInt32.ofNat size).toNat = size := by
    rw [UInt32.toNat_ofNat', Nat.mod_eq_of_lt small]
  refine yields_bind.mpr ⟨_, _, reads_long _ rest p, ?_⟩
  simp only [Yields, same, length_bytes32, Cursor.length]
  rw [if_pos (by omega)]
  rfl

/-- The bytes of a block are read as the block, up to the address of its end. -/
theorem readBlock_encode (n : Nat) : ∀ (ss : List Statement), blockFits strings ss →
    blockSize ss < n → ∀ (p : Nat) (tail : Bytes), Quiet tail →
      Yields (readBlock strings n (p + blockSize ss)) ⟨p, encodeBlock id ss ++ tail⟩ ss
        ⟨p + blockSize ss, tail⟩ := by
  induction n with
  | zero => exact fun ss _ fuel => absurd fuel (Nat.not_lt_zero _)
  | succ n ih =>
    intro ss h fuel p tail quiet
    rw [readBlock]
    refine yields_bind.mpr ⟨p, _, rfl, ?_⟩
    match ss, h with
    | [], _ =>
      rw [blockSize, Nat.add_zero, if_neg (Nat.lt_irrefl p), if_pos rfl]
      exact yields_pure.mpr ⟨rfl, rfl⟩
    | .action a :: ss, h =>
      have pos := a.size_pos
      have size : blockSize (.action a :: ss) = a.size + blockSize ss := by
        rw [blockSize, Statement.size]
      rw [if_pos (by omega), encodeBlock, Statement.encode, List.append_assoc]
      have head := a.reads_encode (quiet_encodeBlock quiet h.2) h.1 n
        (by rw [a.length_encode]; omega) p
      refine yields_bind.mpr ⟨_, _, head, ?_⟩
      rw [a.length_encode, size, ← Nat.add_assoc]
      exact yields_bind.mpr ⟨ss, _, ih ss h.2 (by omega) _ tail quiet, yields_pure.mpr ⟨rfl, rfl⟩⟩
    | .block guard body :: ss, h =>
      obtain ⟨⟨hg, hb, small⟩, hs⟩ := h
      have size : blockSize (.block guard body :: ss) =
          guard.encode.length + 4 + blockSize body + blockSize ss := by
        rw [blockSize, Statement.size, Guard.size]
      rw [if_pos (by omega), encodeBlock, Statement.encode]
      simp only [length_encodeBlock, List.append_assoc]
      have head := guard.reads_encode (bytes32 (UInt32.ofNat (blockSize body)) ++
        (encodeBlock id body ++ (encodeBlock id ss ++ tail))) hg n (by omega) p
      refine yields_bind.mpr ⟨_, _, head, ?_⟩
      have long : blockSize body ≤ (encodeBlock id body ++ (encodeBlock id ss ++ tail)).length := by
        rw [List.length_append, length_encodeBlock]
        omega
      have stop := yields_readStop (p := p + guard.encode.length) small long
      have inner := ih body hb (by omega) (p + guard.encode.length + 4) _ (quiet_encodeBlock quiet hs)
      have rest := ih ss hs (by omega) (p + guard.encode.length + 4 + blockSize body) tail quiet
      refine yields_bind.mpr ⟨_, _, stop, yields_bind.mpr ⟨_, _, inner, yields_bind.mpr
        ⟨_, _, ?_, yields_pure.mpr ⟨rfl, rfl⟩⟩⟩⟩
      have address : p + blockSize (.block guard body :: ss) =
          p + guard.encode.length + 4 + blockSize body + blockSize ss := by omega
      rw [address]
      exact rest

/-- Code that bytes can hold is read back from its bytes. -/
theorem decode_encodeBlock {ss : List Statement} (h : blockFits strings ss) :
    (decode strings (encodeBlock id ss)).result = .ok ss := by
  have read := readBlock_encode (depth (encodeBlock id ss)) ss h
    (by rw [depth, length_encodeBlock]; omega) 0 [] quiet_nil
  rw [Nat.zero_add, List.append_nil] at read
  rw [decode, length_encodeBlock, Traced.result_bind_eq_ok]
  exact ⟨_, read, rfl⟩

end EventScript.Code
