import EventScript.Proofs.BodyLines

/-!
# Objects that a string chooses

An object may be chosen by a value. If the value is a string, the text shows it like the object with that name, and it
is read as one. `direct` says so in code: the text of code and that of its `direct` form are the same
(`Action.lexemes_direct`, `Guard.lexemes_direct`), though the bytes are not.
-/

namespace EventScript.Code

/-- The object that a value chooses: a string gives its name. -/
def Object.chosen : Operand → Object
  | .string index => .named index
  | value => .dynamic value

mutual

/-- An operand with objects by their names, where a string chooses them. -/
def Operand.direct : Operand → Operand
  | .flag ordinal => .flag ordinal
  | .var slot => .var slot
  | .field object reference => .field object.direct reference
  | .literal value => .literal value
  | .flexible value => .flexible value
  | .string index => .string index
  | .call routine arguments => .call routine (argumentsDirect arguments)
  | .objectCall object mode routine arguments =>
    .objectCall object.direct mode routine (argumentsDirect arguments)

/-- An object by its name, if a string chooses it. -/
def Object.direct : Object → Object
  | .builtin which => .builtin which
  | .named index => .named index
  | .dynamic value => .chosen value.direct

/-- Arguments with objects by their names, where a string chooses them. -/
def argumentsDirect : List Operand → List Operand
  | [] => []
  | a :: as => a.direct :: argumentsDirect as

end

/-- A formula with objects by their names, where a string chooses them. -/
def Formula.direct : Formula → Formula
  | .last operand => .last operand.direct
  | .more operand operator rest => .more operand.direct operator rest.direct

/-- A comparison with objects by their names, where a string chooses them. -/
def Comparison.direct (c : Comparison) : Comparison := ⟨c.left.direct, c.comparator, c.right.direct⟩

/-- A condition with objects by their names, where a string chooses them. -/
def Condition.direct : Condition → Condition
  | .last comparison => .last comparison.direct
  | .more comparison conjunction rest => .more comparison.direct conjunction rest.direct

/-- A guard with objects by their names, where a string chooses them. -/
def Guard.direct : Guard → Guard
  | .condition c => .condition c.direct
  | .result value => .result value

/-- A place with an object by its name, if a string chooses it. -/
def Place.direct : Place → Place
  | .flag ordinal => .flag ordinal
  | .var slot => .var slot
  | .field object reference => .field object.direct reference

/-- A statement without a block, with objects by their names, where a string chooses them. -/
def Action.direct : Action → Action
  | .call mode routine arguments => .call mode routine (argumentsDirect arguments)
  | .objectCall object mode routine arguments =>
    .objectCall object.direct mode routine (argumentsDirect arguments)
  | .assign place formula => .assign place.direct formula.direct
  | a => a

mutual

/-- A statement with objects by their names, where a string chooses them. -/
def Statement.direct : Statement → Statement
  | .action a => .action a.direct
  | .block guard body => .block guard.direct (directBlock body)
  | .mark label => .mark label

/-- A block with objects by their names, where a string chooses them. -/
def directBlock : List Statement → List Statement
  | [] => []
  | s :: ss => s.direct :: directBlock ss

end

theorem Place.operand_direct (p : Place) : p.direct.operand = p.operand.direct := by
  cases p <;> simp only [Place.direct, Place.operand, Operand.direct]

theorem length_argumentsDirect (as : List Operand) : (argumentsDirect as).length = as.length := by
  induction as with
  | nil => rfl
  | cons a as ih => rw [argumentsDirect, List.length_cons, List.length_cons, ih]

/-! ### Sizes -/

/-- The name of an object takes one byte less than a string that chooses it. -/
theorem Object.length_chosen_le (value : Operand) :
    (Object.chosen value).encode.length ≤ (value.encode .packed).length + 1 := by
  unfold Object.chosen
  split
  · exact Nat.le_succ 5
  · exact Nat.le_refl _

mutual

theorem Operand.length_direct_le : ∀ (o : Operand) (layout : Layout),
    (o.direct.encode layout).length ≤ (o.encode layout).length
  | .flag _, _ => Nat.le_of_eq (by rw [Operand.direct])
  | .var _, _ => Nat.le_of_eq (by rw [Operand.direct])
  | .field object _, _ => by
    have shorter := object.length_direct_le
    simp only [Operand.direct, Operand.encode, List.length_cons, List.length_append]
    omega
  | .literal _, _ => Nat.le_of_eq (by rw [Operand.direct])
  | .flexible _, _ => Nat.le_of_eq (by rw [Operand.direct])
  | .string _, _ => Nat.le_of_eq (by rw [Operand.direct])
  | .call _ arguments, _ => by
    have shorter := length_encode_argumentsDirect_le arguments
    simp only [Operand.direct, Operand.encode, List.length_cons, List.length_append, length_argumentsDirect]
    omega
  | .objectCall object _ _ arguments, _ => by
    have shorter := object.length_direct_le
    have others := length_encode_argumentsDirect_le arguments
    simp only [Operand.direct, Operand.encode, List.length_cons, List.length_append, length_argumentsDirect]
    omega

theorem Object.length_direct_le : ∀ o : Object, o.direct.encode.length ≤ o.encode.length
  | .builtin _ => Nat.le_of_eq (by rw [Object.direct])
  | .named _ => Nat.le_of_eq (by rw [Object.direct])
  | .dynamic value => by
    rw [Object.direct]
    exact Nat.le_trans (Object.length_chosen_le _) (Nat.succ_le_succ (value.length_direct_le .packed))

theorem length_encode_argumentsDirect_le : ∀ as : List Operand,
    (encodeArguments (argumentsDirect as)).length ≤ (encodeArguments as).length
  | [] => Nat.le_refl 0
  | a :: as => by
    rw [argumentsDirect, encodeArguments, encodeArguments, List.length_append, List.length_append]
    exact Nat.add_le_add (a.length_direct_le .padded) (length_encode_argumentsDirect_le as)

end

theorem Formula.length_direct_le : ∀ f : Formula, f.direct.encode.length ≤ f.encode.length
  | .last operand => operand.length_direct_le .packed
  | .more operand _ rest => by
    rw [Formula.direct, Formula.encode, Formula.encode, List.length_append, List.length_append]
    exact Nat.add_le_add (operand.length_direct_le .packed) (Nat.succ_le_succ rest.length_direct_le)

theorem Comparison.length_direct_le (c : Comparison) : c.direct.encode.length ≤ c.encode.length := by
  rw [Comparison.direct, Comparison.encode, Comparison.encode, List.length_append, List.length_append]
  exact Nat.add_le_add c.left.length_direct_le (Nat.succ_le_succ c.right.length_direct_le)

theorem Condition.length_direct_le : ∀ c : Condition, c.direct.encode.length ≤ c.encode.length
  | .last comparison => by
    rw [Condition.direct, Condition.encode, Condition.encode, List.length_append, List.length_append]
    exact Nat.add_le_add_right comparison.length_direct_le _
  | .more comparison _ rest => by
    rw [Condition.direct, Condition.encode, Condition.encode, List.length_append, List.length_append]
    exact Nat.add_le_add comparison.length_direct_le (Nat.succ_le_succ rest.length_direct_le)

theorem Guard.size_direct_le (g : Guard) : g.direct.size ≤ g.size := by
  cases g with
  | condition c => exact Nat.add_le_add_right (Nat.succ_le_succ c.length_direct_le) 4
  | result value => exact Nat.le_refl _

theorem Action.size_direct_le (a : Action) : a.direct.size ≤ a.size := by
  cases a with
  | call mode routine arguments =>
    have shorter := length_encode_argumentsDirect_le arguments
    simp only [Action.size, Action.direct, Action.encode, List.length_cons, List.length_append, length_argumentsDirect]
    omega
  | objectCall object mode routine arguments =>
    have shorter := (Operand.objectCall object mode routine arguments).length_direct_le .packed
    rw [Operand.direct] at shorter
    exact shorter
  | assign place formula =>
    have shorter := place.operand.length_direct_le .packed
    rw [← place.operand_direct] at shorter
    simp only [Action.size, Action.direct, Action.encode, List.length_append]
    exact Nat.add_le_add shorter formula.length_direct_le
  | _ => exact Nat.le_refl _

/-! ### The text -/

variable {names : Names}

theorem Object.lexemes_chosen (value : Operand) :
    ((Object.chosen value).toSource names).lexemes = (value.toSource names none).lexemes := by
  unfold Object.chosen
  split <;> rfl

mutual

theorem Operand.lexemes_direct : ∀ (o : Operand) (kind : Option ArgumentKind),
    (o.direct.toSource names kind).lexemes = (o.toSource names kind).lexemes
  | .flag _, _ => by rw [Operand.direct]
  | .var _, _ => by rw [Operand.direct]
  | .field object _, _ => by
    simp only [Operand.direct, Operand.toSource, Source.Operand.lexemes, object.lexemes_direct]
  | .literal _, _ => by rw [Operand.direct]
  | .flexible _, _ => by rw [Operand.direct]
  | .string _, _ => by rw [Operand.direct]
  | .call routine arguments, _ => by
    simp only [Operand.direct, Operand.toSource, Source.Operand.lexemes,
      (lexemes_argumentsDirect routine arguments 0).1]
  | .objectCall object mode routine arguments, _ => by
    simp only [Operand.direct, Operand.toSource, Source.Operand.lexemes, object.lexemes_direct,
      (lexemes_argumentsDirect routine arguments 0).1]

theorem Object.lexemes_direct : ∀ o : Object, (o.direct.toSource names).lexemes = (o.toSource names).lexemes
  | .builtin _ => rfl
  | .named _ => rfl
  | .dynamic value => by
    rw [Object.direct, Object.lexemes_chosen, value.lexemes_direct none, Object.toSource, Source.Object.lexemes]

theorem lexemes_argumentsDirect (routine : UInt16) : ∀ (as : List Operand) (index : Nat),
    Source.argumentLexemes (argumentsToSource names routine index (argumentsDirect as)) =
        Source.argumentLexemes (argumentsToSource names routine index as) ∧
      Source.furtherLexemes (argumentsToSource names routine index (argumentsDirect as)) =
        Source.furtherLexemes (argumentsToSource names routine index as)
  | [], _ => ⟨rfl, rfl⟩
  | a :: as, index => by
    have first := a.lexemes_direct (names.kind? routine index)
    have others := (lexemes_argumentsDirect routine as (index + 1)).2
    simp only [argumentsDirect, argumentsToSource, Source.argumentLexemes, Source.furtherLexemes,
      Source.Expr.lexemes, first, others, and_self]

end

theorem Formula.lexemes_direct : ∀ f : Formula, (f.direct.toSource names).lexemes = (f.toSource names).lexemes
  | .last operand => operand.lexemes_direct none
  | .more operand _ rest => by
    simp only [Formula.direct, Formula.toSource, Source.Expr.lexemes, operand.lexemes_direct, rest.lexemes_direct]

theorem Comparison.lexemes_direct (c : Comparison) : c.direct.lexemes names = c.lexemes names := by
  simp only [Comparison.lexemes, Comparison.direct, Formula.lexemes_direct]

theorem Condition.lexemes_direct : ∀ c : Condition, c.direct.lexemes names = c.lexemes names
  | .last comparison => comparison.lexemes_direct
  | .more comparison _ rest => by
    simp only [Condition.direct, Condition.lexemes, comparison.lexemes_direct, rest.lexemes_direct]

/-- The text of a guard does not tell how its objects are chosen. -/
theorem Guard.lexemes_direct (g : Guard) : g.direct.lexemes names = g.lexemes names := by
  cases g with
  | condition c => simp only [Guard.direct, Guard.lexemes, c.lexemes_direct]
  | result value => rfl

/-- The text of a statement does not tell how its objects are chosen. -/
theorem Action.lexemes_direct (a : Action) : a.direct.lexemes names = a.lexemes names := by
  cases a with
  | call mode routine arguments =>
    have operand : ((Operand.call routine (argumentsDirect arguments)).toSource names none).lexemes =
        ((Operand.call routine arguments).toSource names none).lexemes := Operand.lexemes_direct (.call ..) none
    simp only [Action.direct, Action.lexemes, operand]
  | objectCall object mode routine arguments =>
    have operand : ((Operand.objectCall object.direct .function routine (argumentsDirect arguments)).toSource
          names none).lexemes = ((Operand.objectCall object .function routine arguments).toSource names none).lexemes :=
      Operand.lexemes_direct (.objectCall ..) none
    simp only [Action.direct, Action.lexemes, operand]
  | assign place formula =>
    simp only [Action.direct, Action.lexemes, Place.operand_direct, Operand.lexemes_direct, Formula.lexemes_direct]
  | _ => rfl

/-! ### Strings that there are -/

variable {strings : Nat}

theorem Object.fits_chosen {value : Operand} (h : value.Fits strings) : (Object.chosen value).Fits strings := by
  unfold Object.chosen
  split <;> exact h

mutual

theorem Operand.fits_direct : ∀ o : Operand, o.Fits strings → o.direct.Fits strings
  | .flag _, _ => trivial
  | .var _, _ => trivial
  | .field object _, h => object.fits_direct h
  | .literal _, _ => trivial
  | .flexible _, _ => trivial
  | .string _, h => h
  | .call routine arguments, h => by
    rw [Operand.direct, Operand.Fits, length_argumentsDirect]
    exact ⟨h.1, argumentsFit_direct arguments h.2⟩
  | .objectCall object mode routine arguments, h => by
    rw [Operand.direct, Operand.Fits, length_argumentsDirect]
    exact ⟨object.fits_direct h.1, h.2.1, argumentsFit_direct arguments h.2.2⟩

theorem Object.fits_direct : ∀ o : Object, o.Fits strings → o.direct.Fits strings
  | .builtin _, _ => trivial
  | .named _, h => h
  | .dynamic value, h => Object.fits_chosen (value.fits_direct h)

theorem argumentsFit_direct : ∀ as : List Operand, argumentsFit strings as → argumentsFit strings (argumentsDirect as)
  | [], _ => trivial
  | a :: as, h => ⟨a.fits_direct h.1, argumentsFit_direct as h.2⟩

end

theorem Formula.fits_direct : ∀ f : Formula, f.Fits strings → f.direct.Fits strings
  | .last operand, h => operand.fits_direct h
  | .more operand _ rest, h => ⟨operand.fits_direct h.1, rest.fits_direct h.2⟩

theorem Condition.fits_direct : ∀ c : Condition, c.Fits strings → c.direct.Fits strings
  | .last c, h => ⟨c.left.fits_direct h.1, c.right.fits_direct h.2⟩
  | .more c _ rest, h => ⟨⟨c.left.fits_direct h.1.1, c.right.fits_direct h.1.2⟩, rest.fits_direct h.2⟩

theorem Guard.fits_direct {g : Guard} (h : g.Fits strings) : g.direct.Fits strings := by
  cases g with
  | condition c => exact c.fits_direct h
  | result value => trivial

theorem Action.fits_direct {a : Action} (h : a.Fits strings) : a.direct.Fits strings := by
  cases a with
  | call mode routine arguments =>
    rw [Action.direct, Action.Fits, length_argumentsDirect]
    exact ⟨h.1, argumentsFit_direct arguments h.2⟩
  | objectCall object mode routine arguments =>
    rw [Action.direct, Action.Fits, length_argumentsDirect]
    exact ⟨object.fits_direct h.1, h.2.1, argumentsFit_direct arguments h.2.2⟩
  | assign place formula =>
    rw [Action.direct, Action.Fits, Place.operand_direct]
    exact ⟨place.operand.fits_direct h.1, formula.fits_direct h.2⟩
  | _ => exact h

end EventScript.Code
