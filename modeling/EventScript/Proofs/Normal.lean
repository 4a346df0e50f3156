import EventScript.Assembly.Resolve
import EventScript.Listing.Naming
import EventScript.Proofs.CatalogNames
import EventScript.Proofs.Codec
import EventScript.Proofs.Printing

/-!
# Code resolved from the names of code

A listing gives names to code and assembly resolves them again. What comes out is the `normal` form:
the same code, except that a number or a string that is an argument is stored in the way that its
position asks for, equal strings become one, and a call in a value is a function call
(`Operand.yields_normal`). This needs code that is `Textual`: an object is chosen by a flag or a variable,
and no call in a value is asynchronous, since the text has no words for other code.
-/

namespace EventScript.Code

mutual

/-- The script text has words for the operand. -/
def Operand.Textual : Operand → Prop
  | .flag _ => True
  | .var _ => True
  | .field object _ => object.Textual
  | .literal _ => True
  | .flexible _ => True
  | .string _ => True
  | .call _ arguments => argumentsTextual arguments
  | .objectCall object mode _ arguments =>
    mode ≠ .async ∧ object.Textual ∧ argumentsTextual arguments

/-- The script text has words for the object. -/
def Object.Textual : Object → Prop
  | .builtin _ => True
  | .named _ => True
  | .dynamic (.flag _) => True
  | .dynamic (.var _) => True
  | .dynamic _ => False

/-- The script text has words for the arguments. -/
def argumentsTextual : List Operand → Prop
  | [] => True
  | a :: as => a.Textual ∧ argumentsTextual as

end

mutual

/-- An operand and the operands in it, with what they stand for. -/
def Operand.parts (names : Names) (kind : Option ArgumentKind) :
    Operand → List (Option ArgumentKind × Operand)
  | .flag ordinal => [(kind, .flag ordinal)]
  | .var slot => [(kind, .var slot)]
  | .field object reference => (kind, .field object reference) :: object.parts names
  | .literal value => [(kind, .literal value)]
  | .flexible value => [(kind, .flexible value)]
  | .string index => [(kind, .string index)]
  | .call routine arguments =>
    (kind, .call routine arguments) :: argumentParts names routine 0 arguments
  | .objectCall object mode routine arguments =>
    (kind, .objectCall object mode routine arguments) ::
      (object.parts names ++ argumentParts names routine 0 arguments)

/-- The operands in an object. -/
def Object.parts (names : Names) : Object → List (Option ArgumentKind × Operand)
  | .builtin _ => []
  | .named _ => []
  | .dynamic value => value.parts names none

/-- The operands in the arguments of a routine from a position on, with what they stand for. -/
def argumentParts (names : Names) (routine : UInt16) (index : Nat) :
    List Operand → List (Option ArgumentKind × Operand)
  | [] => []
  | a :: as =>
    a.parts names (names.kind? routine index) ++ argumentParts names routine (index + 1) as

end

/-- The first index of a string. -/
def Names.index (names : Names) (text : String) : Nat := (names.strings.idxOf? text).getD 0

/-- How a number is stored where an argument of a kind, or no such argument, is expected. -/
def numberOf (kind : Option ArgumentKind) (value : Int32) : Operand :=
  if kind.isSome then .flexible value else .literal value

/-- How a string is stored where an argument of a kind, or no such argument, is expected. -/
def Names.stringOf (names : Names) (kind : Option ArgumentKind) (text : String) : Operand :=
  if kind = some .dialogue then .flexible (Int32.ofInt (names.index text))
  else .string (UInt32.ofNat (names.index text))

mutual

/-- What the text of an operand is resolved to. -/
def Operand.normal (names : Names) (kind : Option ArgumentKind) : Operand → Operand
  | .flag ordinal => .flag ordinal
  | .var slot => .var slot
  | .field object reference => .field (object.normal names) reference
  | .literal value => numberOf kind value
  | .flexible value =>
    match kind, names.label? value with
    | some .dialogue, some text => names.stringOf kind text
    | _, _ => numberOf kind value
  | .string index => names.stringOf kind (names.string index)
  | .call routine arguments => .call routine (argumentsNormal names routine 0 arguments)
  | .objectCall object _ routine arguments =>
    .objectCall (object.normal names) .function routine (argumentsNormal names routine 0 arguments)

/-- What the text of an object is resolved to. -/
def Object.normal (names : Names) : Object → Object
  | .builtin which => .builtin which
  | .named index => .named (UInt32.ofNat (names.index (names.string index)))
  | .dynamic value => .dynamic (value.normal names none)

/-- What the text of the arguments of a routine from a position on is resolved to. -/
def argumentsNormal (names : Names) (routine : UInt16) (index : Nat) : List Operand → List Operand
  | [] => []
  | a :: as =>
    a.normal names (names.kind? routine index) :: argumentsNormal names routine (index + 1) as

end

/-- A string that is a dialogue label has an index that a number can hold. -/
def Names.Short (names : Names) (part : Option ArgumentKind × Operand) : Prop :=
  ∀ index, part = (some .dialogue, .string index) → names.index (names.string index) ≤ 2147483647

/-! ### The text of code can be read -/

theorem natAbs_toInt_le (value : Int32) : value.toInt.natAbs ≤ Source.maxInteger := by
  have low := value.le_toInt
  have high := value.toInt_lt
  rw [Source.maxInteger]
  omega

theorem toNat_toInt_le (value : Int32) : value.toInt.toNat ≤ 2147483647 := by
  have high := value.toInt_lt
  omega

section

variable {names : Names}

theorem isIdentifier_of_isDefinable {cs : List Char} (h : Name.isDefinable cs = true) :
    Name.isIdentifier cs = true := by
  simp only [Name.isDefinable, Bool.and_eq_true] at h
  exact h.1.1.1

theorem slot?_of_isDefinable {name : String} (h : Name.isDefinable name.toList = true) :
    Name.slot? name = none := by
  simp only [Name.isDefinable, String.ofList_toList, Bool.and_eq_true, Option.isNone_iff_eq_none] at h
  exact h.2

theorem ofName?_of_isDefinable {name : String} (h : Name.isDefinable name.toList = true) :
    Builtin.ofName? name = none := by
  simp only [Name.isDefinable, String.ofList_toList, Bool.and_eq_true, Option.isNone_iff_eq_none] at h
  exact h.1.2

theorem ne_reserved_of_isDefinable {name word : String} (h : Name.isDefinable name.toList = true)
    (reserved : word ∈ Name.reserved) : name ≠ word := by
  rintro rfl
  simp only [Name.isDefinable, String.ofList_toList, Bool.and_eq_true, Bool.not_eq_true',
    List.contains_eq_mem, decide_eq_false_iff_not] at h
  exact h.1.1.2 reserved

/-- What a number may be shown as can be spelled. -/
theorem Names.flexible_spelled (sound : names.catalog.Sound) (kind : Option ArgumentKind) (value : Int32) :
    (names.flexible kind value).Spelled := by
  have int : (Source.Operand.int value.toInt).Spelled := natAbs_toInt_le value
  have entry : ∀ t, (((names.entry? t value).map Source.Operand.bracket).getD
      (.int value.toInt)).Spelled := by
    intro t
    rw [Names.entry?]
    split
    · cases found : names.catalog.name? t value.toInt.toNat with
      | none => exact int
      | some name => exact isIdentifier_of_isDefinable (sound.definable found)
    · exact int
  match kind with
  | none => exact int
  | some .item => exact entry .items
  | some .map => exact entry .maps
  | some .dialogue =>
    rw [Names.flexible]
    cases names.label? value with
    | none => exact int
    | some text => trivial

theorem Names.flexible_readable (faithful : names.catalog.Faithful) (kind : Option ArgumentKind) (value : Int32) :
    (names.flexible kind value).Readable names.catalog := by
  have entry : ∀ t, t = .items ∨ t = .maps →
      (((names.entry? t value).map Source.Operand.bracket).getD
        (.int value.toInt)).Readable names.catalog := by
    intro t ht
    rw [Names.entry?]
    split
    · cases found : names.catalog.name? t value.toInt.toNat with
      | none => trivial
      | some name =>
        have small := toNat_toInt_le value
        obtain ⟨marker, known⟩ := faithful.bracketed? ht small found
        refine ⟨marker, _, known, ?_⟩
        rw [Source.maxInteger]
        omega
    · trivial
  cases kind with
  | none => trivial
  | some kind =>
    cases kind with
    | item => exact entry .items (.inl rfl)
    | map => exact entry .maps (.inr rfl)
    | dialogue =>
      rw [Names.flexible]
      cases names.label? value <;> trivial

mutual

/-- The names in the text of an operand are identifiers. -/
theorem Operand.toSource_spelled (sound : names.catalog.Sound) : ∀ (o : Operand) (kind : Option ArgumentKind),
    (o.toSource names kind).Spelled
  | .flag _, _ => isIdentifier_of_isDefinable (sound.printedName_definable .flag _)
  | .var _, _ => trivial
  | .field object _, _ =>
    ⟨object.toSource_spelled sound,
      isIdentifier_of_isDefinable (sound.printedName_definable .reference _)⟩
  | .literal value, _ => natAbs_toInt_le value
  | .flexible value, kind => Names.flexible_spelled sound kind value
  | .string _, _ => trivial
  | .call routine arguments, _ =>
    ⟨isIdentifier_of_isDefinable (sound.printedName_definable .routine _),
      argumentsToSource_spelled sound arguments routine 0⟩
  | .objectCall object _ routine arguments, _ =>
    ⟨object.toSource_spelled sound,
      isIdentifier_of_isDefinable (sound.printedName_definable .routine _),
      argumentsToSource_spelled sound arguments routine 0⟩

theorem Object.toSource_spelled (sound : names.catalog.Sound) :
    ∀ o : Object, (o.toSource names).Spelled
  | .builtin _ => trivial
  | .named _ => trivial
  | .dynamic value => value.toSource_spelled sound none

theorem argumentsToSource_spelled (sound : names.catalog.Sound) :
    ∀ (as : List Operand) (routine : UInt16) (index : Nat),
      Source.argumentsSpelled (argumentsToSource names routine index as)
  | [], _, _ => trivial
  | a :: as, routine, index =>
    ⟨a.toSource_spelled sound _, argumentsToSource_spelled sound as routine (index + 1)⟩

end

theorem Object.toSource_readable (sound : names.catalog.Sound) {o : Object} (textual : o.Textual) :
    (o.toSource names).Readable names.catalog := by
  match o, textual with
  | .builtin _, _ => trivial
  | .named _, _ => trivial
  | .dynamic (.flag ordinal), _ =>
    have definable := sound.printedName_definable .flag ordinal.toNat
    exact ⟨slot?_of_isDefinable definable, ofName?_of_isDefinable definable⟩
  | .dynamic (.var _), _ => trivial

mutual

/-- The text of an operand is not taken for another. -/
theorem Operand.toSource_readable (sound : names.catalog.Sound) (faithful : names.catalog.Faithful) :
    ∀ (o : Operand) (kind : Option ArgumentKind), o.Textual →
      (o.toSource names kind).Readable names.catalog
  | .flag _, _, _ => slot?_of_isDefinable (sound.printedName_definable .flag _)
  | .var _, _, _ => trivial
  | .field _ _, _, h => Object.toSource_readable sound h
  | .literal _, _, _ => trivial
  | .flexible value, kind, _ => Names.flexible_readable faithful kind value
  | .string _, _, _ => trivial
  | .call routine arguments, _, h => argumentsToSource_readable sound faithful arguments routine 0 h
  | .objectCall _ _ routine arguments, _, h =>
    ⟨beq_eq_false_iff_ne.mpr h.1, Object.toSource_readable sound h.2.1,
      argumentsToSource_readable sound faithful arguments routine 0 h.2.2⟩

theorem argumentsToSource_readable (sound : names.catalog.Sound) (faithful : names.catalog.Faithful) :
    ∀ (as : List Operand) (routine : UInt16) (index : Nat), argumentsTextual as →
      Source.argumentsReadable names.catalog (argumentsToSource names routine index as)
  | [], _, _, _ => trivial
  | a :: as, routine, index, h =>
    ⟨a.toSource_readable sound faithful _ h.1,
      argumentsToSource_readable sound faithful as routine (index + 1) h.2⟩

end

mutual

/-- The names in angle brackets that an operand is shown with are known. -/
theorem Operand.toSource_meant (faithful : names.catalog.Faithful) : ∀ (o : Operand) (kind : Option ArgumentKind),
    ∀ l ∈ (o.toSource names kind).lexemes, l.Meant names.catalog
  | .flag _, _ => by simp [Operand.toSource, Source.Operand.lexemes]
  | .var _, _ => by simp [Operand.toSource, Source.Operand.lexemes]
  | .field object _, _ => by
    rw [Operand.toSource, Source.Operand.lexemes, List.forall_mem_append]
    exact ⟨object.toSource_meant faithful, by simp⟩
  | .literal value, _ => Source.Operand.meant (.int value.toInt) trivial
  | .flexible value, kind => Source.Operand.meant _ (Names.flexible_readable faithful kind value)
  | .string _, _ => by simp [Operand.toSource, Source.Operand.lexemes]
  | .call routine arguments, _ => by
    simp only [Operand.toSource, Source.Operand.lexemes, List.forall_mem_cons, Source.Lexeme.meant_word,
      Source.Lexeme.meant_symbol, true_and]
    exact (argumentsToSource_meant faithful routine arguments 0).1
  | .objectCall object mode routine arguments, _ => by
    simp only [Operand.toSource, Source.Operand.lexemes, List.forall_mem_append, List.forall_mem_cons,
      Source.Lexeme.meant_word, Source.Lexeme.meant_symbol, true_and]
    refine ⟨⟨?_, object.toSource_meant faithful⟩, (argumentsToSource_meant faithful routine arguments 0).1⟩
    split <;> simp

theorem Object.toSource_meant (faithful : names.catalog.Faithful) :
    ∀ o : Object, ∀ l ∈ (o.toSource names).lexemes, l.Meant names.catalog
  | .builtin _ => by simp [Object.toSource, Source.Object.lexemes]
  | .named _ => by simp [Object.toSource, Source.Object.lexemes]
  | .dynamic value => by
    rw [Object.toSource, Source.Object.lexemes]
    exact value.toSource_meant faithful none

theorem argumentsToSource_meant (faithful : names.catalog.Faithful) (routine : UInt16) :
    ∀ (as : List Operand) (index : Nat),
      (∀ l ∈ Source.argumentLexemes (argumentsToSource names routine index as), l.Meant names.catalog) ∧
        ∀ l ∈ Source.furtherLexemes (argumentsToSource names routine index as), l.Meant names.catalog
  | [], _ => by simp [argumentsToSource, Source.argumentLexemes, Source.furtherLexemes]
  | a :: as, index => by
    have first := a.toSource_meant faithful (names.kind? routine index)
    have others := (argumentsToSource_meant faithful routine as (index + 1)).2
    simp only [argumentsToSource, Source.argumentLexemes, Source.furtherLexemes, Source.Expr.lexemes,
      List.forall_mem_append, List.forall_mem_cons, Source.Lexeme.meant_symbol, true_and]
    exact ⟨⟨first, others⟩, first, others⟩

end

/-! ### Resolving the names again -/

open Assembly

theorem wordOf_toInt (value : Int32) : Source.wordOf value.toInt = .ok value := by
  have low := value.le_toInt
  have high := value.toInt_lt
  rw [Source.wordOf, if_pos (by omega), Int32.ofInt_toInt]

theorem yields_number (kind : Option ArgumentKind) (value : Int32) (s : List String) :
    Yields (resolveNumber kind value.toInt) s (numberOf kind value) s :=
  yields_bind.mpr ⟨value, s, yields_lift.mpr ⟨wordOf_toInt value, rfl⟩, yields_pure.mpr ⟨rfl, rfl⟩⟩

/-- A string of the table has a first index in it. -/
theorem idxOf?_of_mem {text : String} (h : text ∈ names.strings) :
    ∃ i, names.strings.idxOf? text = some i ∧ i < names.strings.length ∧ names.strings[i]? = some text := by
  cases found : names.strings.idxOf? text with
  | none => exact absurd h (List.idxOf?_eq_none_iff.mp found)
  | some i =>
    obtain ⟨bound, same, -⟩ := List.idxOf?_eq_some_iff.mp found
    exact ⟨i, rfl, bound, by rw [List.getElem?_eq_getElem bound, same]⟩

theorem Names.index_spec {text : String} (h : text ∈ names.strings) :
    names.strings[names.index text]? = some text := by
  obtain ⟨i, found, -, same⟩ := idxOf?_of_mem h
  rw [Names.index, found]
  exact same

theorem Names.index_lt {text : String} (h : text ∈ names.strings) :
    names.index text < names.strings.length := by
  obtain ⟨i, found, bound, -⟩ := idxOf?_of_mem h
  rw [Names.index, found]
  exact bound

theorem Names.short_of_length (few : names.strings.length ≤ 2147483648)
    (part : Option ArgumentKind × Operand) : names.Short part := by
  intro index _
  by_cases mem : names.string index ∈ names.strings
  · have bound := Names.index_lt mem
    omega
  · rw [Names.index, List.idxOf?_eq_none_iff.mpr mem]
    exact Nat.zero_le _

theorem yields_intern {text : String} (h : text ∈ names.strings) :
    Yields (intern text) names.strings (names.index text) names.strings := by
  obtain ⟨i, found, -⟩ := idxOf?_of_mem h
  simp only [Yields, intern, found, Names.index]
  rfl

theorem Names.index_le {i : Nat} {text : String} (h : names.strings[i]? = some text) :
    names.index text ≤ i := by
  obtain ⟨j, found, -⟩ := idxOf?_of_mem (List.mem_of_getElem? h)
  obtain ⟨_, _, least⟩ := List.idxOf?_eq_some_iff.mp found
  obtain ⟨_, same⟩ := List.getElem?_eq_some_iff.mp h
  rw [Names.index, found, Option.getD_some, ← Nat.not_lt]
  exact fun before => least i before same

theorem yields_string {kind : Option ArgumentKind} {text : String} (h : text ∈ names.strings)
    (short : kind = some .dialogue → names.index text ≤ 2147483647) :
    Yields (resolveOperand names.catalog kind (.str text)) names.strings
      (names.stringOf kind text) names.strings := by
  rw [resolveOperand, Names.stringOf]
  refine yields_bind.mpr ⟨_, _, yields_intern h, ?_⟩
  by_cases dialogue : kind = some .dialogue
  · rw [if_pos dialogue, if_pos dialogue]
    refine yields_bind.mpr ⟨_, _, yields_lift.mpr ⟨?_, rfl⟩, yields_pure.mpr ⟨rfl, rfl⟩⟩
    have small := short dialogue
    rw [Source.wordOf, if_pos (by omega)]
  · rw [if_neg dialogue, if_neg dialogue]
    exact yields_pure.mpr ⟨rfl, rfl⟩

theorem Names.string_mem {index : UInt32} (h : index.toNat < names.strings.length) :
    names.string index ∈ names.strings := by
  rw [Names.string, List.getElem?_eq_getElem h]
  exact List.getElem_mem h

theorem Names.label?_eq_some {value : Int32} {text : String} (h : names.label? value = some text) :
    names.strings[value.toInt.toNat]? = some text := by
  rw [Names.label?] at h
  split at h
  · exact h
  · cases h

theorem yields_resolve (faithful : names.catalog.Faithful) (k : NameClass) {n : Nat} (h : n ≤ k.most)
    (s : List String) :
    Yields (liftM (names.catalog.resolve k (names.catalog.printedName k n)) : Resolve Nat) s n s :=
  yields_lift.mpr ⟨faithful.resolve_printedName k n h, rfl⟩

theorem yields_routine (faithful : names.catalog.Faithful) {routine : UInt16} {count : Nat}
    (fits : CallFits routine count) (s : List String) :
    Yields (resolveRoutine names.catalog (names.catalog.printedName .routine routine.toNat) count) s routine s := by
  have small : routine.toNat ≤ NameClass.routine.most := by
    have := routine.toNat_lt
    rw [NameClass.most]
    omega
  refine yields_bind.mpr ⟨_, _, yields_resolve faithful .routine small s, ?_⟩
  by_cases zero : routine = 0
  · subst zero
    rw [if_pos UInt16.toNat_zero, if_pos (fits.1 rfl)]
    exact yields_pure.mpr ⟨rfl, rfl⟩
  · have nonzero : routine.toNat ≠ 0 := fun h => zero (UInt16.toNat_inj.mp h)
    have back : UInt16.ofNat routine.toNat = routine := UInt16.ofNat_toNat
    rw [if_neg nonzero, if_pos fits.2, back]
    cases names.catalog.routine? routine.toNat with
    | none => exact yields_pure.mpr ⟨rfl, rfl⟩
    | some r =>
      dsimp only
      split
      · exact yields_pure.mpr ⟨rfl, rfl⟩
      · exact yields_bind.mpr ⟨(), s, rfl, yields_pure.mpr ⟨rfl, rfl⟩⟩

theorem length_argumentsToSource (routine : UInt16) (as : List Operand) :
    ∀ index, (argumentsToSource names routine index as).length = as.length := by
  induction as with
  | nil => exact fun _ => rfl
  | cons a as ih =>
    intro index
    rw [argumentsToSource, List.length_cons, List.length_cons, ih]

theorem flag_le (ordinal : UInt16) : ordinal.toNat ≤ NameClass.flag.most := by
  have := ordinal.toNat_lt
  rw [NameClass.most]
  omega

theorem reference_le (reference : UInt8) : reference.toNat ≤ NameClass.reference.most := by
  have := reference.toNat_lt
  rw [NameClass.most]
  omega

theorem toNat_toInt_of_nonneg {value : Int32} (h : 0 ≤ value) : (value.toInt.toNat : Int) = value.toInt := by
  have nonneg : 0 ≤ value.toInt := Int32.le_iff_toInt_le.mp h
  omega

/-- The text of a number is resolved to the number. -/
theorem yields_flexible (faithful : names.catalog.Faithful) (kind : Option ArgumentKind) (value : Int32) :
    Yields (resolveOperand names.catalog kind ((names.flexible kind value).plain names.catalog))
      names.strings ((Operand.flexible value).normal names kind) names.strings := by
  have int : Yields (resolveOperand names.catalog kind (.int value.toInt)) names.strings
      (numberOf kind value) names.strings := by
    rw [resolveOperand]
    exact yields_number kind value names.strings
  have entry : ∀ t, t = .items ∨ t = .maps →
      Yields (resolveOperand names.catalog kind ((((names.entry? t value).map
        Source.Operand.bracket).getD (.int value.toInt)).plain names.catalog)) names.strings
        (numberOf kind value) names.strings := by
    intro t ht
    rw [Names.entry?]
    split
    · next nonneg =>
      cases found : names.catalog.name? t value.toInt.toNat with
      | none => exact int
      | some name =>
        obtain ⟨-, known⟩ := faithful.bracketed? ht (toNat_toInt_le value) found
        simp only [Option.map_some, Option.getD_some, Source.Operand.plain, known,
          toNat_toInt_of_nonneg nonneg]
        exact int
    · exact int
  rcases kind with _ | kind
  · simpa only [Names.flexible, Operand.normal, Source.Operand.plain] using int
  cases kind with
  | item => simpa only [Names.flexible, Operand.normal] using entry .items (.inl rfl)
  | map => simpa only [Names.flexible, Operand.normal] using entry .maps (.inr rfl)
  | dialogue =>
    simp only [Names.flexible, Operand.normal]
    cases found : names.label? value with
    | none => exact int
    | some text =>
      have same := Names.label?_eq_some found
      refine yields_string (List.mem_of_getElem? same) fun _ => ?_
      exact Nat.le_trans (Names.index_le same) (toNat_toInt_le value)

mutual

/-- The text of an operand is resolved to its normal form, and no string is added. -/
theorem Operand.yields_normal (faithful : names.catalog.Faithful) :
    ∀ (o : Operand) (kind : Option ArgumentKind), o.Fits names.strings.length →
      (∀ part ∈ o.parts names kind, names.Short part) →
      Yields (resolveOperand names.catalog kind ((o.toSource names kind).plain names.catalog))
        names.strings (o.normal names kind) names.strings
  | .flag ordinal, kind, _, _ => by
    rw [Operand.toSource, Source.Operand.plain, resolveOperand, Operand.normal]
    refine yields_bind.mpr ⟨_, _, yields_resolve faithful .flag (flag_le ordinal) _, ?_⟩
    rw [UInt16.ofNat_toNat]
    exact yields_pure.mpr ⟨rfl, rfl⟩
  | .var slot, kind, _, _ => by
    rw [Operand.toSource, Source.Operand.plain, resolveOperand, Operand.normal]
    exact yields_pure.mpr ⟨rfl, rfl⟩
  | .field object reference, kind, h, short => by
    rw [Operand.toSource, Source.Operand.plain, resolveOperand, Operand.normal]
    refine yields_bind.mpr ⟨_, _, object.yields_normal faithful h (List.forall_mem_cons.mp short).2, ?_⟩
    refine yields_bind.mpr ⟨_, _, yields_resolve faithful .reference (reference_le reference) _, ?_⟩
    rw [UInt8.ofNat_toNat]
    exact yields_pure.mpr ⟨rfl, rfl⟩
  | .literal value, kind, _, _ => by
    rw [Operand.toSource, Source.Operand.plain, resolveOperand, Operand.normal]
    exact yields_number kind value _
  | .flexible value, kind, _, _ => yields_flexible faithful kind value
  | .string index, kind, h, short => by
    rw [Operand.toSource, Source.Operand.plain, Operand.normal]
    exact yields_string (Names.string_mem h) fun e => short _ (List.mem_singleton_self _) index (by rw [e])
  | .call routine arguments, kind, h, short => by
    rw [Operand.toSource, Source.Operand.plain, resolveOperand, Operand.normal]
    refine yields_bind.mpr ⟨_, _, yields_routine faithful ?_ _, ?_⟩
    · rw [Source.length_argumentsPlain, length_argumentsToSource]
      exact h.1
    · exact yields_bind.mpr ⟨_, _, argumentsNormal_yields faithful routine arguments 0 h.2
        (List.forall_mem_cons.mp short).2,
        yields_pure.mpr ⟨rfl, rfl⟩⟩
  | .objectCall object mode routine arguments, kind, h, short => by
    have inner := List.forall_mem_append.mp (List.forall_mem_cons.mp short).2
    rw [Operand.toSource, Source.Operand.plain, resolveOperand, Operand.normal]
    refine yields_bind.mpr ⟨_, _, object.yields_normal faithful h.1 inner.1, ?_⟩
    refine yields_bind.mpr ⟨_, _, yields_routine faithful ?_ _, ?_⟩
    · rw [Source.length_argumentsPlain, length_argumentsToSource]
      exact h.2.1
    · exact yields_bind.mpr ⟨_, _, argumentsNormal_yields faithful routine arguments 0 h.2.2 inner.2,
        yields_pure.mpr ⟨rfl, rfl⟩⟩

/-- The text of an object is resolved to its normal form, and no string is added. -/
theorem Object.yields_normal (faithful : names.catalog.Faithful) :
    ∀ o : Object, o.Fits names.strings.length → (∀ part ∈ o.parts names, names.Short part) →
      Yields (resolveObject names.catalog ((o.toSource names).plain names.catalog)) names.strings
        (o.normal names) names.strings
  | .builtin which, _, _ => by
    rw [Object.toSource, Source.Object.plain, resolveObject, Object.normal]
    exact yields_pure.mpr ⟨rfl, rfl⟩
  | .named index, h, _ => by
    rw [Object.toSource, Source.Object.plain, resolveObject, Object.normal]
    exact yields_bind.mpr ⟨_, _, yields_intern (Names.string_mem h), yields_pure.mpr ⟨rfl, rfl⟩⟩
  | .dynamic value, h, short => by
    rw [Object.toSource, Source.Object.plain, resolveObject, Object.normal]
    exact yields_bind.mpr ⟨_, _, value.yields_normal faithful none h short, yields_pure.mpr ⟨rfl, rfl⟩⟩

/-- The text of arguments is resolved to their normal form, and no string is added. -/
theorem argumentsNormal_yields (faithful : names.catalog.Faithful) (routine : UInt16) :
    ∀ (as : List Operand) (index : Nat), argumentsFit names.strings.length as →
      (∀ part ∈ argumentParts names routine index as, names.Short part) →
      Yields (resolveArguments names.catalog (names.catalog.printedName .routine routine.toNat) index
        (Source.argumentsPlain names.catalog (argumentsToSource names routine index as)))
        names.strings (argumentsNormal names routine index as) names.strings
  | [], index, _, _ => by
    rw [argumentsToSource, Source.argumentsPlain, resolveArguments, argumentsNormal]
    exact yields_pure.mpr ⟨rfl, rfl⟩
  | a :: as, index, h, short => by
    have inner := List.forall_mem_append.mp short
    have kind : ArgumentKind.of? (names.catalog.printedName .routine routine.toNat) index =
        names.kind? routine index := names.catalog.of?_printedName routine.toNat index
    rw [argumentsToSource, Source.argumentsPlain, resolveArguments, argumentsNormal,
      Source.Expr.plain, resolveArgument, kind]
    exact yields_bind.mpr ⟨_, _, a.yields_normal faithful _ h.1 inner.1, yields_bind.mpr
      ⟨_, _, argumentsNormal_yields faithful routine as (index + 1) h.2 inner.2, yields_pure.mpr ⟨rfl, rfl⟩⟩⟩

end

end

end EventScript.Code
