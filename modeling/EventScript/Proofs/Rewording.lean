import EventScript.Proofs.BodyLines

/-!
# Lines of a normal form

The line that a listing shows for the normal form of a statement is the line for the statement exactly if
its operands are `Steady`: no number becomes a name or a label, and no label that becomes an argument has a
dialogue text (`Action.line_eq_iff`, `Guard.line_eq_iff`). Otherwise the line gets more brackets or quotation
marks, or a longer remark.
-/

namespace EventScript.Code

/-- A number of the code is still shown as a number after it has been assembled again. -/
def Names.SteadyNumber (names : Names) : Option ArgumentKind × Operand → Prop
  | (kind, .literal value) => names.flexible kind value = .int value.toInt
  | _ => True

/-- A string of the code is still shown without a remark after it has been assembled again. -/
def Names.SteadyString (names : Names) : Option ArgumentKind × Operand → Prop
  | (kind, .string index) =>
    kind = some .dialogue → names.catalog.dialogueText? (names.string index) = none
  | _ => True

/-- A listing shows the operand in the same way after it has been assembled again. -/
def Names.Steady (names : Names) (part : Option ArgumentKind × Operand) : Prop :=
  names.SteadyNumber part ∧ names.SteadyString part

/-- The number of opening brackets and quotation marks in a text. -/
def delimiters (text : String) : Nat := text.toList.countP fun c => c == '<' || c == '"'

/-- A remark after a statement. -/
def remarkText (remarks : List String) : String :=
  match remarkOf remarks with
  | some remark => " // " ++ remark
  | none => ""

/-! ### Counting -/

@[simp] theorem delimiters_append (a b : String) : delimiters (a ++ b) = delimiters a + delimiters b := by
  rw [delimiters, String.toList_append, List.countP_append, delimiters, delimiters]

theorem delimiters_signedDecimal (value : Int) : delimiters (Text.signedDecimal value) = 0 := by
  have digits : delimiters (Text.decimal value.natAbs) = 0 := by
    rw [delimiters, Text.toList_decimal, List.countP_eq_zero]
    intro c mem delimiter
    have digit := Text.isDigit_of_mem_toDigits mem
    rw [Bool.or_eq_true, beq_iff_eq, beq_iff_eq] at delimiter
    rcases delimiter with rfl | rfl <;> exact absurd digit (by decide)
  rw [Text.signedDecimal]
  split
  · rw [delimiters_append, digits]
    decide
  · exact digits

theorem delimiters_quote_pos (text : String) : 0 < delimiters (Source.quote text) := by
  rw [delimiters, Source.quote, String.toList_ofList, List.countP_pos_iff]
  exact ⟨'"', List.mem_cons_self .., by decide⟩

theorem delimiters_bracket_pos (name : String) : 0 < delimiters ("<" ++ name ++ ">") := by
  have bracket : delimiters "<" = 1 := by decide
  rw [delimiters_append, delimiters_append, bracket]
  omega

theorem sumBy_le_of_sublist {α : Type} (f : α → Nat) {xs ys : List α} (h : xs.Sublist ys) :
    sumBy f xs ≤ sumBy f ys := by
  induction h with
  | slnil => exact Nat.le_refl _
  | cons y _ ih =>
    rw [sumBy]
    omega
  | cons_cons x _ ih =>
    rw [sumBy, sumBy]
    omega

theorem delimiters_intercalate : ∀ xs : List String,
    delimiters (" | ".intercalate xs) = sumBy delimiters xs
  | [] => by decide
  | [x] => by
    rw [String.intercalate_singleton]
    rfl
  | x :: y :: xs => by
    have bar : delimiters " | " = 0 := by decide
    rw [String.intercalate_cons_cons, delimiters_append, delimiters_append, bar,
      delimiters_intercalate (y :: xs), Nat.add_zero]
    rfl

theorem delimiters_remarkText (xs : List String) : delimiters (remarkText xs) = sumBy delimiters xs := by
  have slashes : delimiters " // " = 0 := by decide
  cases xs with
  | nil => decide
  | cons x xs =>
    rw [← delimiters_intercalate, ← Nat.zero_add (delimiters (" | ".intercalate (x :: xs))), ← slashes,
      ← delimiters_append]
    rfl

theorem length_intercalate : ∀ (x : String) (xs : List String),
    (" | ".intercalate (x :: xs)).length + 3 = sumBy (fun y => y.length + 3) (x :: xs)
  | x, [] => by
    rw [String.intercalate_singleton]
    rfl
  | x, y :: xs => by
    have bar : " | ".length = 3 := by decide
    have rest := length_intercalate y xs
    rw [String.intercalate_cons_cons, String.length_append, String.length_append, bar, sumBy, ← rest]
    omega

/-- A longer list of remarks gives a longer text. -/
theorem length_eq_of_remarkText_eq {xs ys : List String} (h : xs.Sublist ys)
    (same : remarkText xs = remarkText ys) : xs.length = ys.length := by
  have lengths := congrArg String.length same
  have slashes : " // ".length = 4 := by decide
  have size : ∀ (x : String) (xs : List String),
      (remarkText (x :: xs)).length = 4 + (" | ".intercalate (x :: xs)).length := by
    intro x xs
    rw [← slashes, ← String.length_append]
    rfl
  cases ys with
  | nil => rw [List.sublist_nil.mp h]
  | cons y ys =>
    cases xs with
    | nil =>
      have none_ : (remarkText []).length = 0 := by decide
      rw [size, none_] at lengths
      omega
    | cons x xs =>
      rw [size, size] at lengths
      have left := length_intercalate x xs
      have right := length_intercalate y ys
      have count : ∀ zs : List String,
          sumBy (fun z => z.length + 3) zs = sumBy (fun z => z.length + 2) zs + zs.length := by
        intro zs
        induction zs with
        | nil => rfl
        | cons z zs ih =>
          rw [sumBy, sumBy, ih, List.length_cons]
          omega
      have texts := sumBy_le_of_sublist (fun z : String => z.length + 2) h
      have numbers := h.length_le
      rw [count] at left right
      omega

/-! ### Text and remarks that may only grow -/

/-- The text `x` with remarks `xs` becomes the text `y` with remarks `ys`: nothing changes if the parts are
steady, and otherwise there are more delimiters or more remarks. -/
structure Reworded (names : Names) (x y : String) (xs ys : List String)
    (parts : List (Option ArgumentKind × Operand)) : Prop where
  text : (∀ part ∈ parts, names.SteadyNumber part) → x = y
  remark : (∀ part ∈ parts, names.Steady part) → xs = ys
  delimiters : delimiters x ≤ delimiters y
  remarks : xs.Sublist ys
  number : Code.delimiters x = Code.delimiters y → ∀ part ∈ parts, names.SteadyNumber part
  string : xs.length = ys.length → ∀ part ∈ parts, names.SteadyString part

section

variable {names : Names} {x y x' y' : String} {xs ys xs' ys' : List String}
  {parts parts' : List (Option ArgumentKind × Operand)}

theorem Reworded.refl (names : Names) (x : String) (xs : List String) : Reworded names x x xs xs [] :=
  ⟨fun _ => rfl, fun _ => rfl, Nat.le_refl _, List.Sublist.refl _, by rintro - part ⟨⟩, by rintro - part ⟨⟩⟩

theorem Reworded.append (h : Reworded names x y xs ys parts) (h' : Reworded names x' y' xs' ys' parts') :
    Reworded names (x ++ x') (y ++ y') (xs ++ xs') (ys ++ ys') (parts ++ parts') := by
  have less := h.delimiters
  have less' := h'.delimiters
  have fewer := h.remarks.length_le
  have fewer' := h'.remarks.length_le
  refine ⟨?_, ?_, ?_, h.remarks.append h'.remarks, ?_, ?_⟩
  · intro steady
    obtain ⟨first, rest⟩ := List.forall_mem_append.mp steady
    rw [h.text first, h'.text rest]
  · intro steady
    obtain ⟨first, rest⟩ := List.forall_mem_append.mp steady
    rw [h.remark first, h'.remark rest]
  · rw [delimiters_append, delimiters_append]
    omega
  · intro equal
    rw [delimiters_append, delimiters_append] at equal
    exact List.forall_mem_append.mpr ⟨h.number (by omega), h'.number (by omega)⟩
  · intro equal
    rw [List.length_append, List.length_append] at equal
    exact List.forall_mem_append.mpr ⟨h.string (by omega), h'.string (by omega)⟩

theorem Reworded.between (h : Reworded names x y xs ys parts) (a b : String) :
    Reworded names (a ++ x ++ b) (a ++ y ++ b) xs ys parts := by
  have all := ((Reworded.refl names a []).append h).append (Reworded.refl names b [])
  simpa only [List.nil_append, List.append_nil] using all

theorem Reworded.cons (h : Reworded names x y xs ys parts) {part : Option ArgumentKind × Operand}
    (steady : names.Steady part) : Reworded names x y xs ys (part :: parts) :=
  ⟨fun all => h.text (List.forall_mem_cons.mp all).2, fun all => h.remark (List.forall_mem_cons.mp all).2,
    h.delimiters, h.remarks, fun equal => List.forall_mem_cons.mpr ⟨steady.1, h.number equal⟩,
    fun equal => List.forall_mem_cons.mpr ⟨steady.2, h.string equal⟩⟩

theorem reworded_steady {part : Option ArgumentKind × Operand} (steady : names.Steady part) (x : String)
    (xs : List String) : Reworded names x x xs xs [part] :=
  (Reworded.refl names x xs).cons steady

/-- The two lines are equal exactly if the parts are steady. -/
theorem Reworded.line_eq_iff (h : Reworded names x y xs ys parts) (front : String) :
    front ++ x ++ remarkText xs = front ++ y ++ remarkText ys ↔ ∀ part ∈ parts, names.Steady part := by
  constructor
  · intro equal
    have counts := congrArg Code.delimiters equal
    simp only [delimiters_append, delimiters_remarkText] at counts
    have less := h.delimiters
    have fewer := sumBy_le_of_sublist Code.delimiters h.remarks
    have number := h.number (by omega)
    -- With steady numbers the texts are equal, and so are the remarks.
    rw [h.text number] at equal
    have string := h.string (length_eq_of_remarkText_eq h.remarks ((String.append_right_inj _).mp equal))
    exact fun part mem => ⟨number part mem, string part mem⟩
  · intro steady
    rw [h.text fun part mem => (steady part mem).1, h.remark steady]

end

/-! ### Operands -/

section

variable {names : Names}

theorem Names.string_index {text : String} (h : text ∈ names.strings) (small : names.index text < 4294967296) :
    names.string (UInt32.ofNat (names.index text)) = text := by
  rw [Names.string, UInt32.toNat_ofNat', Nat.mod_eq_of_lt small, Names.index_spec h]
  rfl

theorem Names.label?_index {text : String} (h : text ∈ names.strings) (short : names.index text ≤ 2147483647) :
    names.label? (Int32.ofInt (names.index text)) = some text := by
  have value : (Int32.ofInt (names.index text)).toInt = names.index text :=
    Int32.toInt_ofInt_of_le (by omega) (by omega)
  have nonneg : 0 ≤ Int32.ofInt (names.index text) := by
    rw [Int32.le_iff_toInt_le, value]
    exact Int.natCast_nonneg _
  rw [Names.label?, if_pos nonneg, value, Int.toNat_natCast, Names.index_spec h]

/-- The string of an index is shown again, and has a smaller index. -/
theorem Names.string_index_string {index : UInt32} (h : index.toNat < names.strings.length) :
    names.string (UInt32.ofNat (names.index (names.string index))) = names.string index := by
  have found : names.strings[index.toNat]? = some (names.string index) := by
    rw [Names.string, List.getElem?_eq_getElem h]
    rfl
  have bound := index.toNat_lt
  have le := Names.index_le found
  exact Names.string_index (Names.string_mem h) (by omega)

theorem flexible_eq_int_or (kind : Option ArgumentKind) (value : Int32) :
    names.flexible kind value = .int value.toInt ∨ 0 < delimiters (names.flexible kind value).print := by
  have entry : ∀ t, ((names.entry? t value).map Source.Operand.bracket).getD (.int value.toInt) = .int value.toInt ∨
      0 < delimiters (((names.entry? t value).map Source.Operand.bracket).getD (.int value.toInt)).print := by
    intro t
    cases names.entry? t value with
    | none => exact .inl rfl
    | some name => exact .inr (delimiters_bracket_pos name)
  match kind with
  | none => exact .inl rfl
  | some .item => exact entry .items
  | some .map => exact entry .maps
  | some .dialogue =>
    rw [Names.flexible]
    cases names.label? value with
    | none => exact .inl rfl
    | some text => exact .inr (delimiters_quote_pos text)

theorem remark?_of_steady {kind : Option ArgumentKind} {value : Int32}
    (h : names.flexible kind value = .int value.toInt) : names.remark? kind value = none := by
  rw [Names.remark?]
  split
  · next dialogue =>
    rw [dialogue, Names.flexible] at h
    cases found : names.label? value with
    | none => rfl
    | some text =>
      rw [found] at h
      cases h
  · rfl

/-- A number of the code may become a name or a label. -/
theorem reworded_literal (kind : Option ArgumentKind) (value : Int32) :
    Reworded names ((Operand.literal value).toSource names kind).print
      (((Operand.literal value).normal names kind).toSource names kind).print
      ((Operand.literal value).remarks names kind) (((Operand.literal value).normal names kind).remarks names kind)
      ((Operand.literal value).parts names kind) := by
  cases kind with
  | none =>
    have steady : names.Steady (none, .literal value) := ⟨rfl, trivial⟩
    exact reworded_steady steady _ _
  | some kind =>
    have plain := delimiters_signedDecimal value.toInt
    have shown : names.flexible (some kind) value = .int value.toInt ∨
        0 < delimiters (names.flexible (some kind) value).print := flexible_eq_int_or (some kind) value
    refine ⟨?_, ?_, ?_, List.nil_sublist _, ?_, fun _ => List.forall_mem_singleton.mpr trivial⟩
    · intro steady
      have same : names.flexible (some kind) value = .int value.toInt := steady _ (List.mem_singleton_self _)
      exact congrArg Source.Operand.print same.symm
    · intro steady
      have same : names.flexible (some kind) value = .int value.toInt := (steady _ (List.mem_singleton_self _)).1
      have none_ := remark?_of_steady same
      show [] = (names.remark? (some kind) value).toList
      rw [none_]
      rfl
    · show delimiters (Text.signedDecimal value.toInt) ≤ _
      omega
    · intro equal
      refine List.forall_mem_singleton.mpr ?_
      rcases shown with same | more
      · exact same
      · have zero : delimiters (names.flexible (some kind) value).print = 0 := equal.symm.trans plain
        omega

/-- A string may become an argument with a remark. -/
theorem reworded_string {kind : Option ArgumentKind} {index : UInt32} (fits : index.toNat < names.strings.length)
    (short : names.Short (kind, .string index)) :
    Reworded names ((Operand.string index).toSource names kind).print
      (((Operand.string index).normal names kind).toSource names kind).print
      ((Operand.string index).remarks names kind) (((Operand.string index).normal names kind).remarks names kind)
      ((Operand.string index).parts names kind) := by
  by_cases dialogue : kind = some .dialogue
  · subst dialogue
    have label := Names.label?_index (Names.string_mem fits) (short index rfl)
    have text : (names.flexible (some .dialogue) (Int32.ofInt (names.index (names.string index)))).print =
        Source.quote (names.string index) := by
      rw [Names.flexible, label]
      rfl
    have remark : names.remark? (some .dialogue) (Int32.ofInt (names.index (names.string index))) =
        names.catalog.dialogueText? (names.string index) := by
      rw [Names.remark?, if_pos rfl, label]
      rfl
    rw [Operand.normal, Names.stringOf, if_pos rfl, Operand.toSource, Operand.toSource, Operand.remarks,
      Operand.remarks, text, remark]
    refine ⟨fun _ => rfl, ?_, Nat.le_refl _, List.nil_sublist _, fun _ => List.forall_mem_singleton.mpr trivial, ?_⟩
    · intro steady
      have none_ := (steady _ (List.mem_singleton_self _)).2 rfl
      rw [none_]
      rfl
    · intro equal
      refine List.forall_mem_singleton.mpr fun _ => ?_
      cases found : names.catalog.dialogueText? (names.string index) with
      | none => rfl
      | some text =>
        rw [found] at equal
        cases equal
  · have text := Names.string_index_string fits
    rw [Operand.normal, Names.stringOf, if_neg dialogue, Operand.toSource, Operand.toSource, Operand.remarks,
      Operand.remarks, text]
    have steady : names.Steady (kind, .string index) := ⟨trivial, fun same => absurd same dialogue⟩
    exact reworded_steady steady _ _

/-- A number that is an argument stays what it is. -/
theorem reworded_flexible (kind : Option ArgumentKind) (value : Int32) :
    Reworded names ((Operand.flexible value).toSource names kind).print
      (((Operand.flexible value).normal names kind).toSource names kind).print
      ((Operand.flexible value).remarks names kind) (((Operand.flexible value).normal names kind).remarks names kind)
      ((Operand.flexible value).parts names kind) := by
  have steady : names.Steady (kind, .flexible value) := ⟨trivial, trivial⟩
  have number : Reworded names ((Operand.flexible value).toSource names kind).print
      ((numberOf kind value).toSource names kind).print ((Operand.flexible value).remarks names kind)
      ((numberOf kind value).remarks names kind) ((Operand.flexible value).parts names kind) := by
    cases kind with
    | none => exact reworded_steady steady _ _
    | some kind => exact reworded_steady steady _ _
  unfold Operand.normal
  split
  · next text found =>
    have place := Names.label?_eq_some found
    have small := Nat.le_trans (Names.index_le place) (toNat_toInt_le value)
    have label := Names.label?_index (List.mem_of_getElem? place) small
    rw [Names.stringOf, if_pos rfl]
    have same : names.flexible (some .dialogue) (Int32.ofInt (names.index text)) =
        names.flexible (some .dialogue) value := by
      rw [Names.flexible, Names.flexible, label, found, Option.map_some, Option.getD_some, Option.getD_some]
    have remark : names.remark? (some .dialogue) (Int32.ofInt (names.index text)) =
        names.remark? (some .dialogue) value := by
      rw [Names.remark?, Names.remark?, label, found]
    rw [Operand.toSource, Operand.toSource, Operand.remarks, Operand.remarks, same, remark]
    exact reworded_steady steady _ _
  · exact number

mutual

/-- The text of an operand becomes the text of its normal form. -/
theorem Operand.reworded : ∀ (o : Operand) (kind : Option ArgumentKind), o.Fits names.strings.length →
    o.Textual → (∀ part ∈ o.parts names kind, names.Short part) →
    Reworded names (o.toSource names kind).print ((o.normal names kind).toSource names kind).print
      (o.remarks names kind) ((o.normal names kind).remarks names kind) (o.parts names kind)
  | .flag ordinal, kind, _, _, _ => by
    have steady : names.Steady (kind, .flag ordinal) := ⟨trivial, trivial⟩
    rw [Operand.normal]
    exact reworded_steady steady _ _
  | .var slot, kind, _, _, _ => by
    have steady : names.Steady (kind, .var slot) := ⟨trivial, trivial⟩
    rw [Operand.normal]
    exact reworded_steady steady _ _
  | .field object reference, kind, h, textual, short => by
    have inner := object.reworded h textual (List.forall_mem_cons.mp short).2
    have all := inner.between "" ("." ++ names.catalog.printedName .reference reference.toNat)
    rw [String.empty_append, String.empty_append, ← String.append_assoc, ← String.append_assoc] at all
    have steady : names.Steady (kind, .field object reference) := ⟨trivial, trivial⟩
    rw [Operand.normal]
    exact all.cons steady
  | .literal value, kind, _, _, _ => reworded_literal kind value
  | .flexible value, kind, _, _, _ => reworded_flexible kind value
  | .string index, kind, h, _, short => reworded_string h (short _ (List.mem_singleton_self _))
  | .call routine arguments, kind, h, textual, short => by
    have inner := (arguments_reworded routine arguments 0 h.2 textual (List.forall_mem_cons.mp short).2).1
    have all := inner.between (names.catalog.printedName .routine routine.toNat ++ "(") ")"
    have steady : names.Steady (kind, .call routine arguments) := ⟨trivial, trivial⟩
    rw [Operand.normal]
    exact all.cons steady
  | .objectCall object mode routine arguments, kind, h, textual, short => by
    obtain ⟨first, rest⟩ := List.forall_mem_append.mp (List.forall_mem_cons.mp short).2
    have start := object.reworded h.1 textual.2.1 first
    have inner := (arguments_reworded routine arguments 0 h.2.2 textual.2.2 rest).1
    have all := start.append (inner.between ("." ++ names.catalog.printedName .routine routine.toNat ++ "(") ")")
    have steady : names.Steady (kind, .objectCall object mode routine arguments) := ⟨trivial, trivial⟩
    have quiet : (mode == CallMode.async) = false := beq_eq_false_iff_ne.mpr textual.1
    have function : (CallMode.function == CallMode.async) = false := rfl
    simp only [← String.append_assoc] at all
    rw [Operand.normal, Operand.toSource, Operand.toSource, Source.Operand.print, Source.Operand.print, quiet,
      function, if_neg Bool.false_ne_true, String.empty_append, String.empty_append]
    exact all.cons steady

theorem Object.reworded : ∀ o : Object, o.Fits names.strings.length → o.Textual →
    (∀ part ∈ o.parts names, names.Short part) →
    Reworded names (o.toSource names).print ((o.normal names).toSource names).print (o.remarks names)
      ((o.normal names).remarks names) (o.parts names)
  | .builtin _, _, _, _ => .refl _ _ _
  | .named index, h, _, _ => by
    rw [Object.normal, Object.toSource, Object.toSource, Names.string_index_string h]
    exact .refl _ _ _
  | .dynamic value, h, textual, short => by
    refine value.reworded none h ?_ short
    cases value <;> trivial

theorem arguments_reworded (routine : UInt16) : ∀ (as : List Operand) (index : Nat),
    argumentsFit names.strings.length as → argumentsTextual as →
    (∀ part ∈ argumentParts names routine index as, names.Short part) →
    Reworded names (Source.printArguments (argumentsToSource names routine index as))
      (Source.printArguments (argumentsToSource names routine index (argumentsNormal names routine index as)))
      (argumentRemarks names routine index as)
      (argumentRemarks names routine index (argumentsNormal names routine index as))
      (argumentParts names routine index as) ∧
    Reworded names (Source.printFurther (argumentsToSource names routine index as))
      (Source.printFurther (argumentsToSource names routine index (argumentsNormal names routine index as)))
      (argumentRemarks names routine index as)
      (argumentRemarks names routine index (argumentsNormal names routine index as))
      (argumentParts names routine index as)
  | [], _, _, _, _ => ⟨.refl _ _ _, .refl _ _ _⟩
  | a :: as, index, h, textual, short => by
    obtain ⟨first, rest⟩ := List.forall_mem_append.mp short
    have here := a.reworded (names.kind? routine index) h.1 textual.1 first
    have later := (arguments_reworded routine as (index + 1) h.2 textual.2 rest).2
    have between := here.between ", " ""
    rw [String.append_empty, String.append_empty] at between
    rw [argumentsNormal]
    exact ⟨here.append later, between.append later⟩

end

/-! ### Statements -/

theorem Formula.reworded : ∀ f : Formula, f.Fits names.strings.length → f.Textual →
    (∀ part ∈ f.parts names, names.Short part) →
    Reworded names (f.toSource names).print ((f.normal names).toSource names).print (f.remarks names)
      ((f.normal names).remarks names) (f.parts names)
  | .last operand, h, textual, short => operand.reworded none h textual short
  | .more operand operator rest, h, textual, short => by
    obtain ⟨first, more⟩ := List.forall_mem_append.mp short
    have here := (operand.reworded none h.1 textual.1 first).between "" (" " ++ operator.text ++ " ")
    rw [String.empty_append, String.empty_append] at here
    have all := here.append (rest.reworded h.2 textual.2 more)
    simp only [← String.append_assoc] at all
    exact all

theorem Comparison.reworded (c : Comparison) (h : c.Fits names.strings.length) (textual : c.Textual)
    (short : ∀ part ∈ c.parts names, names.Short part) :
    Reworded names (c.text names) ((c.normal names).text names) (c.remarks names)
      ((c.normal names).remarks names) (c.parts names) := by
  obtain ⟨left, right⟩ := List.forall_mem_append.mp short
  have here := (c.left.reworded h.1 textual.1 left).between "" (" " ++ c.comparator.text ++ " ")
  rw [String.empty_append, String.empty_append] at here
  have all := here.append (c.right.reworded h.2 textual.2 right)
  simp only [← String.append_assoc] at all
  exact all

theorem Condition.reworded : ∀ c : Condition, c.Fits names.strings.length → c.Textual →
    (∀ part ∈ c.parts names, names.Short part) →
    Reworded names (c.text names) ((c.normal names).text names) (c.remarks names)
      ((c.normal names).remarks names) (c.parts names)
  | .last comparison, h, textual, short => comparison.reworded h textual short
  | .more comparison conjunction rest, h, textual, short => by
    obtain ⟨first, more⟩ := List.forall_mem_append.mp short
    have here := (comparison.reworded h.1 textual.1 first).between "" (" " ++ conjunction.text ++ " ")
    rw [String.empty_append, String.empty_append] at here
    have all := here.append (rest.reworded h.2 textual.2 more)
    simp only [← String.append_assoc] at all
    exact all

theorem Guard.reworded (g : Guard) (h : g.Fits names.strings.length) (textual : g.Textual)
    (short : ∀ part ∈ g.parts names, names.Short part) :
    Reworded names (g.text names) ((g.normal names).text names) (g.remarks names)
      ((g.normal names).remarks names) (g.parts names) := by
  cases g with
  | condition c =>
    have all := (c.reworded h textual short).between "if " ""
    rw [String.append_empty, String.append_empty] at all
    exact all
  | result value => exact .refl _ _ _

theorem Action.reworded (a : Action) (h : a.Fits names.strings.length) (textual : a.Textual)
    (short : ∀ part ∈ a.parts names, names.Short part) :
    Reworded names (a.text names) ((a.normal names).text names) (a.remarks names)
      ((a.normal names).remarks names) (a.parts names) := by
  cases a with
  | call mode routine arguments =>
    have inner := (arguments_reworded routine arguments 0 h.2 textual short).1
    have all := inner.between (callWord mode ++ (names.catalog.printedName .routine routine.toNat ++ "(")) ")"
    simp only [String.append_assoc] at all
    rw [Action.normal, Action.text, Action.text, Operand.toSource, Operand.toSource, Source.Operand.print,
      Source.Operand.print]
    simp only [String.append_assoc]
    exact all
  | objectCall object mode routine arguments =>
    obtain ⟨first, rest⟩ := List.forall_mem_append.mp short
    have start := (object.reworded h.1 textual.1 first).between (callWord mode) ""
    have inner := (arguments_reworded routine arguments 0 h.2.2 textual.2 rest).1
    have all := start.append (inner.between ("." ++ names.catalog.printedName .routine routine.toNat ++ "(") ")")
    have function : (CallMode.function == CallMode.async) = false := rfl
    simp only [String.append_empty, String.append_assoc] at all
    rw [Action.normal, Action.text, Action.text, Operand.toSource, Operand.toSource, Source.Operand.print,
      Source.Operand.print, function, if_neg Bool.false_ne_true, String.empty_append, String.empty_append]
    simp only [String.append_assoc]
    exact all
  | assign place formula =>
    obtain ⟨left, right⟩ := List.forall_mem_append.mp short
    have here := (place.operand.reworded none h.1 textual.1 left).between "" " = "
    rw [String.empty_append, String.empty_append] at here
    have all := here.append (formula.reworded h.2 textual.2 right)
    rw [← Place.operand_normal] at all
    exact all
  | _ => exact .refl _ _ _

/-- The line for a statement is that for its normal form exactly if its operands are steady. -/
theorem Action.line_eq_iff (a : Action) (h : a.Fits names.strings.length) (textual : a.Textual)
    (short : ∀ part ∈ a.parts names, names.Short part) (labels : List UInt32) (indent address : Nat) :
    ((a.normal names).instruction names labels indent address).lines =
      (a.instruction names labels indent address).lines ↔ ∀ part ∈ a.parts names, names.Steady part := by
  rw [← (a.reworded h textual short).line_eq_iff (margin indent), eq_comm]
  exact (List.append_right_inj _).trans List.singleton_inj

theorem Guard.line_eq_iff (g : Guard) (h : g.Fits names.strings.length) (textual : g.Textual)
    (short : ∀ part ∈ g.parts names, names.Short part) (labels : List UInt32) (indent address : Nat) :
    ((g.normal names).instruction names labels indent address).lines =
      (g.instruction names labels indent address).lines ↔ ∀ part ∈ g.parts names, names.Steady part := by
  rw [← (g.reworded h textual short).line_eq_iff (margin indent), eq_comm]
  exact (List.append_right_inj _).trans List.singleton_inj

end

end EventScript.Code
