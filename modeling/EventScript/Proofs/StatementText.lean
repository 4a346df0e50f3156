import EventScript.Assembly.Statement
import EventScript.Proofs.Normal
import EventScript.Proofs.Reading

/-!
# Statements read back from their text

The text of a statement is a list of lexemes (`Action.text_eq`, `Guard.text_eq`), and reading its
tokens gives the normal form of the statement (`Action.yields_normal`, `Guard.yields_normal`).
-/

namespace EventScript

namespace Source

/-- The symbol for a comparator. -/
def Symbol.ofComparator : Comparator → Symbol
  | .equal => equal
  | .notEqual => notEqual
  | .less => less
  | .greater => greater
  | .lessEqual => lessEqual
  | .greaterEqual => greaterEqual

@[simp] theorem Symbol.comparator?_ofComparator (c : Comparator) :
    (ofComparator c).comparator? = some c := by
  cases c <;> rfl

theorem raw_ofComparator (c : Comparator) :
    (Lexeme.symbol (.ofComparator c)).raw = c.text.toList := by
  cases c <;> rfl

/-- Lexemes that make up a line whatever follows. -/
structure Apart (ls : List Lexeme) : Prop where
  chain : ∀ next, Stop next → Chain next ls
  bounded : Bounded ls

/-- Of a line with lexemes only these are left when the margin and the remark are gone. -/
theorem Apart.stripComment_line {ls : List Lexeme} (apart : Apart ls) (margin : Nat) {remark : List Char}
    (hr : Remark remark) :
    stripComment (List.replicate margin ' ' ++ rawText ls ++ remark) = strippedText ls := by
  have chain : Chain remark.head? ls := by
    cases hr with
    | none => exact apart.chain none stop_none
    | some text => exact apart.chain _ (stop_some (by decide))
  exact Source.stripComment_line margin hr chain apart.bounded

/-- Lexemes that make up a line whatever follows, and that stand for tokens. -/
structure Legible (catalog : Catalog) (ls : List Lexeme) : Prop extends Apart ls where
  meant : ∀ l ∈ ls, l.Meant catalog

/-- A line with lexemes, after a margin and in front of a remark, is prepared and read as their tokens. -/
theorem Legible.prepared {catalog : Catalog} {ls : List Lexeme} (legible : Legible catalog ls)
    (margin : Nat) {remark : List Char} (hr : Remark remark) :
    ∃ text, Source.prepared catalog (List.replicate margin ' ' ++ rawText ls ++ remark) =
      .ok (some text) ∧ tokens text = .ok (lineTokens catalog ls) := by
  refine ⟨_, prepared_line margin hr ?_ legible.bounded fun l hl => (legible.meant l hl).1, ?_⟩
  · rintro next (rfl | rfl)
    · exact legible.chain none stop_none
    · exact legible.chain _ (stop_some (by decide))
  · exact tokens_line (legible.chain none stop_none) fun l hl => (legible.meant l hl).2

end Source

namespace Code

open Source (Lexeme Token lineTokens rawText)

/-! ### Lexemes -/

/-- The lexemes of a comparison. -/
def Comparison.lexemes (names : Names) (c : Comparison) : List Lexeme :=
  (c.left.toSource names).lexemes ++
    .space :: .symbol (.ofComparator c.comparator) :: .space :: (c.right.toSource names).lexemes

/-- The lexemes of a condition. -/
def Condition.lexemes (names : Names) : Condition → List Lexeme
  | .last comparison => comparison.lexemes names
  | .more comparison conjunction rest =>
    comparison.lexemes names ++ .space :: .word conjunction.text :: .space :: rest.lexemes names

/-- The lexemes of a guard. -/
def Guard.lexemes (names : Names) : Guard → List Lexeme
  | .condition c => .word "if" :: .space :: c.lexemes names
  | .result value =>
    [.word "if", .space, .bracket Source.resultMarker, .space, .symbol .equal, .space,
      .numeral value.toNat]

/-- The lexemes in front of a statement that calls a routine. -/
def callLexemes : CallMode → List Lexeme
  | .task => []
  | .async => [.word "async", .space]
  | .function => [.word "call", .space]

/-- The lexemes of a jump with an optional target. -/
def jumpLexemes (word : String) : Option UInt32 → List Lexeme
  | none => [.word word]
  | some label => [.word word, .space, .label label]

/-- The lexemes of a statement without a block. -/
def Action.lexemes (names : Names) : Action → List Lexeme
  | .call mode routine arguments =>
    callLexemes mode ++ ((Operand.call routine arguments).toSource names none).lexemes
  | .objectCall object mode routine arguments =>
    callLexemes mode ++
      ((Operand.objectCall object .function routine arguments).toSource names none).lexemes
  | .assign place formula =>
    (place.operand.toSource names none).lexemes ++
      .space :: .symbol .equal :: .space :: (formula.toSource names).lexemes
  | .goto target => jumpLexemes "goto" target
  | .stop target => jumpLexemes "end" target
  | .gosub target => jumpLexemes "gosub" (some target)
  | .pause target => .symbol .atSign :: jumpLexemes "pause" (some target)
  | .anchor value => [.symbol .atSign, .word "anchor", .space, .numeral value.toNat]
  | .leave => [.word "return"]
  | .leaveInterrupt => [.word "endint"]

theorem raw_space : Lexeme.space.raw = [' '] := rfl

theorem raw_word (name : String) : (Lexeme.word name).raw = name.toList := rfl

theorem raw_label (label : UInt32) : (Lexeme.label label).raw = (labelText label).toList := by
  simp [Lexeme.raw, labelText]

theorem Comparison.text_eq (names : Names) (c : Comparison) :
    (c.text names).toList = rawText (c.lexemes names) := by
  simp [Comparison.text, Comparison.lexemes, Source.Expr.print_eq, Source.raw_ofComparator, raw_space]

theorem Condition.text_eq (names : Names) :
    ∀ c : Condition, (c.text names).toList = rawText (c.lexemes names)
  | .last comparison => comparison.text_eq names
  | .more comparison conjunction rest => by
    simp [Condition.text, Condition.lexemes, comparison.text_eq, rest.text_eq names, raw_space, raw_word]

theorem Guard.text_eq (names : Names) (g : Guard) :
    (g.text names).toList = rawText (g.lexemes names) := by
  cases g with
  | condition c =>
    have word : "if ".toList = "if".toList ++ [' '] := by decide
    show ("if " ++ c.text names).toList = _
    rw [String.toList_append, word, c.text_eq, List.append_assoc]
    rfl
  | result value =>
    have head : "if <ScriptRv> = ".toList = rawText [.word "if", .space, .bracket Source.resultMarker,
        .space, .symbol .equal, .space] := by decide
    show ("if <ScriptRv> = " ++ Text.decimal value.toNat).toList = _
    rw [String.toList_append, Text.toList_decimal, head, Guard.lexemes]
    simp only [Source.rawText_cons, Source.rawText_nil, List.append_nil, List.append_assoc]
    rfl

theorem callWord_eq (mode : CallMode) : (callWord mode).toList = rawText (callLexemes mode) := by
  cases mode <;> rfl

theorem jumpText_eq (word : String) (target : Option UInt32) :
    (jumpText word target).toList = rawText (jumpLexemes word target) := by
  cases target <;> simp [jumpText, jumpLexemes, raw_space, raw_word, raw_label]

/-- The text of a statement is that of its lexemes. -/
theorem Action.text_eq (names : Names) (a : Action) :
    (a.text names).toList = rawText (a.lexemes names) := by
  cases a with
  | call mode routine arguments =>
    simp [Action.text, Action.lexemes, callWord_eq, Source.Operand.print_eq]
  | objectCall object mode routine arguments =>
    simp [Action.text, Action.lexemes, callWord_eq, Source.Operand.print_eq]
  | assign place formula =>
    simp [Action.text, Action.lexemes, Source.Operand.print_eq, Source.Expr.print_eq, Lexeme.raw,
      Source.Symbol.text]
  | goto target => exact jumpText_eq "goto" target
  | stop target => exact jumpText_eq "end" target
  | gosub target => exact jumpText_eq "gosub" (some target)
  | pause target =>
    have word : "@pause".toList = '@' :: "pause".toList := by decide
    rw [Action.text, jumpText_eq, jumpLexemes, Source.rawText_cons, raw_word, word]
    rfl
  | anchor value =>
    have word : "@anchor ".toList = '@' :: "anchor".toList ++ [' '] := by decide
    rw [Action.text, String.toList_append, Text.toList_decimal, word, List.append_assoc, Action.lexemes]
    simp only [Source.rawText_cons, Source.rawText_nil, List.append_nil]
    rfl
  | leave =>
    rw [Action.text, Action.lexemes, Source.rawText_cons, raw_word, Source.rawText_nil, List.append_nil]
  | leaveInterrupt =>
    rw [Action.text, Action.lexemes, Source.rawText_cons, raw_word, Source.rawText_nil, List.append_nil]

/-! ### Normal forms -/

/-- What the text of a formula is resolved to. -/
def Formula.normal (names : Names) : Formula → Formula
  | .last operand => .last (operand.normal names none)
  | .more operand operator rest => .more (operand.normal names none) operator (rest.normal names)

/-- What the text of a comparison is resolved to. -/
def Comparison.normal (names : Names) (c : Comparison) : Comparison :=
  ⟨c.left.normal names, c.comparator, c.right.normal names⟩

/-- What the text of a condition is resolved to. -/
def Condition.normal (names : Names) : Condition → Condition
  | .last comparison => .last (comparison.normal names)
  | .more comparison conjunction rest =>
    .more (comparison.normal names) conjunction (rest.normal names)

/-- What the text of a guard is resolved to. -/
def Guard.normal (names : Names) : Guard → Guard
  | .condition c => .condition (c.normal names)
  | .result value => .result value

/-- What the text of a place is resolved to. -/
def Place.normal (names : Names) : Place → Place
  | .flag ordinal => .flag ordinal
  | .var slot => .var slot
  | .field object reference => .field (object.normal names) reference

/-- What the text of a statement without a block is resolved to. -/
def Action.normal (names : Names) : Action → Action
  | .call mode routine arguments => .call mode routine (argumentsNormal names routine 0 arguments)
  | .objectCall object mode routine arguments =>
    .objectCall (object.normal names) mode routine (argumentsNormal names routine 0 arguments)
  | .assign place formula => .assign (place.normal names) (formula.normal names)
  | .goto target => .goto target
  | .stop target => .stop target
  | .gosub target => .gosub target
  | .pause target => .pause target
  | .anchor value => .anchor value
  | .leave => .leave
  | .leaveInterrupt => .leaveInterrupt

/-- The script text has words for the formula. -/
def Formula.Textual : Formula → Prop
  | .last operand => operand.Textual
  | .more operand _ rest => operand.Textual ∧ rest.Textual

/-- The script text has words for the comparison. -/
def Comparison.Textual (c : Comparison) : Prop := c.left.Textual ∧ c.right.Textual

/-- The script text has words for the condition. -/
def Condition.Textual : Condition → Prop
  | .last comparison => comparison.Textual
  | .more comparison _ rest => comparison.Textual ∧ rest.Textual

/-- The script text has words for the guard. -/
def Guard.Textual : Guard → Prop
  | .condition c => c.Textual
  | .result _ => True

/-- The script text has words for the statement. -/
def Action.Textual : Action → Prop
  | .call _ _ arguments => argumentsTextual arguments
  | .objectCall object _ _ arguments => object.Textual ∧ argumentsTextual arguments
  | .assign place formula => place.operand.Textual ∧ formula.Textual
  | _ => True

/-- The operands in a formula. -/
def Formula.parts (names : Names) : Formula → List (Option ArgumentKind × Operand)
  | .last operand => operand.parts names none
  | .more operand _ rest => operand.parts names none ++ rest.parts names

/-- The operands in a comparison. -/
def Comparison.parts (names : Names) (c : Comparison) : List (Option ArgumentKind × Operand) :=
  c.left.parts names ++ c.right.parts names

/-- The operands in a condition. -/
def Condition.parts (names : Names) : Condition → List (Option ArgumentKind × Operand)
  | .last comparison => comparison.parts names
  | .more comparison _ rest => comparison.parts names ++ rest.parts names

/-- The operands in a guard. -/
def Guard.parts (names : Names) : Guard → List (Option ArgumentKind × Operand)
  | .condition c => c.parts names
  | .result _ => []

/-- The operands in a statement without a block. -/
def Action.parts (names : Names) : Action → List (Option ArgumentKind × Operand)
  | .call _ routine arguments => argumentParts names routine 0 arguments
  | .objectCall object _ routine arguments =>
    object.parts names ++ argumentParts names routine 0 arguments
  | .assign place formula => place.operand.parts names none ++ formula.parts names
  | _ => []

/-! ### Lines that can be read -/

variable {names : Names}

theorem Formula.toSource_spelled (sound : names.catalog.Sound) :
    ∀ f : Formula, (f.toSource names).Spelled
  | .last operand => operand.toSource_spelled sound none
  | .more operand _ rest => ⟨operand.toSource_spelled sound none, rest.toSource_spelled sound⟩

theorem Formula.toSource_readable (sound : names.catalog.Sound) (faithful : names.catalog.Faithful) :
    ∀ f : Formula, f.Textual → (f.toSource names).Readable names.catalog
  | .last operand, h => operand.toSource_readable sound faithful none h
  | .more operand _ rest, h =>
    ⟨operand.toSource_readable sound faithful none h.1, rest.toSource_readable sound faithful h.2⟩

theorem Comparison.chain (sound : names.catalog.Sound) (c : Comparison) {next : Option Char}
    (stop : Source.Stop next) : Source.Chain next (c.lexemes names) := by
  rw [Comparison.lexemes, Source.chain_append]
  refine ⟨Source.Expr.chain (Source.stop_some (by decide)) _ (c.left.toSource_spelled sound), trivial,
    fun _ _ => rfl, trivial, ?_, trivial, fun _ _ => rfl,
    Source.Expr.chain stop _ (c.right.toSource_spelled sound)⟩
  rintro d ⟨⟩
  cases c.comparator <;> rfl

theorem Condition.chain (sound : names.catalog.Sound) {next : Option Char} (stop : Source.Stop next) :
    ∀ c : Condition, Source.Chain next (c.lexemes names)
  | .last comparison => comparison.chain sound stop
  | .more comparison conjunction rest => by
    have word : Name.isIdentifier conjunction.text.toList = true := by cases conjunction <;> decide
    rw [Condition.lexemes, Source.chain_append]
    exact ⟨comparison.chain sound (Source.stop_some (by decide)), trivial, fun _ _ => rfl, word,
      (Source.stop_some (by decide)).word _, trivial, fun _ _ => rfl, rest.chain sound stop⟩

theorem Condition.closes : ∀ c : Condition, Source.Closes (c.lexemes names)
  | .last comparison =>
    (((((comparison.right.toSource names).closes).cons _).cons _).cons _).append _
  | .more _ _ rest => (((rest.closes.cons _).cons _).cons _).append _

theorem Formula.toSource_meant (faithful : names.catalog.Faithful) :
    ∀ f : Formula, ∀ l ∈ (f.toSource names).lexemes, l.Meant names.catalog
  | .last operand => operand.toSource_meant faithful none
  | .more operand _ rest => by
    simp only [Formula.toSource, Source.Expr.lexemes, List.forall_mem_append, List.forall_mem_cons,
      Lexeme.meant_space, Lexeme.meant_symbol, true_and]
    exact ⟨operand.toSource_meant faithful none, rest.toSource_meant faithful⟩

theorem Comparison.meant (clean : names.catalog.Clean) (c : Comparison) :
    ∀ l ∈ c.lexemes names, l.Meant names.catalog := by
  simp only [Comparison.lexemes, List.forall_mem_append, List.forall_mem_cons, Lexeme.meant_space,
    Lexeme.meant_symbol, true_and]
  exact ⟨c.left.toSource_meant clean, c.right.toSource_meant clean⟩

theorem Condition.meant (clean : names.catalog.Clean) :
    ∀ c : Condition, ∀ l ∈ c.lexemes names, l.Meant names.catalog
  | .last c => c.meant clean
  | .more c _ rest => by
    simp only [Condition.lexemes, List.forall_mem_append, List.forall_mem_cons, Lexeme.meant_space,
      Lexeme.meant_word, true_and]
    exact ⟨c.meant clean, rest.meant clean⟩

/-- The first lexeme can begin a line. -/
def Starts (ls : List Lexeme) : Prop := ∃ l, ls.head? = some l ∧ l.leads = true

theorem starts_of_opens {ls : List Lexeme} (h : Source.Opens ls) : Starts ls := by
  obtain ⟨l, head, space⟩ := h
  refine ⟨l, head, ?_⟩
  cases l with
  | space => exact absurd rfl space
  | _ => rfl

theorem Starts.bounded {ls : List Lexeme} (starts : Starts ls) (closes : Source.Closes ls) :
    Source.Bounded ls := by
  obtain ⟨first, head, hf⟩ := starts
  obtain ⟨last, h, hl⟩ := closes
  exact ⟨first, last, head, h, hf, hl⟩

theorem Guard.apart (sound : names.catalog.Sound) (g : Guard) : Source.Apart (g.lexemes names) := by
  have word : Name.isIdentifier "if".toList = true := by decide
  cases g with
  | condition c =>
    constructor
    · intro next stop
      exact ⟨word, (Source.stop_some (by decide)).word _, trivial, fun _ _ => rfl, c.chain sound stop⟩
    · exact Starts.bounded ⟨_, rfl, rfl⟩ ((c.closes.cons _).cons _)
  | result value =>
    have marker : Name.isIdentifier Source.resultMarker.toList = true := by decide
    constructor
    · intro next stop
      refine ⟨word, (Source.stop_some (by decide)).word _, trivial, fun _ _ => rfl, marker, ?_, trivial,
        fun _ _ => rfl, trivial, ?_, trivial, fun _ _ => rfl,
        Source.chain_numeral stop (Source.byte_le_maxInteger value)⟩
      · rintro c ⟨⟩
        rfl
      · rintro c ⟨⟩
        rfl
    · exact ⟨_, _, rfl, rfl, rfl, rfl⟩

/-- The line for a guard can be read. -/
theorem Guard.legible (sound : names.catalog.Sound) (clean : names.catalog.Clean) (g : Guard) :
    Source.Legible names.catalog (g.lexemes names) := by
  refine ⟨g.apart sound, ?_⟩
  cases g with
  | condition c =>
    simp only [Guard.lexemes, List.forall_mem_cons, Lexeme.meant_space, Lexeme.meant_word, true_and]
    exact c.meant clean
  | result value => simp [Guard.lexemes]

theorem apart_jump {word : String} (h : Name.isIdentifier word.toList = true) (target : Option UInt32) :
    Source.Apart (jumpLexemes word target) := by
  cases target with
  | none => exact ⟨fun _ stop => ⟨h, stop.word word, trivial⟩, Starts.bounded ⟨_, rfl, rfl⟩ ⟨_, rfl, rfl⟩⟩
  | some label =>
    exact ⟨fun next stop => ⟨h, (Source.stop_some (by decide)).word word, trivial, fun _ _ => rfl,
      Source.chain_label stop label⟩, Starts.bounded ⟨_, rfl, rfl⟩ ⟨_, rfl, rfl⟩⟩

/-- A line may begin with the word for a kind of call. -/
theorem apart_call {ls : List Lexeme} (apart : Source.Apart ls) (mode : CallMode) :
    Source.Apart (callLexemes mode ++ ls) := by
  obtain ⟨first, last, head, end_, hf, hl⟩ := apart.bounded
  have word : ∀ word : String, Name.isIdentifier word.toList = true →
      Source.Apart ([.word word, .space] ++ ls) := by
    intro word h
    have closes : Source.Closes ls := ⟨last, end_, hl⟩
    exact ⟨fun next stop => ⟨h, (Source.stop_some (by decide)).word word, trivial, fun _ _ => rfl,
      apart.chain next stop⟩, Starts.bounded ⟨_, rfl, rfl⟩ (closes.append _)⟩
  cases mode with
  | task => exact apart
  | async => exact word "async" (by decide)
  | function => exact word "call" (by decide)

theorem apart_operand (sound : names.catalog.Sound) (o : Operand) :
    Source.Apart (o.toSource names none).lexemes :=
  ⟨fun _ stop => Source.Operand.chain stop _ (o.toSource_spelled sound none),
    (starts_of_opens (Source.Operand.opens _)).bounded (Source.Operand.closes _)⟩

theorem Action.apart (sound : names.catalog.Sound) (a : Action) : Source.Apart (a.lexemes names) := by
  cases a with
  | call mode routine arguments => exact apart_call (apart_operand sound _) mode
  | objectCall object mode routine arguments => exact apart_call (apart_operand sound _) mode
  | assign place formula =>
    constructor
    · intro next stop
      rw [Action.lexemes, Source.chain_append]
      refine ⟨Source.Operand.chain (Source.stop_some (by decide)) _ (Operand.toSource_spelled sound _ none),
        trivial, fun _ _ => rfl, trivial, ?_, trivial, fun _ _ => rfl,
        Source.Expr.chain stop _ (formula.toSource_spelled sound)⟩
      rintro c ⟨⟩
      rfl
    · refine (starts_of_opens ((Source.Operand.opens _).append _)).bounded ?_
      exact ((((formula.toSource names).closes.cons _).cons _).cons _).append _
  | goto target => exact apart_jump (by decide) target
  | stop target => exact apart_jump (by decide) target
  | gosub target => exact apart_jump (by decide) (some target)
  | pause target =>
    have jump : Source.Apart (jumpLexemes "pause" (some target)) := apart_jump (by decide) _
    exact ⟨fun next stop => ⟨trivial, fun _ _ => rfl, jump.chain next stop⟩,
      Starts.bounded ⟨_, rfl, rfl⟩ ⟨_, rfl, rfl⟩⟩
  | anchor value =>
    have word : Name.isIdentifier "anchor".toList = true := by decide
    exact ⟨fun next stop => ⟨trivial, fun _ _ => rfl, word, (Source.stop_some (by decide)).word _, trivial,
      fun _ _ => rfl, Source.chain_numeral stop (Source.byte_le_maxInteger value)⟩,
      Starts.bounded ⟨_, rfl, rfl⟩ ⟨_, rfl, rfl⟩⟩
  | leave => exact apart_jump (by decide) none
  | leaveInterrupt => exact apart_jump (by decide) none

theorem meant_callLexemes (catalog : Catalog) (mode : CallMode) : ∀ l ∈ callLexemes mode, l.Meant catalog := by
  cases mode <;> simp [callLexemes]

theorem meant_jumpLexemes (catalog : Catalog) (word : String) (target : Option UInt32) :
    ∀ l ∈ jumpLexemes word target, l.Meant catalog := by
  cases target <;> simp [jumpLexemes]

/-- The line for a statement can be read. -/
theorem Action.legible (sound : names.catalog.Sound) (clean : names.catalog.Clean) (a : Action) :
    Source.Legible names.catalog (a.lexemes names) := by
  refine ⟨a.apart sound, ?_⟩
  cases a with
  | call mode routine arguments =>
    exact List.forall_mem_append.mpr ⟨meant_callLexemes _ mode, Operand.toSource_meant clean _ none⟩
  | objectCall object mode routine arguments =>
    exact List.forall_mem_append.mpr ⟨meant_callLexemes _ mode, Operand.toSource_meant clean _ none⟩
  | assign place formula =>
    simp only [Action.lexemes, List.forall_mem_append, List.forall_mem_cons, Lexeme.meant_space,
      Lexeme.meant_symbol, true_and]
    exact ⟨Operand.toSource_meant clean _ none, formula.toSource_meant clean⟩
  | goto target => exact meant_jumpLexemes _ _ target
  | stop target => exact meant_jumpLexemes _ _ target
  | _ => simp [Action.lexemes, jumpLexemes]

/-! ### Reading the tokens of a line -/

section

open Assembly

/-- A statement without a block takes its whole line. -/
theorem yields_readWhole {m : Resolve (Action × List Token)} {piece : Piece} {s s' : List String}
    (h : Yields (readWhole m) s piece s') : ∃ a, piece = .statement (.action a) ∧ Yields m s (a, []) s' := by
  obtain ⟨⟨a, rest⟩, t, first, h₁⟩ := yields_bind.mp h
  obtain ⟨_, t', read, last⟩ := yields_bind.mp h₁
  obtain ⟨done, rfl⟩ := yields_lift.mp read
  obtain ⟨rfl, rfl⟩ := yields_pure.mp last
  obtain rfl := Source.readEnd_eq done
  exact ⟨a, rfl, first⟩

theorem Formula.yields_normal (faithful : names.catalog.Faithful) :
    ∀ f : Formula, f.Fits names.strings.length → (∀ part ∈ f.parts names, names.Short part) →
      Yields (resolveFormula names.catalog ((f.toSource names).plain names.catalog)) names.strings
        (f.normal names) names.strings
  | .last operand, h, short =>
    yields_bind.mpr ⟨_, _, operand.yields_normal faithful none h short, yields_pure.mpr ⟨rfl, rfl⟩⟩
  | .more operand _ rest, h, short => by
    have inner := List.forall_mem_append.mp short
    exact yields_bind.mpr ⟨_, _, operand.yields_normal faithful none h.1 inner.1, yields_bind.mpr
      ⟨_, _, rest.yields_normal faithful h.2 inner.2, yields_pure.mpr ⟨rfl, rfl⟩⟩⟩

/-- What is assigned to is resolved in the way that it is as a value. -/
theorem Place.yields_operand {catalog : Catalog} {op : Source.Operand} {s s' : List String} {p : Place}
    (run : Yields (resolvePlace catalog op) s p s') : Yields (resolveOperand catalog none op) s p.operand s' := by
  cases op with
  | flag name =>
    obtain ⟨ordinal, t, found, last⟩ := yields_bind.mp run
    obtain ⟨rfl, rfl⟩ := yields_pure.mp last
    rw [resolveOperand]
    exact yields_bind.mpr ⟨_, _, found, yields_pure.mpr ⟨rfl, rfl⟩⟩
  | var slot =>
    obtain ⟨rfl, rfl⟩ := yields_pure.mp run
    rw [resolveOperand]
    exact yields_pure.mpr ⟨rfl, rfl⟩
  | field object reference =>
    obtain ⟨object', t, first, rest⟩ := yields_bind.mp run
    obtain ⟨ordinal, t', found, last⟩ := yields_bind.mp rest
    obtain ⟨rfl, rfl⟩ := yields_pure.mp last
    rw [resolveOperand]
    exact yields_bind.mpr ⟨_, _, first, yields_bind.mpr ⟨_, _, found, yields_pure.mpr ⟨rfl, rfl⟩⟩⟩
  | _ => cases run

theorem Place.yields_normal (clean : names.catalog.Clean) (p : Place)
    (h : p.operand.Fits names.strings.length)
    (short : ∀ part ∈ p.operand.parts names none, names.Short part) :
    Yields (resolvePlace names.catalog ((p.operand.toSource names none).plain names.catalog))
      names.strings (p.normal names) names.strings := by
  cases p with
  | flag ordinal =>
    simp only [Place.operand, Operand.toSource, Source.Operand.plain, resolvePlace, Place.normal]
    refine yields_bind.mpr ⟨_, _, yields_resolve clean .flag (flag_le ordinal) _, ?_⟩
    rw [UInt16.ofNat_toNat]
    exact yields_pure.mpr ⟨rfl, rfl⟩
  | var slot => exact yields_pure.mpr ⟨rfl, rfl⟩
  | field object reference =>
    simp only [Place.operand, Operand.toSource, Source.Operand.plain, resolvePlace, Place.normal]
    refine yields_bind.mpr ⟨_, _, object.yields_normal clean h (List.forall_mem_cons.mp short).2, ?_⟩
    refine yields_bind.mpr ⟨_, _, yields_resolve clean .reference (reference_le reference) _, ?_⟩
    rw [UInt8.ofNat_toNat]
    exact yields_pure.mpr ⟨rfl, rfl⟩

theorem Comparison.yields_normal (sound : names.catalog.Sound) (clean : names.catalog.Clean)
    {c : Comparison} (h : c.Fits names.strings.length) (textual : c.Textual)
    (short : ∀ part ∈ c.parts names, names.Short part) {rest : List Token}
    (ended : Source.ExprEnded rest) :
    Yields (Assembly.readComparison names.catalog (lineTokens names.catalog (c.lexemes names) ++ rest))
      names.strings (c.normal names, rest) names.strings := by
  have inner := List.forall_mem_append.mp short
  have tokens : lineTokens names.catalog (c.lexemes names) ++ rest =
      lineTokens names.catalog (c.left.toSource names).lexemes ++
        .sym (.ofComparator c.comparator) ::
          (lineTokens names.catalog (c.right.toSource names).lexemes ++ rest) := by
    rw [Comparison.lexemes, Source.lineTokens_append, List.append_assoc]
    rfl
  have left := Source.Expr.read_tokens (c.left.toSource_readable sound clean textual.1)
    (Source.exprEnded_sym (s := .ofComparator c.comparator) (by cases c.comparator <;> decide)
      (lineTokens names.catalog (c.right.toSource names).lexemes ++ rest))
  have comparator : readComparator (.sym (.ofComparator c.comparator) ::
      (lineTokens names.catalog (c.right.toSource names).lexemes ++ rest)) =
      .ok (c.comparator, lineTokens names.catalog (c.right.toSource names).lexemes ++ rest) := by
    simp only [readComparator, Source.Symbol.comparator?_ofComparator]
  have right := Source.Expr.read_tokens (c.right.toSource_readable sound clean textual.2) ended
  rw [tokens, Assembly.readComparison]
  refine yields_bind.mpr ⟨_, _, yields_lift.mpr ⟨left, rfl⟩, ?_⟩
  refine yields_bind.mpr ⟨_, _, yields_lift.mpr ⟨comparator, rfl⟩, ?_⟩
  refine yields_bind.mpr ⟨_, _, yields_lift.mpr ⟨right, rfl⟩, ?_⟩
  refine yields_bind.mpr ⟨_, _, c.left.yields_normal clean h.1 inner.1, ?_⟩
  refine yields_bind.mpr ⟨_, _, c.right.yields_normal clean h.2 inner.2, ?_⟩
  exact yields_pure.mpr ⟨rfl, rfl⟩

theorem exprEnded_ident (word : String) (ts : List Token) : Source.ExprEnded (.ident word :: ts) := by
  rintro t ⟨⟩
  exact ⟨Token.noConfusion, Token.noConfusion, fun s h => Token.noConfusion h⟩

theorem exprEnded_nil : Source.ExprEnded [] := by rintro t ⟨⟩

theorem Condition.yields_normal (sound : names.catalog.Sound) (clean : names.catalog.Clean) :
    ∀ c : Condition, c.Fits names.strings.length → c.Textual →
      (∀ part ∈ c.parts names, names.Short part) →
      ∀ n, (lineTokens names.catalog (c.lexemes names)).length < n →
        Yields (Assembly.readCondition names.catalog n (lineTokens names.catalog (c.lexemes names)))
          names.strings (c.normal names) names.strings
  | .last comparison, h, textual, short, n + 1, _ => by
    have first := Comparison.yields_normal sound clean h textual short exprEnded_nil
    rw [List.append_nil] at first
    exact yields_bind.mpr ⟨_, _, first, yields_pure.mpr ⟨rfl, rfl⟩⟩
  | .more comparison conjunction rest, h, textual, short, n + 1, fuel => by
    have inner := List.forall_mem_append.mp short
    have tokens : lineTokens names.catalog ((Condition.more comparison conjunction rest).lexemes names) =
        lineTokens names.catalog (comparison.lexemes names) ++
          .ident conjunction.text :: lineTokens names.catalog (rest.lexemes names) := by
      rw [Condition.lexemes, Source.lineTokens_append]
      rfl
    rw [tokens, List.length_append, List.length_cons] at fuel
    have first := Comparison.yields_normal sound clean h.1 textual.1 inner.1
      (exprEnded_ident conjunction.text (lineTokens names.catalog (rest.lexemes names)))
    have others := rest.yields_normal sound clean h.2 textual.2 inner.2 n (by omega)
    rw [tokens, Assembly.readCondition]
    refine yields_bind.mpr ⟨_, _, first, ?_⟩
    cases conjunction with
    | and => exact yields_bind.mpr ⟨_, _, others, yields_pure.mpr ⟨rfl, rfl⟩⟩
    | or => exact yields_bind.mpr ⟨_, _, others, yields_pure.mpr ⟨rfl, rfl⟩⟩

theorem byteOf_toNat (field : Source.ByteField) (value : UInt8) :
    Source.byteOf field value.toNat = .ok value := by
  have := value.toNat_lt
  rw [Source.byteOf, if_pos (by omega), Int.toNat_natCast, UInt8.ofNat_toNat]

theorem Condition.first_token (sound : names.catalog.Sound) (clean : names.catalog.Clean)
    {c : Condition} (textual : c.Textual) :
    ∃ t ts, lineTokens names.catalog (c.lexemes names) = t :: ts ∧ t.opens = true := by
  have comparison : ∀ {c : Comparison} (rest : List Lexeme), c.Textual →
      ∃ t ts, lineTokens names.catalog (c.lexemes names ++ rest) = t :: ts ∧ t.opens = true := by
    intro c rest h
    obtain ⟨t, ts, tokens, opens⟩ :=
      Source.Expr.first_token _ (c.left.toSource_readable sound clean h.1)
    rw [Comparison.lexemes, List.append_assoc, Source.lineTokens_append, tokens]
    exact ⟨t, _, rfl, opens⟩
  cases c with
  | last c =>
    have first := comparison [] textual
    rwa [List.append_nil] at first
  | more c conjunction rest => exact comparison _ textual.1

/-- The line for a guard is read as the normal form of the guard. -/
theorem Guard.yields_normal (sound : names.catalog.Sound) (clean : names.catalog.Clean) {g : Guard}
    (h : g.Fits names.strings.length) (textual : g.Textual)
    (short : ∀ part ∈ g.parts names, names.Short part) :
    Yields (readPiece names.catalog (lineTokens names.catalog (g.lexemes names))) names.strings
      (.guard (g.normal names)) names.strings := by
  cases g with
  | condition c =>
    have read := c.yields_normal sound clean h textual short _ (Nat.lt_succ_self _)
    obtain ⟨t, ts, tokens, opens⟩ := Condition.first_token sound clean textual
    have piece : readPiece names.catalog (lineTokens names.catalog ((Guard.condition c).lexemes names)) =
        (readGuard names.catalog (lineTokens names.catalog (c.lexemes names))) >>=
          fun guard => pure (.guard guard) := rfl
    rw [piece]
    refine yields_bind.mpr ⟨_, _, ?_, yields_pure.mpr ⟨rfl, rfl⟩⟩
    rw [tokens] at read ⊢
    unfold readGuard
    split
    · next e =>
      cases e
      cases opens
    · exact yields_bind.mpr ⟨_, _, read, yields_pure.mpr ⟨rfl, rfl⟩⟩
  | result value =>
    have byte := byteOf_toNat .resultValue value
    refine yields_bind.mpr ⟨.result value, names.strings, ?_, yields_pure.mpr ⟨rfl, rfl⟩⟩
    refine yields_bind.mpr ⟨_, _, yields_lift.mpr ⟨rfl, rfl⟩, ?_⟩
    refine yields_bind.mpr ⟨_, _, yields_lift.mpr ⟨rfl, rfl⟩, ?_⟩
    refine yields_bind.mpr ⟨_, _, yields_lift.mpr ⟨byte, rfl⟩, ?_⟩
    exact yields_bind.mpr ⟨_, _, yields_lift.mpr ⟨rfl, rfl⟩, yields_pure.mpr ⟨rfl, rfl⟩⟩

theorem var_free (slot : UInt8) : Name.withNumber "var" slot.toNat ∉ Name.reserved := by
  intro mem
  have other : ∀ word ∈ Name.reserved, Name.number? "var" word = none := by decide
  have number := Name.number?_withNumber "var" slot.toNat
  rw [other _ mem] at number
  cases number

/-- Tokens at the beginning of a call or an assignment. -/
def PlainStart (ts : List Token) : Prop :=
  (∃ text rest, ts = .str text :: rest) ∨ ∃ word rest, ts = .ident word :: rest ∧ word ∉ Name.reserved

theorem readPiece_plain (catalog : Catalog) {ts : List Token} (h : PlainStart ts) :
    readPiece catalog ts = readWhole (readPlain catalog ts) := by
  rcases h with ⟨text, rest, rfl⟩ | ⟨word, rest, rfl, free⟩
  · rfl
  · have ne : ∀ w ∈ Name.reserved, word ≠ w := by
      rintro w hw rfl
      exact free hw
    rw [readPiece, if_neg (ne _ (by decide)), readWord]
    iterate 7 rw [if_neg (ne _ (by decide))]

theorem printedName_free (sound : names.catalog.Sound) (k : NameClass) (n : Nat) :
    names.catalog.printedName k n ∉ Name.reserved :=
  fun mem => ne_reserved_of_isDefinable (sound.printedName_definable k n) mem rfl

theorem Object.plainStart (sound : names.catalog.Sound) {o : Object} (textual : o.Textual)
    (rest : List Lexeme) :
    PlainStart (lineTokens names.catalog ((o.toSource names).lexemes ++ rest)) := by
  match o, textual with
  | .builtin which, _ => exact .inr ⟨_, _, rfl, by cases which <;> decide⟩
  | .named _, _ => exact .inl ⟨_, _, rfl⟩
  | .dynamic (.flag _), _ => exact .inr ⟨_, _, rfl, printedName_free sound .flag _⟩
  | .dynamic (.var slot), _ => exact .inr ⟨_, _, rfl, var_free slot⟩

theorem Place.plainStart (sound : names.catalog.Sound) {p : Place} (textual : p.operand.Textual)
    (rest : List Lexeme) :
    PlainStart (lineTokens names.catalog ((p.operand.toSource names none).lexemes ++ rest)) := by
  cases p with
  | flag ordinal => exact .inr ⟨_, _, rfl, printedName_free sound .flag _⟩
  | var slot => exact .inr ⟨_, _, rfl, var_free slot⟩
  | field object reference =>
    rw [Place.operand, Operand.toSource, Source.Operand.lexemes, List.append_assoc]
    exact Object.plainStart sound textual _

/-- The line for a call is read as the call. -/
theorem yields_callLine {catalog : Catalog} {op : Source.Operand} (readable : op.Readable catalog)
    (start : PlainStart (lineTokens catalog op.lexemes)) {mode : CallMode} {code : Resolve Action}
    (found : resolveCall? catalog mode (op.plain catalog) = some code) {s s' : List String}
    {a : Action} (run : Yields code s a s') :
    Yields (readPiece catalog (lineTokens catalog (callLexemes mode ++ op.lexemes))) s
      (.statement (.action a)) s' := by
  have read : Source.Operand.read (lineTokens catalog op.lexemes) = .ok (op.plain catalog, []) := by
    have all := Source.Operand.read_tokens readable exprEnded_nil.ended
    rwa [List.append_nil] at all
  have whole : ∀ m : Resolve (Action × List Token), Yields m s (a, []) s' →
      Yields (readWhole m) s (.statement (.action a)) s' := by
    intro m h
    exact yields_bind.mpr ⟨_, _, h, yields_bind.mpr ⟨(), _, yields_lift.mpr ⟨rfl, rfl⟩,
      yields_pure.mpr ⟨rfl, rfl⟩⟩⟩
  have called : Yields (Assembly.readCall catalog mode (lineTokens catalog op.lexemes)) s (a, []) s' := by
    refine yields_bind.mpr ⟨_, _, yields_lift.mpr ⟨read, rfl⟩, ?_⟩
    simp only [found]
    exact yields_bind.mpr ⟨_, _, run, yields_pure.mpr ⟨rfl, rfl⟩⟩
  cases mode with
  | async => exact whole _ called
  | function => exact whole _ called
  | task =>
    rw [callLexemes, List.nil_append, readPiece_plain catalog start]
    refine whole _ (yields_bind.mpr ⟨_, _, yields_lift.mpr ⟨read, rfl⟩, ?_⟩)
    simp only [found]
    exact yields_bind.mpr ⟨_, _, run, yields_pure.mpr ⟨rfl, rfl⟩⟩

/-- The line for a statement is read as the normal form of the statement. -/
theorem Action.yields_normal (sound : names.catalog.Sound) (clean : names.catalog.Clean) {a : Action}
    (h : a.Fits names.strings.length) (textual : a.Textual)
    (short : ∀ part ∈ a.parts names, names.Short part) :
    Yields (readPiece names.catalog (lineTokens names.catalog (a.lexemes names))) names.strings
      (.statement (.action (a.normal names))) names.strings := by
  cases a with
  | call mode routine arguments =>
    have readable := Operand.toSource_readable sound clean (.call routine arguments) none textual
    refine yields_callLine readable (.inr ⟨_, _, rfl, printedName_free sound .routine _⟩) rfl ?_
    refine yields_bind.mpr ⟨_, _, yields_routine clean ?_ _, ?_⟩
    · rw [Source.length_argumentsPlain, length_argumentsToSource]
      exact h.1
    · exact yields_bind.mpr ⟨_, _, argumentsNormal_yields clean routine arguments 0 h.2 short,
        yields_pure.mpr ⟨rfl, rfl⟩⟩
  | objectCall object mode routine arguments =>
    have inner := List.forall_mem_append.mp short
    have readable := Operand.toSource_readable sound clean (.objectCall object .function routine arguments)
      none ⟨by decide, textual⟩
    refine yields_callLine readable (Object.plainStart sound textual.1 _) rfl ?_
    refine yields_bind.mpr ⟨_, _, object.yields_normal clean h.1 inner.1, ?_⟩
    refine yields_bind.mpr ⟨_, _, yields_routine clean ?_ _, ?_⟩
    · rw [Source.length_argumentsPlain, length_argumentsToSource]
      exact h.2.1
    · exact yields_bind.mpr ⟨_, _, argumentsNormal_yields clean routine arguments 0 h.2.2 inner.2,
        yields_pure.mpr ⟨rfl, rfl⟩⟩
  | assign place formula =>
    have inner := List.forall_mem_append.mp short
    have tokens : lineTokens names.catalog ((Action.assign place formula).lexemes names) =
        lineTokens names.catalog (place.operand.toSource names none).lexemes ++
          .sym .equal :: (lineTokens names.catalog (formula.toSource names).lexemes ++ []) := by
      rw [Action.lexemes, Source.lineTokens_append, List.append_nil]
      rfl
    have left := Source.Operand.read_tokens
      (Operand.toSource_readable sound clean place.operand none textual.1)
      (Source.ended_cons (t := .sym .equal) (by decide)
        (lineTokens names.catalog (formula.toSource names).lexemes ++ []))
    have right := Source.Expr.read_tokens (formula.toSource_readable sound clean textual.2) exprEnded_nil
    rw [Action.lexemes, readPiece_plain names.catalog (Place.plainStart sound textual.1 _),
      ← Action.lexemes, tokens]
    refine yields_bind.mpr ⟨(_, []), _, ?_, yields_bind.mpr ⟨(), _, yields_lift.mpr ⟨rfl, rfl⟩,
      yields_pure.mpr ⟨rfl, rfl⟩⟩⟩
    refine yields_bind.mpr ⟨_, _, yields_lift.mpr ⟨left, rfl⟩, ?_⟩
    refine yields_bind.mpr ⟨_, _, yields_lift.mpr ⟨right, rfl⟩, ?_⟩
    refine yields_bind.mpr ⟨_, _, place.yields_normal clean h.1 inner.1, ?_⟩
    refine yields_bind.mpr ⟨_, _, formula.yields_normal clean h.2 inner.2, ?_⟩
    exact yields_pure.mpr ⟨rfl, rfl⟩
  | goto target => cases target <;> rfl
  | stop target => cases target <;> rfl
  | gosub target => rfl
  | pause target => rfl
  | anchor value =>
    have byte := byteOf_toNat .anchor value
    refine yields_bind.mpr ⟨(.anchor value, []), _, ?_, yields_bind.mpr ⟨(), _, yields_lift.mpr ⟨rfl, rfl⟩,
      yields_pure.mpr ⟨rfl, rfl⟩⟩⟩
    refine yields_bind.mpr ⟨_, _, yields_lift.mpr ⟨rfl, rfl⟩, ?_⟩
    exact yields_bind.mpr ⟨_, _, yields_lift.mpr ⟨byte, rfl⟩, yields_pure.mpr ⟨rfl, rfl⟩⟩
  | leave => rfl
  | leaveInterrupt => rfl

end

end Code

end EventScript
