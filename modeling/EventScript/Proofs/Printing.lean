import EventScript.Proofs.Scanning
import EventScript.Source.Reading

/-!
# Values read back from their text

The text of a value is a list of lexemes (`Operand.print_eq`, `Expr.print_eq`) that do not run into
each other, and reading their tokens gives the value back (`Operand.read_lexemes`,
`Expr.read_lexemes`), with ordinals in place of names in angle brackets. A value that could be taken
for another one, such as a flag that is spelled like a variable, is not `Readable`.
-/

namespace EventScript

namespace Source

/-- The symbol for an operator. -/
def Symbol.ofOperator : Operator → Symbol
  | .add => plus
  | .sub => minus
  | .mul => times
  | .div => divide
  | .mod => percent

@[simp] theorem Symbol.operator?_ofOperator (o : Operator) : (ofOperator o).operator? = some o := by
  cases o <;> rfl

theorem raw_ofOperator (o : Operator) :
    (Lexeme.symbol (.ofOperator o)).raw = o.text.toList := by
  cases o <;> rfl

mutual

/-- The lexemes of an operand. -/
def Operand.lexemes : Operand → List Lexeme
  | .int value =>
    if value < 0 then [.symbol .minus, .numeral value.natAbs] else [.numeral value.natAbs]
  | .str text => [.literal text]
  | .bracket name => [.bracket name]
  | .flag name => [.word name]
  | .var slot => [.word (Name.withNumber "var" slot.toNat)]
  | .field object reference => object.lexemes ++ [.symbol .dot, .word reference]
  | .call routine arguments => .word routine :: .symbol .leftParen :: argumentLexemes arguments
  | .objectCall async object routine arguments =>
    (if async then [.word "async", .space] else []) ++ object.lexemes ++
      .symbol .dot :: .word routine :: .symbol .leftParen :: argumentLexemes arguments

/-- The lexemes of an object. -/
def Object.lexemes : Object → List Lexeme
  | .builtin which => [.word which.name]
  | .named name => [.literal name]
  | .dynamic value => value.lexemes

/-- The lexemes of an expression. -/
def Expr.lexemes : Expr → List Lexeme
  | .last operand => operand.lexemes
  | .more operand operator rest =>
    operand.lexemes ++ .space :: .symbol (.ofOperator operator) :: .space :: rest.lexemes

/-- The lexemes of the arguments of a call, with the parenthesis that closes it. -/
def argumentLexemes : List Expr → List Lexeme
  | [] => [.symbol .rightParen]
  | e :: es => e.lexemes ++ furtherLexemes es

/-- The lexemes of the arguments that follow another, with the parenthesis that closes the call. -/
def furtherLexemes : List Expr → List Lexeme
  | [] => [.symbol .rightParen]
  | e :: es => .symbol .comma :: (e.lexemes ++ furtherLexemes es)

end

/-! ### The text of lexemes -/

theorem toList_signedDecimal (value : Int) :
    (Text.signedDecimal value).toList = rawText (Operand.int value).lexemes := by
  rw [Text.signedDecimal, Operand.lexemes]
  split <;> simp [Lexeme.raw, Symbol.text]

mutual

theorem Operand.print_eq : ∀ o : Operand, o.print.toList = rawText o.lexemes
  | .int value => by rw [Operand.print, toList_signedDecimal]
  | .str text => by simp [Operand.print, Operand.lexemes, Lexeme.raw]
  | .bracket name => by simp [Operand.print, Operand.lexemes, Lexeme.raw]
  | .flag name => by simp [Operand.print, Operand.lexemes, Lexeme.raw]
  | .var slot => by simp [Operand.print, Operand.lexemes, Lexeme.raw]
  | .field object reference => by
    simp [Operand.print, Operand.lexemes, Lexeme.raw, Symbol.text, object.print_eq]
  | .call routine arguments => by
    simp [Operand.print, Operand.lexemes, Lexeme.raw, Symbol.text, ← printArguments_eq arguments]
  | .objectCall async object routine arguments => by
    cases async <;>
      simp [Operand.print, Operand.lexemes, Lexeme.raw, Symbol.text, object.print_eq,
        ← printArguments_eq arguments]

theorem Object.print_eq : ∀ o : Object, o.print.toList = rawText o.lexemes
  | .builtin which => by simp [Object.print, Object.lexemes, Lexeme.raw]
  | .named name => by simp [Object.print, Object.lexemes, Lexeme.raw]
  | .dynamic value => by rw [Object.print, Object.lexemes, value.print_eq]

theorem Expr.print_eq : ∀ e : Expr, e.print.toList = rawText e.lexemes
  | .last operand => by rw [Expr.print, Expr.lexemes, operand.print_eq]
  | .more operand operator rest => by
    have space : Lexeme.space.raw = [' '] := rfl
    simp [Expr.print, Expr.lexemes, space, raw_ofOperator, operand.print_eq, rest.print_eq]

theorem printArguments_eq :
    ∀ es : List Expr, (printArguments es).toList ++ [')'] = rawText (argumentLexemes es)
  | [] => by simp [printArguments, argumentLexemes, Lexeme.raw, Symbol.text]
  | e :: es => by
    simp [printArguments, argumentLexemes, e.print_eq, ← printFurther_eq es]

theorem printFurther_eq :
    ∀ es : List Expr, (printFurther es).toList ++ [')'] = rawText (furtherLexemes es)
  | [] => by simp [printFurther, furtherLexemes, Lexeme.raw, Symbol.text]
  | e :: es => by
    simp [printFurther, furtherLexemes, Lexeme.raw, e.print_eq, ← printFurther_eq es]

end

/-! ### Lexemes that do not run into each other -/

mutual

/-- The names of an operand are identifiers and its numbers can be read. -/
def Operand.Spelled : Operand → Prop
  | .int value => value.natAbs ≤ maxInteger
  | .str _ => True
  | .bracket name => Name.isIdentifier name.toList = true
  | .flag name => Name.isIdentifier name.toList = true
  | .var _ => True
  | .field object reference => object.Spelled ∧ Name.isIdentifier reference.toList = true
  | .call routine arguments => Name.isIdentifier routine.toList = true ∧ argumentsSpelled arguments
  | .objectCall _ object routine arguments =>
    object.Spelled ∧ Name.isIdentifier routine.toList = true ∧ argumentsSpelled arguments

/-- The names of an object are identifiers. -/
def Object.Spelled : Object → Prop
  | .builtin _ => True
  | .named _ => True
  | .dynamic value => value.Spelled

/-- The names of an expression are identifiers and its numbers can be read. -/
def Expr.Spelled : Expr → Prop
  | .last operand => operand.Spelled
  | .more operand _ rest => operand.Spelled ∧ rest.Spelled

/-- The names of arguments are identifiers and their numbers can be read. -/
def argumentsSpelled : List Expr → Prop
  | [] => True
  | e :: es => e.Spelled ∧ argumentsSpelled es

end

/-- A character that may come right after a value. -/
def Stop (next : Option Char) : Prop :=
  ∀ c ∈ next, Name.isPart c = false ∧ c ≠ '<' ∧ c ≠ '='

theorem stop_none : Stop none := by rintro c ⟨⟩

theorem stop_some {c : Char} (h : Name.isPart c = false ∧ c ≠ '<' ∧ c ≠ '=') : Stop (some c) := by
  rintro d ⟨⟩
  exact h

theorem Stop.word {next : Option Char} (stop : Stop next) (name : String) :
    ∀ c ∈ next, (Lexeme.word name).allows c = true := by
  intro c hc
  obtain ⟨part, less, -⟩ := stop c hc
  simp [Lexeme.allows, part, less]

theorem Stop.digits {next : Option Char} (stop : Stop next) :
    ∀ c ∈ next, Text.isDigit c = false ∧ c ≠ '<' ∧ c ≠ '=' := by
  intro c hc
  obtain ⟨part, rest⟩ := stop c hc
  refine ⟨?_, rest⟩
  cases digit : Text.isDigit c with
  | false => rfl
  | true => rw [Name.isPart_of_isDigit digit] at part; cases part

theorem chain_numeral {next : Option Char} (stop : Stop next) {n : Nat} (h : n ≤ maxInteger) :
    Chain next [.numeral n] := by
  refine ⟨h, ?_, trivial⟩
  intro c hc
  obtain ⟨digit, less, -⟩ := stop.digits c hc
  simp [Lexeme.allows, digit, less]

theorem chain_label {next : Option Char} (stop : Stop next) (label : UInt32) :
    Chain next [.label label] := by
  refine ⟨trivial, ?_, trivial⟩
  intro c hc
  obtain ⟨digit, less, -⟩ := stop.digits c hc
  simp [Lexeme.allows, digit, less]

theorem byte_le_maxInteger (b : UInt8) : b.toNat ≤ maxInteger := by
  have := b.toNat_lt
  rw [maxInteger]
  omega

theorem word_le_maxInteger (w : UInt32) : w.toNat ≤ maxInteger := by
  have := w.toNat_lt
  rw [maxInteger]
  omega

theorem isIdentifier_var (slot : UInt8) :
    Name.isIdentifier (Name.withNumber "var" slot.toNat).toList = true := by
  rw [Name.toList_withNumber]
  exact Name.isIdentifier_append_digits (by decide) (by decide) (Text.all_isDigit_toDigits _)

theorem isIdentifier_builtin (which : Builtin) : Name.isIdentifier which.name.toList = true := by
  cases which <;> decide

/-- Nothing but a space begins with a space. -/
theorem Lexeme.head_ne_space {l : Lexeme} (valid : l.Valid) (h : l ≠ .space) :
    ∀ c ∈ l.raw.head?, c ≠ ' ' := by
  intro c hc
  cases l with
  | word name =>
    exact ne_of_isPart (Name.isPart_of_mem_identifier valid c (List.mem_of_head? hc)) rfl
  | numeral n => exact ne_of_isPart (isPart_of_mem_toDigits (List.mem_of_head? hc)) rfl
  | literal text =>
    rw [raw, toList_quote] at hc
    cases hc
    decide
  | label number => cases hc; decide
  | bracket name => cases hc; decide
  | symbol s => cases s <;> cases hc <;> decide
  | space => exact absurd rfl h

/-- The first lexeme is no space. -/
def Opens (ls : List Lexeme) : Prop := ∃ l, ls.head? = some l ∧ l ≠ .space

/-- The last lexeme can end a line. -/
def Closes (ls : List Lexeme) : Prop := ∃ l, ls.getLast? = some l ∧ l.solid = true

theorem Opens.append {ls : List Lexeme} (h : Opens ls) (rest : List Lexeme) :
    Opens (ls ++ rest) := by
  obtain ⟨l, head, space⟩ := h
  exact ⟨l, by rw [List.head?_append, head]; rfl, space⟩

theorem Opens.front_ne_space {next : Option Char} {ls : List Lexeme} (h : Opens ls)
    (chain : Chain next ls) : ∀ c ∈ front next ls, c ≠ ' ' := by
  obtain ⟨l, head, space⟩ := h
  obtain ⟨rest, rfl⟩ := List.head?_eq_some_iff.mp head
  exact Lexeme.head_ne_space chain.1 space

theorem Closes.append {ls : List Lexeme} (h : Closes ls) (before : List Lexeme) :
    Closes (before ++ ls) := by
  obtain ⟨l, last, solid⟩ := h
  exact ⟨l, by rw [List.getLast?_append, last]; rfl, solid⟩

theorem Closes.cons {ls : List Lexeme} (h : Closes ls) (l : Lexeme) : Closes (l :: ls) :=
  h.append [l]

mutual

/-- A value begins with no space. -/
theorem Operand.opens : ∀ o : Operand, Opens o.lexemes
  | .int value => by
    rw [Operand.lexemes]
    split <;> exact ⟨_, rfl, Lexeme.noConfusion⟩
  | .str _ => ⟨_, rfl, Lexeme.noConfusion⟩
  | .bracket _ => ⟨_, rfl, Lexeme.noConfusion⟩
  | .flag _ => ⟨_, rfl, Lexeme.noConfusion⟩
  | .var _ => ⟨_, rfl, Lexeme.noConfusion⟩
  | .field object _ => object.opens.append _
  | .call _ _ => ⟨_, rfl, Lexeme.noConfusion⟩
  | .objectCall async object _ _ => by
    cases async with
    | true => exact ⟨_, rfl, Lexeme.noConfusion⟩
    | false => exact object.opens.append _

theorem Object.opens : ∀ o : Object, Opens o.lexemes
  | .builtin _ => ⟨_, rfl, Lexeme.noConfusion⟩
  | .named _ => ⟨_, rfl, Lexeme.noConfusion⟩
  | .dynamic value => value.opens

end

theorem Expr.opens (e : Expr) : Opens e.lexemes := by
  cases e with
  | last operand => exact operand.opens
  | more operand operator rest => exact operand.opens.append _

theorem furtherLexemes_closes (es : List Expr) : Closes (furtherLexemes es) := by
  induction es with
  | nil => exact ⟨_, rfl, rfl⟩
  | cons e es ih => exact (ih.append _).cons _

theorem argumentLexemes_closes (es : List Expr) : Closes (argumentLexemes es) := by
  cases es with
  | nil => exact ⟨_, rfl, rfl⟩
  | cons e es => exact (furtherLexemes_closes es).append _

theorem Operand.closes (o : Operand) : Closes o.lexemes := by
  cases o with
  | int value =>
    rw [Operand.lexemes]
    split <;> exact ⟨_, rfl, rfl⟩
  | field object reference =>
    exact Closes.append ⟨.word reference, rfl, rfl⟩ _
  | call routine arguments => exact ((argumentLexemes_closes arguments).cons _).cons _
  | objectCall async object routine arguments =>
    exact ((((argumentLexemes_closes arguments).cons _).cons _).cons _).append _
  | _ => exact ⟨_, rfl, rfl⟩

theorem Expr.closes : ∀ e : Expr, Closes e.lexemes
  | .last operand => operand.closes
  | .more _ _ rest => (((rest.closes.cons _).cons _).cons _).append _

theorem stop_furtherLexemes (next : Option Char) (es : List Expr) :
    Stop (front next (furtherLexemes es)) := by
  cases es <;> exact stop_some (by decide)

mutual

/-- The lexemes of a value do not run into each other. -/
theorem Operand.chain {next : Option Char} (stop : Stop next) :
    ∀ o : Operand, o.Spelled → Chain next o.lexemes
  | .int value, h => by
    have numeral : Chain next [.numeral value.natAbs] := chain_numeral stop h
    rw [Operand.lexemes]
    split
    · refine ⟨trivial, ?_, numeral⟩
      intro c hc
      have digit := Text.isDigit_of_mem_toDigits (List.mem_of_head? hc)
      simp [Lexeme.allows, Lexeme.symbolAllows, ne_of_isPart (Name.isPart_of_isDigit digit) (d := '=') rfl]
    · exact numeral
  | .str _, _ => ⟨trivial, fun _ _ => rfl, trivial⟩
  | .bracket name, h => by
    refine ⟨h, ?_, trivial⟩
    intro c hc
    obtain ⟨digit, less, equal⟩ := stop.digits c hc
    simp [Lexeme.allows, digit, less, equal]
  | .flag name, h => ⟨h, stop.word name, trivial⟩
  | .var slot, _ => ⟨isIdentifier_var slot, stop.word _, trivial⟩
  | .field object reference, h => by
    rw [Operand.lexemes, chain_append]
    exact ⟨object.chain (stop_some (by decide)) h.1, trivial, fun _ _ => rfl, h.2,
      stop.word reference, trivial⟩
  | .call routine arguments, h =>
    ⟨h.1, (stop_some (by decide)).word routine, trivial, fun _ _ => rfl,
      argumentLexemes_chain stop arguments h.2⟩
  | .objectCall async object routine arguments, h => by
    have member : Chain next (object.lexemes ++
        .symbol .dot :: .word routine :: .symbol .leftParen :: argumentLexemes arguments) := by
      rw [chain_append]
      exact ⟨object.chain (stop_some (by decide)) h.1, trivial, fun _ _ => rfl, h.2.1,
        (stop_some (by decide)).word routine, trivial, fun _ _ => rfl,
        argumentLexemes_chain stop arguments h.2.2⟩
    cases async with
    | false => exact member
    | true =>
      have async : Name.isIdentifier "async".toList = true := by decide
      exact ⟨async, (stop_some (by decide)).word "async", trivial, fun _ _ => rfl, member⟩

theorem Object.chain {next : Option Char} (stop : Stop next) :
    ∀ o : Object, o.Spelled → Chain next o.lexemes
  | .builtin which, _ => ⟨isIdentifier_builtin which, stop.word _, trivial⟩
  | .named _, _ => ⟨trivial, fun _ _ => rfl, trivial⟩
  | .dynamic value, h => value.chain stop h

theorem Expr.chain {next : Option Char} (stop : Stop next) :
    ∀ e : Expr, e.Spelled → Chain next e.lexemes
  | .last operand, h => operand.chain stop h
  | .more operand operator rest, h => by
    rw [Expr.lexemes, chain_append]
    refine ⟨operand.chain (stop_some (by decide)) h.1, trivial, fun _ _ => rfl, trivial, ?_, trivial,
      fun _ _ => rfl, rest.chain stop h.2⟩
    rintro c ⟨⟩
    cases operator <;> rfl

theorem argumentLexemes_chain {next : Option Char} (stop : Stop next) :
    ∀ es : List Expr, argumentsSpelled es → Chain next (argumentLexemes es)
  | [], _ => ⟨trivial, fun _ _ => rfl, trivial⟩
  | e :: es, h => by
    rw [argumentLexemes, chain_append]
    exact ⟨e.chain (stop_furtherLexemes next es) h.1, furtherLexemes_chain stop es h.2⟩

theorem furtherLexemes_chain {next : Option Char} (stop : Stop next) :
    ∀ es : List Expr, argumentsSpelled es → Chain next (furtherLexemes es)
  | [], _ => ⟨trivial, fun _ _ => rfl, trivial⟩
  | e :: es, h => by
    have rest : Chain next (e.lexemes ++ furtherLexemes es) := by
      rw [chain_append]
      exact ⟨e.chain (stop_furtherLexemes next es) h.1, furtherLexemes_chain stop es h.2⟩
    refine ⟨trivial, ?_, rest⟩
    intro c hc
    simp [Lexeme.allows, Lexeme.symbolAllows, (e.opens.append _).front_ne_space rest c hc]

end

/-! ### Reading the tokens of a value -/

section

variable (catalog : Catalog)

/-- The tokens that lexemes are read as, with ordinals for names in angle brackets. -/
def lineTokens (ls : List Lexeme) : List Token :=
  ls.flatMap fun l => (l.substituted catalog).tokens

@[simp] theorem lineTokens_nil : lineTokens catalog [] = [] := rfl

@[simp] theorem lineTokens_cons (l : Lexeme) (ls : List Lexeme) :
    lineTokens catalog (l :: ls) = (l.substituted catalog).tokens ++ lineTokens catalog ls := rfl

@[simp] theorem lineTokens_append (as bs : List Lexeme) :
    lineTokens catalog (as ++ bs) = lineTokens catalog as ++ lineTokens catalog bs :=
  List.flatMap_append

mutual

/-- An operand with ordinals for names in angle brackets, as it is read. -/
def Operand.plain : Operand → Operand
  | .bracket name => .int ((catalog.bracketed? name).getD 0)
  | .field object reference => .field object.plain reference
  | .call routine arguments => .call routine (argumentsPlain arguments)
  | .objectCall async object routine arguments =>
    .objectCall async object.plain routine (argumentsPlain arguments)
  | .int value => .int value
  | .str text => .str text
  | .flag name => .flag name
  | .var slot => .var slot

/-- An object with ordinals for names in angle brackets. -/
def Object.plain : Object → Object
  | .builtin which => .builtin which
  | .named name => .named name
  | .dynamic value => .dynamic value.plain

/-- An expression with ordinals for names in angle brackets. -/
def Expr.plain : Expr → Expr
  | .last operand => .last operand.plain
  | .more operand operator rest => .more operand.plain operator rest.plain

/-- Arguments with ordinals for names in angle brackets. -/
def argumentsPlain : List Expr → List Expr
  | [] => []
  | e :: es => e.plain :: argumentsPlain es

end

theorem length_argumentsPlain (es : List Expr) : (argumentsPlain catalog es).length = es.length := by
  induction es with
  | nil => rfl
  | cons e es ih => rw [argumentsPlain, List.length_cons, List.length_cons, ih]

mutual

/-- The text of an operand is not taken for that of another: a flag is not spelled like a variable,
a name in angle brackets is known and no marker, and no call in a value is marked `async`. -/
def Operand.Readable : Operand → Prop
  | .bracket name => name ≠ resultMarker ∧ ∃ n, catalog.bracketed? name = some n ∧ n ≤ maxInteger
  | .flag name => Name.slot? name = none
  | .field object _ => object.Readable
  | .call _ arguments => argumentsReadable arguments
  | .objectCall async object _ arguments =>
    async = false ∧ object.Readable ∧ argumentsReadable arguments
  | .int _ => True
  | .str _ => True
  | .var _ => True

/-- The text of an object is not taken for that of another. Only a flag or a variable can say which
object is meant. -/
def Object.Readable : Object → Prop
  | .builtin _ => True
  | .named _ => True
  | .dynamic (.flag name) => Name.slot? name = none ∧ Builtin.ofName? name = none
  | .dynamic (.var _) => True
  | .dynamic _ => False

/-- The text of an expression is not taken for that of another. -/
def Expr.Readable : Expr → Prop
  | .last operand => operand.Readable
  | .more operand _ rest => operand.Readable ∧ rest.Readable

/-- The text of arguments is not taken for that of others. -/
def argumentsReadable : List Expr → Prop
  | [] => True
  | e :: es => e.Readable ∧ argumentsReadable es

end

end

/-- Tokens that do not go on with a value that ends in front of them. -/
def Ended (ts : List Token) : Prop := ∀ t ∈ ts.head?, t ≠ .sym .leftParen ∧ t ≠ .sym .dot

/-- Tokens that do not go on with an expression either. -/
def ExprEnded (ts : List Token) : Prop :=
  ∀ t ∈ ts.head?, t ≠ .sym .leftParen ∧ t ≠ .sym .dot ∧ ∀ s, t = .sym s → s.operator? = none

theorem ExprEnded.ended {ts : List Token} (h : ExprEnded ts) : Ended ts :=
  fun t ht => ⟨(h t ht).1, (h t ht).2.1⟩

/-- Tokens in front of which an operand ends: nothing goes on with a number or with a call. -/
def Operand.EndsAt (ts : List Token) : Operand → Prop
  | .str _ => Ended ts
  | .flag _ => Ended ts
  | .var _ => Ended ts
  | .field _ _ => ∀ t ∈ ts.head?, t ≠ .sym .leftParen
  | _ => True

theorem Ended.endsAt {ts : List Token} (h : Ended ts) (o : Operand) : o.EndsAt ts := by
  cases o with
  | str => exact h
  | flag => exact h
  | var => exact h
  | field => exact fun t ht => (h t ht).1
  | _ => trivial

theorem ended_cons {t : Token} (h : t ≠ .sym .leftParen ∧ t ≠ .sym .dot) (ts : List Token) :
    Ended (t :: ts) := by
  rintro u ⟨⟩
  exact h

theorem exprEnded_sym {s : Symbol} (h : s ≠ .leftParen ∧ s ≠ .dot ∧ s.operator? = none)
    (ts : List Token) : ExprEnded (.sym s :: ts) := by
  rintro t ⟨⟩
  refine ⟨fun e => h.1 (Token.sym.inj e), fun e => h.2.1 (Token.sym.inj e), ?_⟩
  rintro u ⟨⟩
  exact h.2.2

theorem readOperand_name (n : Nat) (name : String) {ts : List Token} (ended : Ended ts) :
    readOperand (n + 1) (.ident name :: ts) = .ok (Operand.ofName name, ts) := by
  cases ts with
  | nil => rfl
  | cons t ts =>
    obtain ⟨paren, dot⟩ := ended t rfl
    unfold readOperand
    split <;> simp_all

theorem readOperand_text (n : Nat) (text : String) {ts : List Token} (ended : Ended ts) :
    readOperand (n + 1) (.str text :: ts) = .ok (.str text, ts) := by
  cases ts with
  | nil => rfl
  | cons t ts =>
    obtain ⟨-, dot⟩ := ended t rfl
    unfold readOperand
    split <;> simp_all

theorem readMember_field (n : Nat) (object : Object) (reference : String) {ts : List Token}
    (ended : ∀ t ∈ ts.head?, t ≠ .sym .leftParen) :
    readMember (n + 1) object (.ident reference :: ts) = .ok (.field object reference, ts) := by
  cases ts with
  | nil => rfl
  | cons t ts =>
    have paren := ended t rfl
    unfold readMember
    split <;> simp_all

theorem ofName?_withNumber_var (n : Nat) : Builtin.ofName? (Name.withNumber "var" n) = none := by
  have other : ∀ word : String, word.toList.head? ≠ some 'v' → Name.withNumber "var" n ≠ word := by
    rintro word h rfl
    exact h (by rw [Name.toList_withNumber]; rfl)
  rw [Builtin.ofName?, if_neg (other _ (by decide)), if_neg (other _ (by decide)),
    if_neg (other _ (by decide))]

variable {catalog : Catalog}

/-- The token of an object in front of a dot. -/
theorem Object.read_member {o : Object} (readable : o.Readable catalog) :
    ∃ t, lineTokens catalog o.lexemes = [t] ∧
      ∀ n ts, readOperand (n + 1) (t :: .sym .dot :: ts) = readMember n (o.plain catalog) ts := by
  match o, readable with
  | .builtin which, _ =>
    refine ⟨.ident which.name, rfl, fun n ts => ?_⟩
    rw [readOperand, Object.ofName, Builtin.ofName?_name, Object.plain]
  | .named name, _ => exact ⟨.str name, rfl, fun n ts => by rw [readOperand, Object.plain]⟩
  | .dynamic (.flag name), h =>
    refine ⟨.ident name, rfl, fun n ts => ?_⟩
    rw [readOperand, Object.ofName, h.2, Operand.ofName, h.1, Object.plain, Operand.plain]
  | .dynamic (.var slot), _ =>
    refine ⟨.ident (Name.withNumber "var" slot.toNat), rfl, fun n ts => ?_⟩
    rw [readOperand, Object.ofName, ofName?_withNumber_var, Operand.ofName, Name.slot?_withNumber,
      Object.plain, Operand.plain]

/-- Tokens that a value can begin with. -/
def Token.opens : Token → Bool
  | .ident _ => true
  | .int _ => true
  | .str _ => true
  | .sym .minus => true
  | _ => false

theorem Operand.first_token (o : Operand) (readable : o.Readable catalog) :
    ∃ t ts, lineTokens catalog o.lexemes = t :: ts ∧ t.opens = true := by
  have object : ∀ {o : Object} (rest : List Lexeme), o.Readable catalog →
      ∃ t ts, lineTokens catalog (o.lexemes ++ rest) = t :: ts ∧ t.opens = true := by
    intro o rest h
    match o, h with
    | .builtin _, _ => exact ⟨_, _, rfl, rfl⟩
    | .named _, _ => exact ⟨_, _, rfl, rfl⟩
    | .dynamic (.flag _), _ => exact ⟨_, _, rfl, rfl⟩
    | .dynamic (.var _), _ => exact ⟨_, _, rfl, rfl⟩
  cases o with
  | int value =>
    rw [Operand.lexemes]
    split <;> exact ⟨_, _, rfl, rfl⟩
  | bracket name =>
    obtain ⟨marker, -⟩ := readable
    exact ⟨.int _, [], by simp [Operand.lexemes, Lexeme.substituted, marker, Lexeme.tokens]; rfl, rfl⟩
  | field o reference => exact object _ readable
  | objectCall async o routine arguments =>
    obtain ⟨rfl, readable, -⟩ := readable
    exact object _ readable
  | _ => exact ⟨_, _, rfl, rfl⟩

theorem Expr.first_token (e : Expr) (readable : e.Readable catalog) :
    ∃ t ts, lineTokens catalog e.lexemes = t :: ts ∧ t.opens = true := by
  cases e with
  | last operand => exact operand.first_token readable
  | more operand operator e =>
    obtain ⟨t, ts, tokens, opens⟩ := operand.first_token readable.1
    rw [Expr.lexemes, lineTokens_append, tokens]
    exact ⟨t, _, rfl, opens⟩

/-- Arguments are read as one or more, unless there are none. -/
theorem readArguments_lexemes {es : List Expr} (readable : argumentsReadable catalog es) {n : Nat}
    {rest : List Token}
    (further : es ≠ [] → readFurther n (lineTokens catalog (argumentLexemes es) ++ rest) =
      .ok (argumentsPlain catalog es, rest)) :
    readArguments (n + 1) (lineTokens catalog (argumentLexemes es) ++ rest) =
      .ok (argumentsPlain catalog es, rest) := by
  cases es with
  | nil => rfl
  | cons e es =>
    rw [← further (List.cons_ne_nil e es)]
    unfold readArguments
    split
    · next ts h =>
      obtain ⟨t, us, tokens, opens⟩ := e.first_token readable.1
      rw [argumentLexemes, lineTokens_append, tokens] at h
      cases h
      cases opens
    · rfl

theorem exists_add_of_le {k n : Nat} (h : k ≤ n) : ∃ m, n = m + k := ⟨n - k, by omega⟩

mutual

/-- Reading the tokens of an operand gives the operand, and leaves what follows it. -/
theorem Operand.read_lexemes : ∀ (o : Operand), o.Readable catalog →
    ∀ (n : Nat) (rest : List Token), 2 * (lineTokens catalog o.lexemes).length ≤ n → o.EndsAt rest →
      readOperand n (lineTokens catalog o.lexemes ++ rest) = .ok (o.plain catalog, rest)
  | .int value, _, n, rest, fuel, ended => by
    rw [Operand.lexemes] at fuel ⊢
    split at fuel
    · next negative =>
      obtain ⟨n, rfl⟩ : ∃ m, n = m + 4 := exists_add_of_le fuel
      have back : -(value.natAbs : Int) = value := by omega
      rw [if_pos negative]
      exact congrArg (fun v => Except.ok (Operand.int v, rest)) back
    · next negative =>
      obtain ⟨n, rfl⟩ : ∃ m, n = m + 2 := exists_add_of_le fuel
      have back : (value.natAbs : Int) = value := by omega
      rw [if_neg negative]
      exact congrArg (fun v => Except.ok (Operand.int v, rest)) back
  | .str text, _, n, rest, fuel, ended => by
    obtain ⟨n, rfl⟩ : ∃ m, n = m + 2 := exists_add_of_le fuel
    exact readOperand_text _ text ended
  | .bracket name, h, n, rest, fuel, ended => by
    obtain ⟨marker, ordinal, known, -⟩ := h
    have tokens : lineTokens catalog (Operand.bracket name).lexemes = [.int ordinal] := by
      simp [Operand.lexemes, Lexeme.substituted, marker, Lexeme.tokens, known]
    rw [tokens] at fuel ⊢
    obtain ⟨n, rfl⟩ : ∃ m, n = m + 2 := exists_add_of_le fuel
    rw [Operand.plain, known]
    rfl
  | .flag name, h, n, rest, fuel, ended => by
    obtain ⟨n, rfl⟩ : ∃ m, n = m + 2 := exists_add_of_le fuel
    refine (readOperand_name _ name ended).trans ?_
    rw [Operand.ofName, show Name.slot? name = none from h, Operand.plain]
  | .var slot, _, n, rest, fuel, ended => by
    obtain ⟨n, rfl⟩ : ∃ m, n = m + 2 := exists_add_of_le fuel
    refine (readOperand_name _ _ ended).trans ?_
    rw [Operand.ofName, Name.slot?_withNumber, Operand.plain]
  | .field object reference, h, n, rest, fuel, ended => by
    obtain ⟨t, tokens, member⟩ := Object.read_member h
    rw [Operand.lexemes, lineTokens_append, tokens] at fuel ⊢
    obtain ⟨n, rfl⟩ : ∃ m, n = m + 6 := exists_add_of_le fuel
    refine (member _ _).trans ?_
    rw [Operand.plain]
    exact readMember_field _ _ reference ended
  | .call routine arguments, h, n, rest, fuel, ended => by
    have size : (lineTokens catalog (Operand.call routine arguments).lexemes).length =
        (lineTokens catalog (argumentLexemes arguments)).length + 2 := rfl
    obtain ⟨n, rfl⟩ : ∃ m, n = m + 2 := exists_add_of_le (by omega)
    have inner : readArguments (n + 1) (lineTokens catalog (argumentLexemes arguments) ++ rest) =
        .ok (argumentsPlain catalog arguments, rest) :=
      readArguments_lexemes h fun nonempty => readFurther_lexemes arguments nonempty h n rest (by omega)
    show readOperand (n + 2) (.ident routine :: .sym .leftParen ::
      (lineTokens catalog (argumentLexemes arguments) ++ rest)) = _
    rw [readOperand, inner, Operand.plain]
    rfl
  | .objectCall async object routine arguments, h, n, rest, fuel, ended => by
    obtain ⟨rfl, ho, ha⟩ := h
    obtain ⟨t, tokens, member⟩ := Object.read_member ho
    have all : lineTokens catalog (Operand.objectCall false object routine arguments).lexemes =
        t :: .sym .dot :: .ident routine :: .sym .leftParen ::
          lineTokens catalog (argumentLexemes arguments) := by
      rw [Operand.lexemes, List.append_assoc, lineTokens_append, lineTokens_append, tokens]
      rfl
    rw [all] at fuel ⊢
    simp only [List.length_cons] at fuel
    obtain ⟨n, rfl⟩ : ∃ m, n = m + 3 := exists_add_of_le (by omega)
    have inner : readArguments (n + 1) (lineTokens catalog (argumentLexemes arguments) ++ rest) =
        .ok (argumentsPlain catalog arguments, rest) :=
      readArguments_lexemes ha fun nonempty => readFurther_lexemes arguments nonempty ha n rest (by omega)
    simp only [List.cons_append]
    rw [member, readMember, inner, Operand.plain]
    rfl

/-- Reading the tokens of an expression gives the expression, and leaves what follows it. -/
theorem Expr.read_lexemes : ∀ (e : Expr), e.Readable catalog →
    ∀ (n : Nat) (rest : List Token), 2 * (lineTokens catalog e.lexemes).length < n → ExprEnded rest →
      readExpr n (lineTokens catalog e.lexemes ++ rest) = .ok (e.plain catalog, rest)
  | .last operand, h, n, rest, fuel, ended => by
    rw [Expr.lexemes] at fuel ⊢
    obtain ⟨n, rfl⟩ : ∃ m, n = m + 1 := exists_add_of_le (by omega)
    have first := operand.read_lexemes h n rest (by omega) (ended.ended.endsAt operand)
    rw [readExpr, first, Expr.plain]
    cases rest with
    | nil => rfl
    | cons t rest =>
      obtain ⟨-, -, operator⟩ := ended t rfl
      cases t with
      | sym s => simp only [bind, Except.bind, operator s rfl]; rfl
      | _ => rfl
  | .more operand operator e, h, n, rest, fuel, ended => by
    have all : lineTokens catalog (Expr.more operand operator e).lexemes ++ rest =
        lineTokens catalog operand.lexemes ++
          .sym (.ofOperator operator) :: (lineTokens catalog e.lexemes ++ rest) := by
      rw [Expr.lexemes, lineTokens_append, List.append_assoc]
      rfl
    have size : (lineTokens catalog (Expr.more operand operator e).lexemes).length =
        (lineTokens catalog operand.lexemes).length + (lineTokens catalog e.lexemes).length + 1 := by
      have := congrArg List.length all
      simp only [List.length_append, List.length_cons] at this
      omega
    obtain ⟨n, rfl⟩ : ∃ m, n = m + 1 := exists_add_of_le (by omega)
    have notEnd : Ended (.sym (.ofOperator operator) :: (lineTokens catalog e.lexemes ++ rest)) :=
      ended_cons (by cases operator <;> decide) _
    have first := operand.read_lexemes h.1 n _ (by omega) (notEnd.endsAt operand)
    have second := e.read_lexemes h.2 n rest (by omega) ended
    rw [all, readExpr, first, Expr.plain]
    simp only [bind, Except.bind, Symbol.operator?_ofOperator, second]
    rfl

theorem readFurther_lexemes : ∀ (es : List Expr), es ≠ [] →
    argumentsReadable catalog es → ∀ (n : Nat) (rest : List Token),
      2 * (lineTokens catalog (argumentLexemes es)).length ≤ n →
      readFurther n (lineTokens catalog (argumentLexemes es) ++ rest) =
        .ok (argumentsPlain catalog es, rest)
  | [e], _, h, n, rest, fuel => by
    have all : ∀ tail, lineTokens catalog (argumentLexemes [e]) ++ tail =
        lineTokens catalog e.lexemes ++ .sym .rightParen :: tail := by
      intro tail
      rw [argumentLexemes, lineTokens_append, List.append_assoc]
      rfl
    have size := congrArg List.length (all [])
    simp only [List.length_append, List.length_cons, List.length_nil] at size
    obtain ⟨n, rfl⟩ : ∃ m, n = m + 1 := exists_add_of_le (by omega)
    have notEnd : ExprEnded (.sym .rightParen :: rest) := exprEnded_sym (by decide) rest
    have first := e.read_lexemes h.1 n _ (by omega) notEnd
    rw [all, readFurther, first]
    rfl
  | e :: e' :: es, _, h, n, rest, fuel => by
    have all : ∀ tail, lineTokens catalog (argumentLexemes (e :: e' :: es)) ++ tail =
        lineTokens catalog e.lexemes ++
          .sym .comma :: (lineTokens catalog (argumentLexemes (e' :: es)) ++ tail) := by
      intro tail
      rw [argumentLexemes, lineTokens_append, List.append_assoc]
      rfl
    have size := congrArg List.length (all [])
    simp only [List.length_append, List.length_cons, List.length_nil] at size
    obtain ⟨n, rfl⟩ : ∃ m, n = m + 1 := exists_add_of_le (by omega)
    have notEnd : ExprEnded (.sym .comma ::
        (lineTokens catalog (argumentLexemes (e' :: es)) ++ rest)) := exprEnded_sym (by decide) _
    have first := e.read_lexemes h.1 n _ (by omega) notEnd
    have others := readFurther_lexemes (e' :: es) (List.cons_ne_nil e' es) h.2 n rest (by omega)
    rw [all, readFurther, first]
    simp only [bind, Except.bind, others]
    rfl

end

/-- Reading the tokens of an operand, whatever follows it in the line. -/
theorem Operand.read_tokens {o : Operand} (readable : o.Readable catalog) {rest : List Token}
    (ended : Ended rest) :
    Operand.read (lineTokens catalog o.lexemes ++ rest) = .ok (o.plain catalog, rest) := by
  refine o.read_lexemes readable _ rest ?_ (ended.endsAt o)
  rw [bound, List.length_append]
  omega

/-- Reading the tokens of an expression, whatever follows it in the line. -/
theorem Expr.read_tokens {e : Expr} (readable : e.Readable catalog) {rest : List Token}
    (ended : ExprEnded rest) :
    Expr.read (lineTokens catalog e.lexemes ++ rest) = .ok (e.plain catalog, rest) := by
  refine e.read_lexemes readable _ rest ?_ ended
  rw [bound, List.length_append]
  omega

/-! ### Names in angle brackets -/

/-- A name in angle brackets is the marker, or stands for a number that can be read. -/
def Lexeme.Meant (catalog : Catalog) (l : Lexeme) : Prop := l.Known catalog ∧ l.Small catalog

section

variable (catalog)

@[simp] theorem Lexeme.meant_word (name : String) : (word name).Meant catalog := ⟨trivial, trivial⟩

@[simp] theorem Lexeme.meant_numeral (n : Nat) : (numeral n).Meant catalog := ⟨trivial, trivial⟩

@[simp] theorem Lexeme.meant_literal (text : String) : (literal text).Meant catalog :=
  ⟨trivial, trivial⟩

@[simp] theorem Lexeme.meant_label (number : UInt32) : (label number).Meant catalog :=
  ⟨trivial, trivial⟩

@[simp] theorem Lexeme.meant_symbol (s : Symbol) : (symbol s).Meant catalog := ⟨trivial, trivial⟩

@[simp] theorem Lexeme.meant_space : space.Meant catalog := ⟨trivial, trivial⟩

@[simp] theorem Lexeme.meant_marker : (bracket resultMarker).Meant catalog := ⟨.inl rfl, .inl rfl⟩

end

theorem Object.meant {o : Object} (readable : o.Readable catalog) :
    ∀ l ∈ o.lexemes, l.Meant catalog := by
  match o, readable with
  | .builtin _, _ => simp [Object.lexemes]
  | .named _, _ => simp [Object.lexemes]
  | .dynamic (.flag _), _ => simp [Object.lexemes, Operand.lexemes]
  | .dynamic (.var _), _ => simp [Object.lexemes, Operand.lexemes]

mutual

theorem Operand.meant : ∀ o : Operand, o.Readable catalog → ∀ l ∈ o.lexemes, l.Meant catalog
  | .int value, _ => by
    rw [Operand.lexemes]
    split <;> simp
  | .str _, _ => by simp [Operand.lexemes]
  | .bracket name, h => by
    obtain ⟨-, ordinal, known, small⟩ := h
    have meant : (Lexeme.bracket name).Meant catalog := by
      refine ⟨.inr ?_, .inr ?_⟩
      · rw [known]
        rfl
      · rwa [known]
    simp [Operand.lexemes, meant]
  | .flag _, _ => by simp [Operand.lexemes]
  | .var _, _ => by simp [Operand.lexemes]
  | .field _ _, h => by
    rw [Operand.lexemes, List.forall_mem_append]
    exact ⟨Object.meant h, by simp⟩
  | .call _ arguments, h => by
    simp only [Operand.lexemes, List.forall_mem_cons, Lexeme.meant_word, Lexeme.meant_symbol, true_and]
    exact argumentLexemes_meant arguments h
  | .objectCall _ _ _ arguments, h => by
    obtain ⟨rfl, ho, ha⟩ := h
    simp only [Operand.lexemes, List.forall_mem_append, List.forall_mem_cons, Lexeme.meant_word,
      Lexeme.meant_symbol, true_and]
    exact ⟨⟨by simp, Object.meant ho⟩, argumentLexemes_meant arguments ha⟩

theorem Expr.meant : ∀ e : Expr, e.Readable catalog → ∀ l ∈ e.lexemes, l.Meant catalog
  | .last operand, h => operand.meant h
  | .more operand _ rest, h => by
    simp only [Expr.lexemes, List.forall_mem_append, List.forall_mem_cons, Lexeme.meant_space,
      Lexeme.meant_symbol, true_and]
    exact ⟨operand.meant h.1, rest.meant h.2⟩

theorem argumentLexemes_meant : ∀ es : List Expr, argumentsReadable catalog es →
    ∀ l ∈ argumentLexemes es, l.Meant catalog
  | [], _ => by simp [argumentLexemes]
  | e :: es, h => by
    rw [argumentLexemes, List.forall_mem_append]
    exact ⟨e.meant h.1, furtherLexemes_meant es h.2⟩

theorem furtherLexemes_meant : ∀ es : List Expr, argumentsReadable catalog es →
    ∀ l ∈ furtherLexemes es, l.Meant catalog
  | [], _ => by simp [furtherLexemes]
  | e :: es, h => by
    simp only [furtherLexemes, List.forall_mem_cons, List.forall_mem_append, Lexeme.meant_symbol,
      true_and]
    exact ⟨e.meant h.1, furtherLexemes_meant es h.2⟩

end

end Source

end EventScript
