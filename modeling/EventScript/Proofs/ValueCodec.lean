import EventScript.Proofs.RoundTrip

/-!
# Values in each kind of place

A `Slot` is a kind of place where a value stands: it says how the value is resolved, stored, read and shown there. The
bytes of a value that was resolved are read as this value wherever they stand, and the text that shows the value is read
as an expression which is resolved to the same value again, over any longer table of distinct strings
(`roundTrips_resolved`). The text is not a line: its comment is not cut off, so the spaces after its commas stay
(`tokens_rawText`).
-/

namespace EventScript

namespace Source

variable {catalog : Catalog}

/-! ### Texts with spaces after commas -/

theorem Lexeme.raw_eq_stripped {l : Lexeme} (other : l ≠ .symbol .comma) : l.raw = l.stripped := by
  cases l with
  | symbol s => exact raw_symbol_of_ne fun comma => other (by rw [comma])
  | _ => rfl

theorem Lexeme.substituted_ne_comma {l : Lexeme} (other : l ≠ .symbol .comma) :
    l.substituted catalog ≠ .symbol .comma := by
  cases l with
  | bracket name =>
    rw [substituted]
    split <;> exact Lexeme.noConfusion
  | _ => exact other

theorem substitute_raw {l : Lexeme} (valid : l.Valid) (known : l.Known catalog) {rest out : List Char}
    (follow : ∀ c ∈ rest.head?, l.allows c = true) (h : substitute catalog .outside 0 rest = .ok out) :
    substitute catalog .outside 0 (l.raw ++ rest) = .ok ((l.substituted catalog).raw ++ out) := by
  by_cases comma : l = .symbol .comma
  · subst comma
    exact substitute_quiet (forall_mem_of_all (by decide)) h
  · rw [Lexeme.raw_eq_stripped comma, Lexeme.raw_eq_stripped (Lexeme.substituted_ne_comma comma)]
    exact substitute_lexeme valid known follow h

theorem substituteBrackets_rawText {ls : List Lexeme} (chain : Chain none ls) (known : ∀ l ∈ ls, l.Known catalog) :
    substituteBrackets catalog (rawText ls) = .ok (rawText (ls.map (Lexeme.substituted catalog))) := by
  rw [substituteBrackets]
  induction ls with
  | nil => rfl
  | cons l ls ih =>
    obtain ⟨valid, follow, chain⟩ := chain
    obtain ⟨first, others⟩ := List.forall_mem_cons.mp known
    rw [rawText_cons, List.map_cons, rawText_cons]
    exact substitute_raw valid first (by rwa [head?_rawText chain]) (ih chain others)

/-- The text of lexemes is read as their tokens, also with spaces after commas. -/
theorem tokens_rawText {ls : List Lexeme} (chain : Chain none ls) :
    tokens (rawText ls) = .ok (ls.flatMap Lexeme.tokens) := by
  induction ls with
  | nil => rw [rawText_nil, tokens]; rfl
  | cons l ls ih =>
    obtain ⟨valid, follow, chain⟩ := chain
    rw [rawText_cons, List.flatMap_cons]
    by_cases comma : l = .symbol .comma
    · subst comma
      refine tokens_symbol (c := ',') rfl (fun less => ?_) (fun pair => ?_) (tokens_space (ih chain))
      · exact absurd less (by decide)
      · exact absurd pair (by decide)
    · rw [Lexeme.raw_eq_stripped comma]
      exact tokens_lexeme valid (by rwa [head?_rawText chain]) (ih chain)

/-- The text of an expression is read as the expression, with ordinals for names in angle brackets. -/
theorem Expr.read_print {e : Expr} (spelled : e.Spelled) (readable : e.Readable catalog) :
    ∃ text ts, substituteBrackets catalog e.print.toList = .ok text ∧ tokens text = .ok ts ∧
      Expr.read ts = .ok (e.plain catalog, []) := by
  have chain := Expr.chain stop_none e spelled
  have meant := e.meant readable
  have replaced := substituteBrackets_rawText chain fun l mem => (meant l mem).1
  have cut := tokens_rawText (chain_substituted chain fun l mem => (meant l mem).2)
  have read : Expr.read (lineTokens catalog e.lexemes ++ []) = .ok (e.plain catalog, []) :=
    Expr.read_tokens readable Code.exprEnded_nil
  rw [← e.print_eq] at replaced
  rw [List.flatMap_map] at cut
  rw [List.append_nil] at read
  exact ⟨_, _, replaced, cut, read⟩

/-! ### The routines that a value calls -/

mutual

/-- The names of the routines that an operand calls. -/
def Operand.calls : Operand → List String
  | .field object _ => object.calls
  | .call routine arguments => routine :: argumentCalls arguments
  | .objectCall _ object routine arguments => object.calls ++ routine :: argumentCalls arguments
  | .int _ => []
  | .str _ => []
  | .bracket _ => []
  | .flag _ => []
  | .var _ => []

/-- The names of the routines that the choice of an object calls. -/
def Object.calls : Object → List String
  | .builtin _ => []
  | .named _ => []
  | .dynamic value => value.calls

/-- The names of the routines that an expression calls. -/
def Expr.calls : Expr → List String
  | .last operand => operand.calls
  | .more operand _ rest => operand.calls ++ rest.calls

/-- The names of the routines that arguments call. -/
def argumentCalls : List Expr → List String
  | [] => []
  | e :: es => e.calls ++ argumentCalls es

end

variable {P Q : String → Prop}

mutual

theorem Operand.Proper.of_calls : ∀ {o : Operand}, o.Proper Q → (∀ name ∈ o.calls, P name) → o.Proper P
  | .field _ _, h, _ => h
  | .call _ _, h, called => by
    obtain ⟨first, others⟩ := List.forall_mem_cons.mp called
    exact ⟨first, argumentsProper.of_calls h.2 others⟩
  | .objectCall _ _ _ _, h, called => by
    obtain ⟨first, others⟩ := List.forall_mem_cons.mp (List.forall_mem_append.mp called).2
    exact ⟨h.1, first, argumentsProper.of_calls h.2.2 others⟩
  | .int _, _, _ => trivial
  | .str _, _, _ => trivial
  | .bracket _, _, _ => trivial
  | .flag _, _, _ => trivial
  | .var _, _, _ => trivial

theorem Expr.Proper.of_calls : ∀ {e : Expr}, e.Proper Q → (∀ name ∈ e.calls, P name) → e.Proper P
  | .last _, h, called => Operand.Proper.of_calls h called
  | .more _ _ _, h, called => by
    obtain ⟨first, others⟩ := List.forall_mem_append.mp called
    exact ⟨Operand.Proper.of_calls h.1 first, Expr.Proper.of_calls h.2 others⟩

theorem argumentsProper.of_calls : ∀ {es : List Expr}, argumentsProper Q es → (∀ name ∈ argumentCalls es, P name) →
    argumentsProper P es
  | [], _, _ => trivial
  | _ :: _, h, called => by
    obtain ⟨first, others⟩ := List.forall_mem_append.mp called
    exact ⟨Expr.Proper.of_calls h.1 first, argumentsProper.of_calls h.2 others⟩

end

/-- An expression that was read and calls only routines with the property is proper. -/
theorem Expr.proper_of_read {ts rest : List Token} {e : Expr} (parsed : Expr.read ts = .ok (e, rest))
    (called : ∀ name ∈ e.calls, P name) : e.Proper P :=
  ((readExpr_spec (P := fun _ => True) _ _ _ parsed).2 fun _ _ => trivial).of_calls called

end Source

namespace Code

open Assembly

/-- A kind of place where a value stands. -/
structure Slot (V : Type) where
  /-- What an expression is resolved to. -/
  resolve : Catalog → Source.Expr → Resolve V
  encode : V → Bytes
  /-- Reads a value of a unit with so many strings, to a depth. -/
  read : (strings depth : Nat) → Reader V
  toSource : Names → V → Source.Expr
  /-- What may follow the bytes of a value. -/
  ends : Bytes → Prop

/-- Both sides of a comparison, and what is assigned: operators go on with the value. -/
def Slot.formula : Slot Formula where
  resolve := resolveFormula
  encode := Formula.encode
  read := readFormula
  toSource names f := f.toSource names
  ends := Quiet

/-- A value without operators: a padded argument of a routine, which may stand for something, or a packed value that
chooses an object. -/
def Slot.operand (layout : Layout) (kind : Option ArgumentKind) : Slot Operand where
  resolve catalog e := resolveArgument catalog kind e
  encode o := o.encode layout
  read strings depth := readOperand strings depth layout
  toSource names o := .last (o.toSource names kind)
  ends _ := True

/-- The bytes of a value are read as the value and no more bytes are taken. The text that shows it is read as an
expression that is resolved to the value, and no string is added. -/
structure Slot.RoundTrips {V : Type} (slot : Slot V) (catalog : Catalog) (strings : List String) (v : V) : Prop where
  reads : ∀ (tail : Bytes) (depth : Nat), slot.ends tail → (slot.encode v).length < depth →
    Reads (slot.read strings.length depth) (slot.encode v) v tail
  again : ∃ text ts e, Source.substituteBrackets catalog (slot.toSource ⟨catalog, strings⟩ v).print.toList = .ok text ∧
    Source.tokens text = .ok ts ∧ Source.Expr.read ts = .ok (e, []) ∧ Yields (slot.resolve catalog e) strings v strings

theorem Formula.roundTrips (names : Names) (sound : names.catalog.Sound) (faithful : names.catalog.Faithful)
    (distinct : names.strings.Nodup) {f : Formula} (fits : f.Fits names.strings.length) (textual : f.Textual)
    (settled : ∀ part ∈ f.parts names, Settled part) : Slot.formula.RoundTrips names.catalog names.strings f where
  reads tail depth quiet := f.reads_encode quiet fits depth
  again := by
    obtain ⟨text, ts, replaced, read, parsed⟩ :=
      Source.Expr.read_print (f.toSource_spelled sound) (f.toSource_readable sound faithful textual)
    have resolved := f.yields_normal faithful fits fun part mem => (settled part mem).short
    rw [f.normal_self distinct fits settled] at resolved
    exact ⟨text, ts, _, replaced, read, parsed, resolved⟩

theorem Operand.roundTrips (names : Names) (sound : names.catalog.Sound) (faithful : names.catalog.Faithful)
    (distinct : names.strings.Nodup) (layout : Layout) {kind : Option ArgumentKind} {o : Operand}
    (fits : o.Fits names.strings.length) (textual : o.Textual) (settled : ∀ part ∈ o.parts names kind, Settled part) :
    (Slot.operand layout kind).RoundTrips names.catalog names.strings o where
  reads tail depth _ enough := o.reads_encode fits layout depth (Nat.le_of_lt enough) tail
  again := by
    have spelled : (Source.Expr.last (o.toSource names kind)).Spelled := o.toSource_spelled sound kind
    have readable : (Source.Expr.last (o.toSource names kind)).Readable names.catalog :=
      o.toSource_readable sound faithful kind textual
    obtain ⟨text, ts, replaced, read, parsed⟩ := Source.Expr.read_print spelled readable
    have resolved := o.yields_normal faithful kind fits fun part mem => (settled part mem).short
    rw [o.normal_self distinct kind fits settled] at resolved
    exact ⟨text, ts, _, replaced, read, parsed, resolved⟩

/-- Only an operand by itself is resolved as an argument. -/
theorem resolveArgument_spec {names : Names} {P : String → Prop} {kind : Option ArgumentKind} {e : Source.Expr}
    {s s' : List String} {o : Operand} (proper : e.Proper P) (h : Yields (resolveArgument names.catalog kind e) s o s') :
    s <+: s' ∧ Resolved names.catalog P (o.Fits s'.length) o.Textual (o.parts names kind) := by
  cases e with
  | last operand =>
    rw [resolveArgument] at h
    exact resolveOperand_spec proper h
  | more operand operator rest =>
    rw [resolveArgument] at h
    obtain ⟨_, _, _, ⟨⟩⟩ := yields_bind.mp h

/-- In a catalog whose names stand for the ordinals they are shown for, every value that an expression is resolved to is
read from its bytes, wherever they stand, and is given back by its text. The strings of the unit may have become more,
if they are distinct. Routines with a name are called by it. -/
theorem roundTrips_resolved {sources : Catalog.Sources} {catalog : Catalog}
    (accepted : (Catalog.ofSources sources).result = .ok catalog) (faithful : catalog.Faithful)
    {ts rest : List Source.Token} {e : Source.Expr} (parsed : Source.Expr.read ts = .ok (e, rest))
    (called : ∀ name ∈ e.calls, ¬catalog.Aliases name) {before after strings : List String}
    (longer : after <+: strings) (distinct : strings.Nodup) :
    (∀ f, Yields (Slot.formula.resolve catalog e) before f after → Slot.formula.RoundTrips catalog strings f) ∧
    ∀ layout kind o, Yields ((Slot.operand layout kind).resolve catalog e) before o after →
      (Slot.operand layout kind).RoundTrips catalog strings o := by
  have sound := Catalog.sound_ofSources accepted
  have proper : e.Proper fun name => ¬catalog.Aliases name := Source.Expr.proper_of_read parsed called
  have keeps : ∀ name, ¬catalog.Aliases name → catalog.KeepsKinds name := fun _ => sound.keepsKinds
  have few := longer.length_le
  constructor
  · intro f resolved
    obtain ⟨-, made⟩ := @resolveFormula_spec ⟨catalog, strings⟩ _ _ _ _ _ proper resolved
    exact Formula.roundTrips ⟨catalog, strings⟩ sound faithful distinct (made.fits.mono few) made.textual
      (made.settled keeps)
  · intro layout kind o resolved
    obtain ⟨-, made⟩ := @resolveArgument_spec ⟨catalog, strings⟩ _ _ _ _ _ _ proper resolved
    exact Operand.roundTrips ⟨catalog, strings⟩ sound faithful distinct layout (made.fits.mono few) made.textual
      (made.settled keeps)

/-- The tokens of `Message("hi") + "Bo".Height * HasItem(7) - var2.Walk(GateOpen, -3)`. -/
def visitTokens : List Source.Token :=
  [.ident "Message", .sym .leftParen, .str "hi", .sym .rightParen, .sym .plus, .str "Bo", .sym .dot, .ident "Height",
    .sym .times, .ident "HasItem", .sym .leftParen, .int 7, .sym .rightParen, .sym .minus, .ident "var2", .sym .dot,
    .ident "Walk", .sym .leftParen, .ident "GateOpen", .sym .comma, .sym .minus, .int 3, .sym .rightParen]

/-- The formula of the tokens. A dialogue label and an item are stored as arguments of their kinds. -/
def visitFormula : Formula :=
  .more (.call 2 [.flexible 0]) .add <| .more (.field (.named 1) 1) .mul <| .more (.call 4 [.flexible 7]) .sub <|
    .last (.objectCall (.dynamic (.var 2)) .function 5 [.flag 3, .literal (-3)])

/-- A formula with most kinds of values, and an item as an argument. -/
theorem roundTrips_resolved_visit :
    Slot.formula.RoundTrips .village ["hi", "Bo", "later"] visitFormula ∧
    (Slot.operand .padded (some .item)).RoundTrips .village ["hi", "Bo", "later"] (.flexible 7) := by
  have distinct : ["hi", "Bo", "later"].Nodup := by decide
  have longer : ["hi", "Bo"] <+: ["hi", "Bo", "later"] := by decide
  constructor
  · obtain ⟨e, parsed, called, resolved⟩ : ∃ e, Source.Expr.read visitTokens = .ok (e, []) ∧
        (∀ name ∈ e.calls, ¬Catalog.village.Aliases name) ∧
        Yields (Slot.formula.resolve .village e) [] visitFormula ["hi", "Bo"] :=
      ⟨_, rfl, by decide +kernel, rfl⟩
    exact (roundTrips_resolved Catalog.village_accepted Catalog.village_clean parsed called longer distinct).1 _
      resolved
  · have parsed : Source.Expr.read [.int 7] = .ok (.last (.int 7), []) := rfl
    have resolved : Yields ((Slot.operand .padded (some .item)).resolve .village (.last (.int 7))) ["hi", "Bo"]
      (.flexible 7) ["hi", "Bo"] := rfl
    exact (roundTrips_resolved Catalog.village_accepted Catalog.village_clean parsed (by decide) longer distinct).2
      _ _ _ resolved

end Code

end EventScript
