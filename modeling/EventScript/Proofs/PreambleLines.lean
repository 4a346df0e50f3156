import EventScript.Proofs.Running

/-!
# Listings of a preamble assembled again

The lines that a listing shows in front of a body set the fields of the unit to what they were
(`runs_preamble`). Zeros that the listing leaves out are what assembly puts there by itself.
-/

namespace EventScript

namespace Source

variable {catalog : Catalog}

/-- The lexemes of values with commas between them. -/
def separatedLexemes : List Operand → List Lexeme
  | [] => []
  | [o] => o.lexemes
  | o :: o' :: os => o.lexemes ++ .symbol .comma :: separatedLexemes (o' :: os)

theorem intercalate_eq : ∀ os : List Operand,
    (", ".intercalate (os.map Operand.print)).toList = rawText (separatedLexemes os)
  | [] => rfl
  | [o] => by
    rw [List.map_singleton, String.intercalate_singleton, separatedLexemes, o.print_eq]
  | o :: o' :: os => by
    have rest := intercalate_eq (o' :: os)
    rw [List.map_cons] at rest
    rw [List.map_cons, List.map_cons, String.intercalate_cons_cons, String.toList_append,
      String.toList_append, rest, o.print_eq, separatedLexemes, rawText_append, rawText_cons,
      List.append_assoc]
    rfl

theorem separatedLexemes_opens : ∀ os : List Operand, os ≠ [] → Opens (separatedLexemes os)
  | [], h => absurd rfl h
  | [o], _ => o.opens
  | o :: _ :: _, _ => o.opens.append _

theorem separatedLexemes_closes : ∀ os : List Operand, os ≠ [] → Closes (separatedLexemes os)
  | [], h => absurd rfl h
  | [o], _ => o.closes
  | _ :: o :: os, _ => ((separatedLexemes_closes (o :: os) (by simp)).cons _).append _

theorem separatedLexemes_chain {next : Option Char} (stop : Stop next) :
    ∀ os : List Operand, (∀ o ∈ os, o.Spelled) → Chain next (separatedLexemes os)
  | [], _ => trivial
  | [o], h => o.chain stop (h o (List.mem_singleton_self o))
  | o :: o' :: os, h => by
    obtain ⟨first, others⟩ := List.forall_mem_cons.mp h
    have rest := separatedLexemes_chain stop (o' :: os) others
    rw [separatedLexemes, chain_append]
    refine ⟨o.chain (stop_some (by decide)) first, trivial, ?_, rest⟩
    intro c hc
    have ne := (separatedLexemes_opens (o' :: os) (by simp)).front_ne_space rest c hc
    simp [Lexeme.allows, Lexeme.symbolAllows, ne]

theorem separatedLexemes_meant : ∀ os : List Operand, (∀ o ∈ os, o.Readable catalog) →
    ∀ l ∈ separatedLexemes os, l.Meant catalog
  | [], _ => by simp [separatedLexemes]
  | [o], h => o.meant (h o (List.mem_singleton_self o))
  | o :: o' :: os, h => by
    obtain ⟨first, others⟩ := List.forall_mem_cons.mp h
    simp only [separatedLexemes, List.forall_mem_append, List.forall_mem_cons, Lexeme.meant_symbol,
      true_and]
    exact ⟨o.meant first, separatedLexemes_meant (o' :: os) others⟩

/-- A line that gives a value to a name can be read. -/
theorem legible_setting {key : String} (word : Name.isIdentifier key.toList = true) {ls : List Lexeme}
    (chain : ∀ next, Stop next → Chain next ls) (closes : Closes ls)
    (meant : ∀ l ∈ ls, l.Meant catalog) :
    Legible catalog (.word key :: .space :: .symbol .equal :: .space :: ls) := by
  refine ⟨⟨fun next stop => ⟨word, (stop_some (by decide)).word key, trivial, fun _ _ => rfl, trivial,
    fun _ _ => rfl, trivial, fun _ _ => rfl, chain next stop⟩, ?_⟩, ?_⟩
  · exact Code.Starts.bounded ⟨_, rfl, rfl⟩ (((closes.cons _).cons _).cons _ |>.cons _)
  · simpa using meant

/-- A line is made up of lexemes, the first of which is a word. -/
structure WordLine (catalog : Catalog) (raw key : String) (ls : List Lexeme) : Prop where
  legible : Legible catalog (.word key :: ls)
  text : raw.toList = rawText (.word key :: ls)

theorem WordLine.prepared {raw key : String} {ls : List Lexeme} (line : WordLine catalog raw key ls) :
    ∃ text, Source.prepared catalog raw.toList = .ok (some text) ∧
      tokens text = .ok (lineTokens catalog (.word key :: ls)) := by
  have prepared := line.legible.prepared 0 .none
  rwa [List.replicate_zero, List.nil_append, List.append_nil, ← line.text] at prepared

theorem wordLine_setting {key : String} (word : Name.isIdentifier key.toList = true) {ls : List Lexeme}
    (chain : ∀ next, Stop next → Chain next ls) (closes : Closes ls)
    (meant : ∀ l ∈ ls, l.Meant catalog) {value : String} (h : value.toList = rawText ls) :
    WordLine catalog (key ++ " = " ++ value) key (.space :: .symbol .equal :: .space :: ls) :=
  ⟨legible_setting word chain closes meant, by simp [h, Lexeme.raw, Symbol.text]⟩

theorem wordLine_number {key : String} (word : Name.isIdentifier key.toList = true) {n : Nat}
    (small : n ≤ maxInteger) :
    WordLine catalog (key ++ " = " ++ Text.decimal n) key [.space, .symbol .equal, .space, .numeral n] :=
  wordLine_setting word (fun _ stop => chain_numeral stop small) ⟨_, rfl, rfl⟩ (by simp)
    (by simp [Lexeme.raw])

theorem wordLine_label {key : String} (word : Name.isIdentifier key.toList = true) (label : UInt32) :
    WordLine catalog (key ++ " = " ++ Code.labelText label) key
      [.space, .symbol .equal, .space, .label label] := by
  refine wordLine_setting word (fun _ stop => chain_label stop label) ⟨_, rfl, rfl⟩ (by simp) ?_
  rw [rawText_cons, rawText_nil, List.append_nil, Code.raw_label]

theorem wordLine_strings {texts : List String} (h : texts ≠ []) :
    WordLine catalog ("strings = " ++ ", ".intercalate (texts.map quote)) "strings"
      (.space :: .symbol .equal :: .space :: separatedLexemes (texts.map Operand.str)) := by
  have nonempty : texts.map Operand.str ≠ [] := by simpa using h
  have print : texts.map quote = (texts.map Operand.str).map Operand.print := by
    rw [List.map_map]
    rfl
  have line : "strings = " ++ ", ".intercalate (texts.map quote) =
      "strings" ++ " = " ++ ", ".intercalate (texts.map quote) := rfl
  rw [line, print]
  refine wordLine_setting (by decide) ?_ (separatedLexemes_closes _ nonempty) ?_ (intercalate_eq _)
  · intro next stop
    exact separatedLexemes_chain stop _ (by simp [Operand.Spelled])
  · exact separatedLexemes_meant _ (by simp [Operand.Readable])

theorem wordLine_unit (catalog : Catalog) (name : String) :
    WordLine catalog ("unit " ++ quote name) "unit" [.space, .literal name] := by
  have word : Name.isIdentifier "unit".toList = true := by decide
  have text : "unit ".toList = "unit".toList ++ [' '] := by decide
  refine ⟨⟨⟨fun next _ => ⟨word, (stop_some (by decide)).word _, trivial, fun _ _ => rfl, trivial,
    fun _ _ => rfl, trivial⟩, ⟨_, _, rfl, rfl, rfl, rfl⟩⟩, by simp⟩, ?_⟩
  simp [text, Lexeme.raw]

end Source

namespace Assembly

open Source

variable {catalog : Catalog}

/-- The lines take one preamble to another. -/
def PreambleRuns (catalog : Catalog) (raws : List String) (p p' : Preamble) : Prop :=
  ∀ (map : String) (s : State) (name : String),
    Runs catalog map raws { s with phase := .preamble name p } { s with phase := .preamble name p' }

theorem preambleRuns_nil (p : Preamble) : PreambleRuns catalog [] p p := fun _ _ _ => runs_nil _

theorem PreambleRuns.append {as bs : List String} {p q r : Preamble} (h : PreambleRuns catalog as p q)
    (h' : PreambleRuns catalog bs q r) : PreambleRuns catalog (as ++ bs) p r :=
  fun map s name => (h map s name).append (h' map s name)

/-- A line that begins with a word sets what the word says. -/
theorem preambleRuns_line {key raw : String} {ls : List Lexeme} {p p' : Preamble}
    (line : WordLine catalog raw key ls)
    (set : p.set catalog key (lineTokens catalog ls) = .ok (p', [])) :
    PreambleRuns catalog [raw] p p' := by
  intro map s name
  obtain ⟨line, prepared, tokens⟩ := line.prepared
  refine runs_line prepared fun n k => ⟨n, ?_⟩
  have notBrace : line ≠ ['{'] := by
    rintro rfl
    have same := (tokens_single .leftBrace).symm.trans tokens
    cases same
  have read : p.read catalog line = .ok p' := by
    rw [Preamble.read, tokens]
    show (p.set catalog key (lineTokens catalog ls) >>= _) = _
    rw [set]
    rfl
  simp only [State.step, State.prepare, if_neg notBrace, read]
  rfl

/-- A line that gives a number to a name. -/
theorem preambleRuns_number {key : String} (word : Name.isIdentifier key.toList = true) {n : Nat}
    (small : n ≤ maxInteger) {p p' : Preamble}
    (set : p.set catalog key [.sym .equal, .int n] = .ok (p', [])) :
    PreambleRuns catalog [key ++ " = " ++ Text.decimal n] p p' :=
  preambleRuns_line (wordLine_number word small) set

theorem wordIn_toNat (e : Source.Fault) (w : UInt32) : wordIn e w.toNat = .ok w := by
  have := w.toNat_lt
  rw [wordIn, if_pos (by omega), Int.toNat_natCast, UInt32.ofNat_toNat]

theorem preambleRuns_instances (p : Preamble) (instances : UInt32) :
    PreambleRuns catalog ["instances = " ++ Text.decimal instances.toNat] p
      { p with instances := instances } := by
  have line : "instances = " ++ Text.decimal instances.toNat =
      "instances" ++ " = " ++ Text.decimal instances.toNat := rfl
  rw [line]
  refine preambleRuns_number (by decide) (word_le_maxInteger instances) ?_
  show (wordIn (.instanceRange instances.toNat) instances.toNat >>= _) = _
  rw [wordIn_toNat]
  rfl

theorem preambleRuns_kind (p : Preamble) (kind : UInt8) :
    PreambleRuns catalog ["kind = " ++ Text.decimal kind.toNat] p { p with kind := kind } := by
  have line : "kind = " ++ Text.decimal kind.toNat = "kind" ++ " = " ++ Text.decimal kind.toNat := rfl
  rw [line]
  refine preambleRuns_number (by decide) (byte_le_maxInteger kind) ?_
  show (byteOf .kind kind.toNat >>= _) = _
  rw [Code.byteOf_toNat]
  rfl

/-- An attribute is set by a line that gives a value to its name in a listing. -/
structure SetsAttribute (catalog : Catalog) (index : Nat) : Prop where
  other : catalog.printedName .attr index ∉ Catalog.preambleKeys
  resolved : catalog.resolve .attr (catalog.printedName .attr index) = .ok index

theorem preambleRuns_attribute (sound : catalog.Sound) (p : Preamble) {index : Nat}
    (sets : SetsAttribute catalog index) (value : UInt8) :
    PreambleRuns catalog [catalog.printedName .attr index ++ " = " ++ Text.decimal value.toNat] p
      { p with attributes := p.attributes.set index value } := by
  have word := Code.isIdentifier_of_isDefinable (sound.printedName_definable .attr index)
  refine preambleRuns_number word (byte_le_maxInteger value) ?_
  have other := sets.other
  simp only [Catalog.preambleKeys, List.mem_cons, List.not_mem_nil, or_false, not_or] at other
  obtain ⟨notInstances, notKind, notEntry, notStrings, notVariables⟩ := other
  rw [Preamble.set, if_neg notInstances, if_neg notKind, if_neg notEntry, if_neg notStrings,
    if_neg notVariables, sets.resolved]
  show (byteOf .attributeValue value.toNat >>= _) = _
  rw [Code.byteOf_toNat]
  rfl

theorem preambleRuns_entry (p : Preamble) (entry : UInt32) :
    PreambleRuns catalog ["entry = " ++ if entry = 0 then "0" else Code.labelText entry] p
      { p with
        entry := if entry = 0 then some 0 else p.entry
        entryLabel := if entry = 0 then p.entryLabel else some entry } := by
  have word : Name.isIdentifier "entry".toList = true := by decide
  by_cases zero : entry = 0
  · simp only [if_pos zero]
    have line : "entry = " ++ "0" = "entry" ++ " = " ++ Text.decimal 0 := by decide
    rw [line]
    exact preambleRuns_number word (by decide) rfl
  · simp only [if_neg zero]
    have line : "entry = " ++ Code.labelText entry = "entry" ++ " = " ++ Code.labelText entry := rfl
    rw [line]
    exact preambleRuns_line (wordLine_label word entry) rfl

theorem readStrings_tokens : ∀ texts : List String, texts ≠ [] →
    readStrings (lineTokens catalog (separatedLexemes (texts.map Operand.str))) = .ok texts
  | [], h => absurd rfl h
  | [text], _ => rfl
  | text :: text' :: texts, _ => by
    have rest := readStrings_tokens (text' :: texts) (by simp)
    rw [List.map_cons] at rest
    rw [List.map_cons, List.map_cons, separatedLexemes, lineTokens_append]
    show (readStrings (lineTokens catalog (separatedLexemes (.str text' :: texts.map Operand.str))) >>= _) = _
    rw [rest]
    rfl

theorem preambleRuns_strings (p : Preamble) {texts : List String} (h : texts ≠ []) :
    PreambleRuns catalog ["strings = " ++ ", ".intercalate (texts.map quote)] p
      { p with strings := p.strings ++ texts } := by
  refine preambleRuns_line (wordLine_strings h) ?_
  show (readStrings (lineTokens catalog (separatedLexemes (texts.map Operand.str))) >>= _) = _
  rw [readStrings_tokens texts h]
  rfl

/-- The values of variables as a listing shows them. -/
def valueOperands (values : List Int32) : List Operand := values.map fun v => .int v.toInt

/-- A value is read with the sign in front of it. -/
theorem readValues_tokens : ∀ values : List Int32, values ≠ [] →
    readValues (lineTokens catalog (separatedLexemes (valueOperands values))) = .ok values
  | [], h => absurd rfl h
  | [v], _ => by
    have word := Code.wordOf_toInt v
    show readValues (lineTokens catalog (Operand.int v.toInt).lexemes) = _
    rw [Operand.lexemes]
    split
    · next negative =>
      have same : -(v.toInt.natAbs : Int) = v.toInt := by omega
      show (wordOf (-(v.toInt.natAbs : Int)) >>= _) = _
      rw [same, word]
      rfl
    · next nonnegative =>
      have same : (v.toInt.natAbs : Int) = v.toInt := by omega
      show (wordOf (v.toInt.natAbs : Int) >>= _) = _
      rw [same, word]
      rfl
  | v :: v' :: values, _ => by
    have word := Code.wordOf_toInt v
    have rest := readValues_tokens (v' :: values) (by simp)
    show readValues (lineTokens catalog ((Operand.int v.toInt).lexemes ++
      .symbol .comma :: separatedLexemes (valueOperands (v' :: values)))) = _
    rw [Operand.lexemes]
    split
    · next negative =>
      have same : -(v.toInt.natAbs : Int) = v.toInt := by omega
      show (wordOf (-(v.toInt.natAbs : Int)) >>= fun word =>
        readValues (lineTokens catalog (separatedLexemes (valueOperands (v' :: values)))) >>= _) = _
      rw [same, word, rest]
      rfl
    · next nonnegative =>
      have same : (v.toInt.natAbs : Int) = v.toInt := by omega
      show (wordOf (v.toInt.natAbs : Int) >>= fun word =>
        readValues (lineTokens catalog (separatedLexemes (valueOperands (v' :: values)))) >>= _) = _
      rw [same, word, rest]
      rfl

theorem eq_replicate_of_all_zero {values : List Int32} (h : values.all (· == 0) = true) :
    values = List.replicate values.length 0 := by
  refine List.eq_replicate_iff.mpr ⟨rfl, fun v hv => ?_⟩
  exact beq_iff_eq.mp (List.all_eq_true.mp h v hv)

/-- The variables are those that a listing shows and zeros. -/
theorem usedVariables_append (u : ScriptUnit) :
    u.usedVariables ++ List.replicate (u.vars.length - u.usedVariables.length) 0 = u.vars := by
  have split := List.takeWhile_append_dropWhile (p := fun v => v == 0) (l := u.vars.reverse)
  have zeros := eq_replicate_of_all_zero (List.all_takeWhile (p := fun v => v == 0) (l := u.vars.reverse))
  have back : u.usedVariables ++ (u.vars.reverse.takeWhile fun v => v == 0).reverse = u.vars := by
    rw [ScriptUnit.usedVariables, ← List.reverse_append, split, List.reverse_reverse]
  have length := congrArg List.length back
  rw [List.length_append, List.length_reverse] at length
  have count : u.vars.length - u.usedVariables.length =
      (u.vars.reverse.takeWhile fun v => v == 0).length := by omega
  rw [count, ← List.reverse_replicate, ← zeros, back]

theorem length_usedVariables (u : ScriptUnit) : u.usedVariables.length ≤ u.vars.length := by
  have shorter : (u.vars.reverse.dropWhile fun v => v == 0).length ≤ u.vars.reverse.length :=
    (List.dropWhile_suffix _).length_le
  rw [List.length_reverse] at shorter
  rwa [ScriptUnit.usedVariables, List.length_reverse]

theorem initial_usedVariables (u : ScriptUnit) :
    Preamble.initial u.vars.length u.usedVariables = .ok u.vars := by
  rw [Preamble.initial, if_pos (length_usedVariables u), usedVariables_append]

theorem valueOperands_spelled (values : List Int32) : ∀ o ∈ valueOperands values, o.Spelled := by
  intro o ho
  obtain ⟨v, -, rfl⟩ := List.mem_map.mp ho
  exact Code.natAbs_toInt_le v

theorem valueOperands_readable (values : List Int32) : ∀ o ∈ valueOperands values, o.Readable catalog := by
  intro o ho
  obtain ⟨v, -, rfl⟩ := List.mem_map.mp ho
  trivial

/-- The lexemes of the line that gives the variables. -/
def variableLexemes (count : Nat) (values : List Int32) : List Lexeme :=
  .symbol .leftParen :: .numeral count :: .symbol .rightParen ::
    if values.isEmpty then []
    else .space :: .symbol .equal :: .space :: separatedLexemes (valueOperands values)

theorem legible_variables {count : Nat} (small : count ≤ maxInteger) (values : List Int32) :
    Legible catalog (.word "variables" :: variableLexemes count values) := by
  have word : Name.isIdentifier "variables".toList = true := by decide
  have numeral : ∀ rest, (∀ next, Stop next → Chain next rest) → ∀ next, Stop next →
      Chain next (.word "variables" :: .symbol .leftParen :: .numeral count :: .symbol .rightParen :: rest) := by
    intro rest chain next stop
    refine ⟨word, (stop_some (by decide)).word _, trivial, fun _ _ => rfl, small, ?_, trivial,
      fun _ _ => rfl, chain next stop⟩
    rintro c ⟨⟩
    rfl
  rw [variableLexemes]
  cases values with
  | nil => exact ⟨⟨numeral [] fun _ _ => trivial, ⟨_, _, rfl, rfl, rfl, rfl⟩⟩, by simp⟩
  | cons v values =>
    have nonempty : valueOperands (v :: values) ≠ [] := by simp [valueOperands]
    refine ⟨⟨numeral _ fun next stop => ⟨trivial, fun _ _ => rfl, trivial, fun _ _ => rfl, trivial,
      fun _ _ => rfl, separatedLexemes_chain stop _ (valueOperands_spelled _)⟩, ?_⟩, ?_⟩
    · refine Code.Starts.bounded ⟨_, rfl, rfl⟩ ?_
      exact (separatedLexemes_closes _ nonempty).append [.word "variables", .symbol .leftParen,
        .numeral count, .symbol .rightParen, .space, .symbol .equal, .space]
    · simpa using separatedLexemes_meant _ (valueOperands_readable _)

theorem text_variables (count : Nat) (values : List Int32) :
    ("variables(" ++ Text.decimal count ++ ")" ++ if values.isEmpty then ""
      else " = " ++ ", ".intercalate (values.map fun v => Text.signedDecimal v.toInt)).toList =
      rawText (.word "variables" :: variableLexemes count values) := by
  have head : "variables(".toList = "variables".toList ++ ['('] := by decide
  have print : (values.map fun v => Text.signedDecimal v.toInt) =
      (valueOperands values).map Operand.print := by
    rw [valueOperands, List.map_map]
    rfl
  rw [print, variableLexemes]
  cases values.isEmpty with
  | true => simp [head, Lexeme.raw, Symbol.text]
  | false =>
    simp only [Bool.false_eq_true, if_false, String.toList_append, intercalate_eq, head]
    simp [Lexeme.raw, Symbol.text]

theorem setVariables_tokens (p : Preamble) (count : Nat) (values : List Int32) :
    p.setVariables (lineTokens catalog (variableLexemes count values)) =
      (Preamble.initial count values).map fun vs => ({ p with vars := vs }, []) := by
  have nonneg : ¬ (count : Int) < 0 := by omega
  cases values with
  | nil =>
    simp only [variableLexemes, List.isEmpty_nil, if_true, lineTokens, List.flatMap_cons,
      List.flatMap_nil, Lexeme.substituted, Lexeme.tokens, List.cons_append, List.nil_append,
      Preamble.setVariables, readSymbol, readInteger, nonneg, if_false, Int.toNat_natCast, bind, Except.bind]
    cases Preamble.initial count [] <;> rfl
  | cons v values =>
    have read : readValues (lineTokens catalog (separatedLexemes (valueOperands (v :: values)))) =
        .ok (v :: values) := readValues_tokens (v :: values) (by simp)
    simp only [variableLexemes, List.isEmpty_cons, Bool.false_eq_true, if_false, lineTokens_cons,
      Lexeme.substituted, Lexeme.tokens, List.cons_append, List.nil_append, Preamble.setVariables,
      readSymbol, if_true, readInteger, nonneg, read, Int.toNat_natCast, bind, Except.bind]
    cases Preamble.initial count (v :: values) <;> rfl

/-- The line that gives the variables sets them to what they were. -/
theorem preambleRuns_variables (p : Preamble) (u : ScriptUnit) (small : u.vars.length ≤ maxInteger) :
    PreambleRuns catalog ["variables(" ++ Text.decimal u.vars.length ++ ")" ++
      if u.usedVariables.isEmpty then ""
      else " = " ++ ", ".intercalate (u.usedVariables.map fun v => Text.signedDecimal v.toInt)] p
      { p with vars := u.vars } := by
  refine preambleRuns_line ⟨legible_variables small u.usedVariables, text_variables _ _⟩ ?_
  have set : p.set catalog "variables" (lineTokens catalog (variableLexemes u.vars.length u.usedVariables)) =
      p.setVariables (lineTokens catalog (variableLexemes u.vars.length u.usedVariables)) := rfl
  rw [set, setVariables_tokens, initial_usedVariables]
  rfl

/-- The lines of the attributes set those that are not zero. The others are zero already. -/
theorem preambleRuns_attributes (sound : catalog.Sound) :
    ∀ (bytes before : Bytes) (p : Preamble),
      (∀ q ∈ bytes.zipIdx before.length, q.1 ≠ 0 → SetsAttribute catalog q.2) →
      p.attributes = before ++ List.replicate bytes.length 0 →
      PreambleRuns catalog
        ((bytes.zipIdx before.length).filterMap fun q => ScriptUnit.attributeLine? catalog q.2 q.1) p
        { p with attributes := before ++ bytes }
  | [], before, p, _, h => by
    rw [List.append_nil]
    have same : { p with attributes := before } = p := by
      rw [List.length_nil, List.replicate_zero, List.append_nil] at h
      rw [← h]
    rw [same]
    exact preambleRuns_nil p
  | value :: bytes, before, p, named, h => by
    rw [List.length_cons] at h
    rw [List.zipIdx_cons] at named
    obtain ⟨sets, named⟩ := List.forall_mem_cons.mp named
    have next := preambleRuns_attributes sound bytes (before ++ [value])
    rw [List.length_append, List.length_singleton] at next
    rw [List.zipIdx_cons, List.filterMap_cons, ScriptUnit.attributeLine?]
    by_cases zero : value = 0
    · rw [if_pos zero]
      have rest := next p named (by rw [h, zero, List.replicate_succ, List.append_assoc]; rfl)
      rwa [List.append_assoc] at rest
    · rw [if_neg zero]
      have first := preambleRuns_attribute sound p (sets zero) value
      have set : p.attributes.set before.length value =
          (before ++ [value]) ++ List.replicate bytes.length 0 := by
        rw [h, List.set_append_right _ _ (Nat.le_refl _), Nat.sub_self, List.replicate_succ,
          List.set_cons_zero, List.append_assoc]
        rfl
      have rest := next { p with attributes := p.attributes.set before.length value } named set
      rw [List.append_assoc] at rest
      exact first.append rest

/-- What the preamble of a listing sets. -/
def listedPreamble (u : ScriptUnit) : Preamble where
  instances := u.header.instances
  kind := u.header.kind
  entry := if u.header.entry = 0 then some 0 else none
  entryLabel := if u.header.entry = 0 then none else some u.header.entry
  strings := u.strings
  vars := u.vars
  attributes := u.attributes

theorem runs_unit (map : String) (s : State) (name : String) :
    Runs catalog map ["unit " ++ quote name] { s with phase := .idle }
      { s with phase := .preamble name {} } := by
  obtain ⟨line, prepared, tokens⟩ := (wordLine_unit catalog name).prepared
  refine runs_line prepared fun n k => ⟨n, ?_⟩
  simp only [State.step, State.begin, tokens]
  rfl

/-- Every line of a preamble begins with a word, which says what the line sets. -/
theorem preamble_keys (sound : catalog.Sound) (u : ScriptUnit) (vars : u.vars.length ≤ maxInteger) :
    ∀ raw ∈ u.preamble catalog, ∃ key ls, WordLine catalog raw key ls ∧
      (key ∈ "unit" :: Catalog.preambleKeys ∨
        ∃ index < u.attributes.length, key = catalog.printedName .attr index) := by
  have instances : WordLine catalog ("instances" ++ " = " ++ Text.decimal u.header.instances.toNat)
      "instances" _ := wordLine_number (by decide) (word_le_maxInteger _)
  have kind : WordLine catalog ("kind" ++ " = " ++ Text.decimal u.header.kind.toNat) "kind" _ :=
    wordLine_number (by decide) (byte_le_maxInteger _)
  have word : Name.isIdentifier "entry".toList = true := by decide
  have entry : ∃ ls, WordLine catalog ("entry = " ++ if u.header.entry = 0 then "0"
      else Code.labelText u.header.entry) "entry" ls := by
    split
    · exact ⟨_, wordLine_number (n := 0) word (Nat.zero_le maxInteger)⟩
    · exact ⟨_, wordLine_label word _⟩
  obtain ⟨entryLexemes, entry⟩ := entry
  intro raw mem
  simp only [ScriptUnit.preamble, List.mem_append, List.mem_cons, List.not_mem_nil, or_false] at mem
  rcases mem with (((((rfl | rfl) | mem) | rfl) | mem) | rfl) | mem
  · exact ⟨_, _, wordLine_unit catalog _, .inl (by decide)⟩
  · exact ⟨_, _, instances, .inl (by decide)⟩
  · split at mem
    · cases mem
    · rw [List.mem_singleton.mp mem]
      exact ⟨_, _, kind, .inl (by decide)⟩
  · exact ⟨_, _, entry, .inl (by decide)⟩
  · split at mem
    · cases mem
    · next nonempty =>
      rw [List.mem_singleton.mp mem]
      exact ⟨_, _, wordLine_strings (by simpa using nonempty), .inl (by decide)⟩
  · exact ⟨_, _, ⟨legible_variables vars _, text_variables _ _⟩, .inl (by decide)⟩
  · obtain ⟨⟨value, index⟩, pair, line⟩ := List.mem_filterMap.mp mem
    rw [ScriptUnit.attributeLine?] at line
    split at line
    · cases line
    · cases line
      have word := Code.isIdentifier_of_isDefinable (sound.printedName_definable .attr index)
      exact ⟨_, _, wordLine_number word (byte_le_maxInteger value), .inr ⟨index, List.snd_lt_of_mem_zipIdx pair, rfl⟩⟩

theorem preamble_words (sound : catalog.Sound) (u : ScriptUnit) (vars : u.vars.length ≤ maxInteger) :
    ∀ raw ∈ u.preamble catalog, ∃ key ls, WordLine catalog raw key ls := by
  intro raw mem
  obtain ⟨key, ls, line, -⟩ := preamble_keys sound u vars raw mem
  exact ⟨key, ls, line⟩

/-- The preamble of a listing sets the fields of the unit to what they were if the lines of the attributes do. -/
theorem runs_preamble_of_sets (sound : catalog.Sound) (u : ScriptUnit)
    (vars : u.vars.length ≤ maxInteger) (attributes : u.attributes.length = attributeCount)
    (sets : ∀ q ∈ u.attributes.zipIdx, q.1 ≠ 0 → SetsAttribute catalog q.2)
    (map : String) (s : State) :
    Runs catalog map (u.preamble catalog) { s with phase := .idle }
      { s with phase := .preamble u.header.name (listedPreamble u) } := by
  have kind : ∀ p : Preamble, p.kind = 0 → PreambleRuns catalog
      (if u.header.kind = 0 then [] else ["kind = " ++ Text.decimal u.header.kind.toNat]) p
      { p with kind := u.header.kind } := by
    intro p h
    by_cases zero : u.header.kind = 0
    · rw [if_pos zero, zero, ← h]
      exact preambleRuns_nil p
    · rw [if_neg zero]
      exact preambleRuns_kind p _
  have strings : ∀ p : Preamble, p.strings = [] → PreambleRuns catalog
      (if u.strings.isEmpty then [] else ["strings = " ++ ", ".intercalate (u.strings.map quote)]) p
      { p with strings := u.strings } := by
    intro p h
    by_cases empty : u.strings = []
    · have same : { p with strings := u.strings } = p := by rw [empty, ← h]
      rw [if_pos (by simpa using empty), same]
      exact preambleRuns_nil p
    · rw [if_neg (by simpa using empty)]
      have same : { p with strings := u.strings } = { p with strings := p.strings ++ u.strings } := by
        rw [h, List.nil_append]
      rw [same]
      exact preambleRuns_strings p empty
  have zeros : ({} : Preamble).attributes = [] ++ List.replicate u.attributes.length 0 := by
    rw [attributes]
    rfl
  have first := (preambleRuns_instances {} u.header.instances).append (kind _ rfl)
  have second := first.append (preambleRuns_entry _ u.header.entry)
  have third := second.append (strings _ rfl)
  have fourth := third.append (preambleRuns_variables _ u vars)
  have all := fourth.append (preambleRuns_attributes sound u.attributes [] _ sets zeros)
  have lines := (runs_unit map s u.header.name).append (all map s u.header.name)
  rw [ScriptUnit.preamble, listedPreamble]
  simpa only [List.append_assoc, List.cons_append, List.nil_append, List.length_nil] using lines

theorem runs_preamble (sound : catalog.Sound) (clean : catalog.Clean) (u : ScriptUnit)
    (vars : u.vars.length ≤ maxInteger) (attributes : u.attributes.length = attributeCount)
    (map : String) (s : State) :
    Runs catalog map (u.preamble catalog) { s with phase := .idle }
      { s with phase := .preamble u.header.name (listedPreamble u) } := by
  refine runs_preamble_of_sets sound u vars attributes (fun q mem _ => ?_) map s
  have bound : q.2 < attributeCount := attributes ▸ List.snd_lt_of_mem_zipIdx mem
  exact ⟨clean.printedName_ne_key q.2, clean.resolve_printedName .attr q.2 (Nat.le_of_lt_succ bound)⟩

end Assembly

end EventScript
