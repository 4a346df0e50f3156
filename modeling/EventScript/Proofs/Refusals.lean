import EventScript.Proofs.DirectObjects

/-!
# Values that cannot be read

The text shows any value, but reads only those that are `Textual` when strings that choose objects are taken for their
names (`direct`). Reading another value fails, or stops in front of a token that nothing can go on with
(`Operand.read_stuck`, `Formula.read_stuck`).
-/

namespace EventScript.Code

open Source (Token lineTokens)

/-! ### Tokens of values -/

section

variable (names : Names)

/-- The tokens that an operand is shown as. -/
def Operand.tokens (kind : Option ArgumentKind) (o : Operand) : List Token :=
  lineTokens names.catalog (o.toSource names kind).lexemes

/-- The tokens that an object is shown as. -/
def Object.tokens (o : Object) : List Token := lineTokens names.catalog (o.toSource names).lexemes

/-- The tokens that the arguments of a routine from a position on are shown as, with the closing parenthesis. -/
def argumentTokens (routine : UInt16) (index : Nat) (as : List Operand) : List Token :=
  lineTokens names.catalog (Source.argumentLexemes (argumentsToSource names routine index as))

/-- The tokens behind an argument, up to the closing parenthesis. -/
def furtherTokens (routine : UInt16) (index : Nat) : List Operand → List Token
  | [] => [.sym .rightParen]
  | a :: as => .sym .comma :: argumentTokens names routine index (a :: as)

variable (kind : Option ArgumentKind) (object : Object) (mode : CallMode) (routine : UInt16) (arguments : List Operand)

theorem Operand.tokens_field (reference : UInt8) : (Operand.field object reference).tokens names kind =
    object.tokens names ++ [.sym .dot, .ident (names.catalog.printedName .reference reference.toNat)] := by
  rw [Operand.tokens, Operand.toSource, Source.Operand.lexemes, Source.lineTokens_append]
  rfl

theorem Operand.tokens_call : (Operand.call routine arguments).tokens names kind =
    .ident (names.catalog.printedName .routine routine.toNat) :: .sym .leftParen ::
      argumentTokens names routine 0 arguments := rfl

/-- The tokens of a routine of an object, without the word in front. -/
def memberTokens : List Token :=
  object.tokens names ++ .sym .dot :: .ident (names.catalog.printedName .routine routine.toNat) ::
    .sym .leftParen :: argumentTokens names routine 0 arguments

theorem memberTokens_append (ts : List Token) : memberTokens names object routine arguments ++ ts =
    object.tokens names ++ .sym .dot :: .ident (names.catalog.printedName .routine routine.toNat) ::
      .sym .leftParen :: (argumentTokens names routine 0 arguments ++ ts) := by
  rw [memberTokens, List.append_assoc]
  rfl

theorem Operand.tokens_async : (Operand.objectCall object .async routine arguments).tokens names kind =
    .ident "async" :: memberTokens names object routine arguments := by
  rw [Operand.tokens, Operand.toSource, Source.Operand.lexemes, List.append_assoc, Source.lineTokens_append,
    Source.lineTokens_append]
  rfl

theorem Operand.tokens_objectCall (h : mode ≠ .async) :
    (Operand.objectCall object mode routine arguments).tokens names kind =
      memberTokens names object routine arguments := by
  have word : (mode == CallMode.async) = false := by simpa using h
  rw [Operand.tokens, Operand.toSource, Source.Operand.lexemes, List.append_assoc, Source.lineTokens_append,
    Source.lineTokens_append, word]
  rfl

theorem argumentTokens_cons (index : Nat) (a : Operand) (as : List Operand) :
    argumentTokens names routine index (a :: as) =
      a.tokens names (names.kind? routine index) ++ furtherTokens names routine (index + 1) as := by
  rw [argumentTokens, argumentsToSource, Source.argumentLexemes, Source.lineTokens_append]
  cases as <;> rfl

end

/-! ### Where reading stops -/

/-- What an object in front of a dot begins with. -/
inductive Front (names : Names) : List Token → Prop where
  | word {name : String} (free : name ∉ Name.reserved) (ts : List Token) : Front names (.ident name :: ts)
  | text (text : String) (ts : List Token) : Front names (.str text :: ts)
  | number (n : Nat) (ts : List Token) : Front names (.int n :: ts)
  | negative (n : Nat) (ts : List Token) : Front names (.sym .minus :: .int n :: .sym .dot :: ts)
  | async (object : Object) (routine : UInt16) (arguments : List Operand) (ts : List Token) :
    Front names (.ident "async" :: (memberTokens names object routine arguments ++ .sym .dot :: ts))

/-- Tokens that no value is followed by, and that no value, statement or condition goes on with. -/
inductive Stuck (names : Names) : List Token → Prop where
  | dot (ts : List Token) : Stuck names (.sym .dot :: ts)
  | front {ts : List Token} (h : Front names ts) : Stuck names ts

variable {names : Names}

theorem Front.ended {ts : List Token} (h : Front names ts) : Source.Ended ts := by
  cases h <;> exact Source.ended_cons ⟨by simp, by simp⟩ _

theorem front_int (value : Int32) (ts : List Token) :
    Front names (lineTokens names.catalog (Source.Operand.int value.toInt).lexemes ++ .sym .dot :: ts) := by
  rw [Source.Operand.lexemes]
  split
  · exact .negative _ ts
  · exact .number _ _

mutual

theorem Operand.front (sound : names.catalog.Sound) : ∀ (o : Operand) (ts : List Token),
    Front names (o.tokens names none ++ .sym .dot :: ts)
  | .flag _, ts => .word (printedName_free sound .flag _) _
  | .var slot, ts => .word (var_free slot) _
  | .field object reference, ts => by
    rw [Operand.tokens_field, List.append_assoc]
    exact object.front sound _
  | .literal value, ts => front_int value ts
  | .flexible value, ts => front_int value ts
  | .string _, ts => .text _ _
  | .call _ _, ts => .word (printedName_free sound .routine _) _
  | .objectCall object mode routine arguments, ts => by
    by_cases async : mode = .async
    · rw [async, Operand.tokens_async]
      exact .async object routine arguments ts
    · rw [Operand.tokens_objectCall names none object mode routine arguments async, memberTokens, List.append_assoc]
      exact object.front sound _

theorem Object.front (sound : names.catalog.Sound) : ∀ (o : Object) (ts : List Token),
    Front names (o.tokens names ++ .sym .dot :: ts)
  | .builtin which, ts => .word (by cases which <;> decide) _
  | .named _, ts => .text _ _
  | .dynamic value, ts => value.front sound ts

end

theorem Front.opens {ts : List Token} (h : Front names ts) : ∃ t us, ts = t :: us ∧ t.opens = true := by
  cases h <;> exact ⟨_, _, rfl, rfl⟩

/-- The first token of a value can begin one. -/
theorem Operand.first_token (sound : names.catalog.Sound) (clean : names.catalog.Clean) (o : Operand)
    (kind : Option ArgumentKind) : ∃ t ts, o.tokens names kind = t :: ts ∧ t.opens = true := by
  cases o with
  | literal value => exact Source.Operand.first_token (.int value.toInt) trivial
  | flexible value => exact Source.Operand.first_token _ (Names.flexible_readable clean kind value)
  | field object reference =>
    rw [Operand.tokens_field]
    exact (object.front sound _).opens
  | objectCall object mode routine arguments =>
    by_cases async : mode = .async
    · rw [async, Operand.tokens_async]
      exact ⟨_, _, rfl, rfl⟩
    · rw [Operand.tokens_objectCall names kind object mode routine arguments async]
      exact (object.front sound _).opens
  | _ => exact ⟨_, _, rfl, rfl⟩

/-- An expression stops where its first operand does. -/
theorem stuck_readExpr {n : Nat} {ts vs : List Token} {e : Source.Expr}
    (operand : ∀ o us, Source.readOperand n ts = .ok (o, us) → Stuck names us)
    (read : Source.readExpr (n + 1) ts = .ok (e, vs)) : Stuck names vs := by
  obtain ⟨⟨o, us⟩, first, rest⟩ := bind_eq_ok.mp (show Source.readOperand n ts >>= _ = _ from read)
  cases operand o us first with
  | dot ts => cases rest; exact .dot ts
  | front front =>
    cases front with
    | word free ts => cases rest; exact .front (.word free ts)
    | text text ts => cases rest; exact .front (.text text ts)
    | number k ts => cases rest; exact .front (.number k ts)
    | async object routine arguments ts => cases rest; exact .front (.async object routine arguments ts)
    | negative k ts =>
      -- The sign is taken for an operator, and reading stops behind the number.
      obtain ⟨⟨e', ts'⟩, number, same⟩ := bind_eq_ok.mp rest
      cases same
      match n with
      | 0 => cases number
      | 1 => cases number
      | n + 2 => cases number; exact .dot ts

/-- A value that can be read is read up to where it ends. -/
theorem Operand.read_direct (sound : names.catalog.Sound) (clean : names.catalog.Clean) {o : Operand}
    (textual : o.direct.Textual) (kind : Option ArgumentKind) {n : Nat} {rest : List Token}
    (fuel : 2 * (o.tokens names kind).length ≤ n) (ends : (o.direct.toSource names kind).EndsAt rest) :
    Source.readOperand n (o.tokens names kind ++ rest) =
      .ok ((o.direct.toSource names kind).plain names.catalog, rest) := by
  have read := Source.Operand.read_lexemes _ (o.direct.toSource_readable sound clean kind textual) n rest
  rw [o.lexemes_direct] at read
  exact read fuel ends

/-- The one token of an object that can be read, and how reading goes on behind the dot. -/
theorem Object.read_member (sound : names.catalog.Sound) {o : Object} (textual : o.direct.Textual) :
    ∃ t object, o.tokens names = [t] ∧
      ∀ n ts, Source.readOperand (n + 1) (t :: .sym .dot :: ts) = Source.readMember n object ts := by
  have readable : (o.direct.toSource names).Readable names.catalog := Object.toSource_readable sound textual
  obtain ⟨t, tokens, member⟩ := Source.Object.read_member readable
  rw [o.lexemes_direct] at tokens
  exact ⟨t, _, tokens, member⟩

/-- A value other than a flag, a variable or a string ends in front of a dot. -/
theorem endsAt_dot {value : Operand} (h : ¬ (Object.chosen value.direct).Textual) (textual : value.direct.Textual)
    (ts : List Token) : (value.direct.toSource names none).EndsAt (.sym .dot :: ts) := by
  cases value with
  | flag => exact absurd trivial h
  | var => exact absurd trivial h
  | string => exact absurd trivial h
  | field object reference =>
    rintro t ⟨⟩
    simp
  | _ => trivial

/-- Arguments that are one or more cannot be read if they cannot be read as such. -/
theorem readArguments_ne (sound : names.catalog.Sound) (clean : names.catalog.Clean) {routine : UInt16}
    {as : List Operand} (h : ¬ argumentsTextual (argumentsDirect as)) {index n : Nat} {rest : List Token}
    (further : ∀ r, Source.readFurther n (argumentTokens names routine index as ++ rest) ≠ .ok r)
    (r : List Source.Expr × List Token) :
    Source.readArguments (n + 1) (argumentTokens names routine index as ++ rest) ≠ .ok r := by
  cases as with
  | nil => exact absurd trivial h
  | cons a as =>
    obtain ⟨t, ts, tokens, opens⟩ := a.first_token sound clean (names.kind? routine index)
    rw [argumentTokens_cons, tokens] at further ⊢
    unfold Source.readArguments
    split
    · next e =>
      cases e
      cases opens
    · exact further r

theorem exprEnded_further (routine : UInt16) (index : Nat) (as : List Operand) (rest : List Token) :
    Source.ExprEnded (furtherTokens names routine index as ++ rest) := by
  cases as <;> exact Source.exprEnded_sym (by decide) _

mutual

/-- Reading a value that the text has no words for fails or stops. -/
theorem Operand.read_stuck (sound : names.catalog.Sound) (clean : names.catalog.Clean) :
    ∀ (o : Operand) (kind : Option ArgumentKind), ¬ o.direct.Textual → ∀ (n : Nat) (rest : List Token),
      2 * (o.tokens names kind).length ≤ n → ∀ p ts,
        Source.readOperand n (o.tokens names kind ++ rest) = .ok (p, ts) → Stuck names ts
  | .flag _, _, h, _, _, _, _, _, _ => absurd trivial h
  | .var _, _, h, _, _, _, _, _, _ => absurd trivial h
  | .literal _, _, h, _, _, _, _, _, _ => absurd trivial h
  | .flexible _, _, h, _, _, _, _, _, _ => absurd trivial h
  | .string _, _, h, _, _, _, _, _, _ => absurd trivial h
  | .field object reference, kind, h, n, rest, fuel, p, ts, read => by
    rw [Operand.tokens_field, List.append_assoc] at read
    rw [Operand.tokens_field, List.length_append] at fuel
    exact object.read_stuck sound clean h n _ (by omega) p ts read
  | .call routine arguments, kind, h, n, rest, fuel, p, ts, read => by
    rw [Operand.tokens_call] at read fuel
    simp only [List.length_cons] at fuel
    obtain ⟨n, rfl⟩ : ∃ m, n = m + 2 := Source.exists_add_of_le (by omega)
    obtain ⟨r, inner, -⟩ := bind_eq_ok.mp read
    exact absurd inner (readArguments_ne sound clean h (readFurther_ne sound clean routine arguments 0 h n rest
      (by omega)) r)
  | .objectCall object mode routine arguments, kind, h, n, rest, fuel, p, ts, read => by
    by_cases async : mode = .async
    · rw [async, Operand.tokens_async, List.cons_append, memberTokens_append] at read
      have front := object.front sound (.ident (names.catalog.printedName .routine routine.toNat) ::
        .sym .leftParen :: (argumentTokens names routine 0 arguments ++ rest))
      cases n with
      | zero => cases read
      | succ n =>
        rw [Source.readOperand_name n "async" front.ended] at read
        cases read
        exact .front front
    · rw [Operand.tokens_objectCall names kind object mode routine arguments async] at read fuel
      rw [memberTokens_append] at read
      simp only [memberTokens, List.length_append, List.length_cons] at fuel
      by_cases textual : object.direct.Textual
      · have args : ¬ argumentsTextual (argumentsDirect arguments) := fun ha => h ⟨async, textual, ha⟩
        obtain ⟨t, named, tokens, member⟩ := Object.read_member sound textual
        rw [tokens] at read fuel
        simp only [List.length_singleton] at fuel
        obtain ⟨n, rfl⟩ : ∃ m, n = m + 3 := Source.exists_add_of_le (by omega)
        rw [List.cons_append, List.nil_append, member] at read
        obtain ⟨r, inner, -⟩ := bind_eq_ok.mp read
        have further := readFurther_ne sound clean routine arguments 0 args n rest (by omega)
        exact absurd inner (readArguments_ne sound clean args further r)
      · exact object.read_stuck sound clean textual n _ (by omega) p ts read

/-- Reading an object that the text has no words for fails or stops, though a dot follows. -/
theorem Object.read_stuck (sound : names.catalog.Sound) (clean : names.catalog.Clean) :
    ∀ (o : Object), ¬ o.direct.Textual → ∀ (n : Nat) (rest : List Token), 2 * (o.tokens names).length ≤ n →
      ∀ p ts, Source.readOperand n (o.tokens names ++ .sym .dot :: rest) = .ok (p, ts) → Stuck names ts
  | .builtin _, h, _, _, _, _, _, _ => absurd trivial h
  | .named _, h, _, _, _, _, _, _ => absurd trivial h
  | .dynamic value, h, n, rest, fuel, p, ts, read => by
    by_cases textual : value.direct.Textual
    · have whole := Operand.read_direct sound clean textual none fuel (endsAt_dot h textual rest)
      cases whole.symm.trans read
      exact .dot rest
    · exact value.read_stuck sound clean none textual n _ fuel p ts read

/-- Arguments that the text has no words for cannot be read. -/
theorem readFurther_ne (sound : names.catalog.Sound) (clean : names.catalog.Clean) (routine : UInt16) :
    ∀ (as : List Operand) (index : Nat), ¬ argumentsTextual (argumentsDirect as) → ∀ (n : Nat) (rest : List Token),
      2 * (argumentTokens names routine index as).length ≤ n → ∀ r,
        Source.readFurther n (argumentTokens names routine index as ++ rest) ≠ .ok r
  | [], _, h, _, _, _, _ => absurd trivial h
  | a :: as, index, h, n, rest, fuel, r => by
    intro read
    rw [argumentTokens_cons, List.append_assoc] at read
    rw [argumentTokens_cons, List.length_append] at fuel
    have behind : 0 < (furtherTokens names routine (index + 1) as).length := by cases as <;> exact Nat.succ_pos _
    obtain ⟨n, rfl⟩ : ∃ m, n = m + 2 := Source.exists_add_of_le (by omega)
    obtain ⟨⟨e, us⟩, first, others⟩ := bind_eq_ok.mp read
    by_cases textual : a.direct.Textual
    · have whole := Source.Expr.read_lexemes (.last (a.direct.toSource names (names.kind? routine index)))
        (a.direct.toSource_readable sound clean _ textual) (n + 1) (furtherTokens names routine (index + 1) as ++ rest)
      rw [Source.Expr.lexemes, a.lexemes_direct] at whole
      cases (whole (by rw [← Operand.tokens]; omega) (exprEnded_further routine (index + 1) as rest)).symm.trans first
      cases as with
      | nil => exact h ⟨textual, trivial⟩
      | cons b bs =>
        obtain ⟨r, inner, -⟩ := bind_eq_ok.mp others
        refine readFurther_ne sound clean routine (b :: bs) (index + 1) (fun hs => h ⟨textual, hs⟩) _ rest ?_ r inner
        simp only [furtherTokens, List.length_cons] at fuel
        omega
    · have stuck := stuck_readExpr (a.read_stuck sound clean _ textual n _ (by omega)) first
      cases stuck with
      | dot => cases others
      | front front => cases front <;> cases others

end

/-! ### Formulas -/

/-- The tokens that a formula is shown as. -/
def Formula.tokens (names : Names) (f : Formula) : List Token := lineTokens names.catalog (f.toSource names).lexemes

theorem Formula.tokens_last (o : Operand) : (Formula.last o).tokens names = o.tokens names none := rfl

theorem Formula.tokens_more (o : Operand) (operator : Operator) (f : Formula) :
    (Formula.more o operator f).tokens names =
      o.tokens names none ++ .sym (.ofOperator operator) :: f.tokens names := by
  rw [Formula.tokens, Formula.toSource, Source.Expr.lexemes, Source.lineTokens_append]
  rfl

theorem Formula.readExpr_stuck (sound : names.catalog.Sound) (clean : names.catalog.Clean) :
    ∀ f : Formula, ¬ f.direct.Textual → ∀ (n : Nat) (rest : List Token), 2 * (f.tokens names).length < n →
      ∀ e ts, Source.readExpr n (f.tokens names ++ rest) = .ok (e, ts) → Stuck names ts
  | .last o, h, n + 1, rest, fuel, e, ts, read => by
    rw [Formula.tokens_last] at fuel read
    exact stuck_readExpr (o.read_stuck sound clean none h n rest (by omega)) read
  | .more o operator f, h, n + 1, rest, fuel, e, ts, read => by
    rw [Formula.tokens_more, List.append_assoc] at read
    rw [Formula.tokens_more, List.length_append, List.length_cons] at fuel
    by_cases textual : o.direct.Textual
    · have notEnd : Source.Ended (.sym (.ofOperator operator) :: (f.tokens names ++ rest)) :=
        Source.ended_cons (by cases operator <;> decide) _
      have whole := Operand.read_direct sound clean textual none (n := n) (by omega) (notEnd.endsAt _)
      obtain ⟨r, first, others⟩ := bind_eq_ok.mp read
      obtain rfl := Except.ok.inj (whole.symm.trans first)
      simp only [Source.Symbol.operator?_ofOperator] at others
      obtain ⟨⟨e', us⟩, inner, same⟩ := bind_eq_ok.mp others
      cases same
      exact f.readExpr_stuck sound clean (fun hf => h ⟨textual, hf⟩) n rest (by omega) e' us inner
    · exact stuck_readExpr (o.read_stuck sound clean none textual n _ (by omega)) read

/-- Reading an expression that the text has no words for fails or stops. -/
theorem Formula.read_stuck (sound : names.catalog.Sound) (clean : names.catalog.Clean) {f : Formula}
    (h : ¬ f.direct.Textual) {rest : List Token} {e : Source.Expr} {ts : List Token}
    (read : Source.Expr.read (f.tokens names ++ rest) = .ok (e, ts)) : Stuck names ts := by
  refine f.readExpr_stuck sound clean h _ rest ?_ e ts read
  rw [Source.bound, List.length_append]
  omega

/-- An expression that can be read is read up to where it ends. -/
theorem Formula.read_direct (sound : names.catalog.Sound) (clean : names.catalog.Clean) {f : Formula}
    (textual : f.direct.Textual) {rest : List Token} (ended : Source.ExprEnded rest) :
    Source.Expr.read (f.tokens names ++ rest) = .ok ((f.direct.toSource names).plain names.catalog, rest) := by
  have read := Source.Expr.read_tokens (f.direct.toSource_readable sound clean textual) ended
  rwa [f.lexemes_direct] at read

end EventScript.Code
