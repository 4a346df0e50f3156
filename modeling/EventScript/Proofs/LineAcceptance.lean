import EventScript.Proofs.Refusals

/-!
# Lines that are accepted

A line of a listing that is accepted shows a statement or a guard that is `Textual` when strings that choose
objects are taken for their names (`Action.textual_of_yields`, `Guard.textual_of_yields`), and whose dialogue labels
have indices that a number can hold (`Action.short_of_yields`, `Guard.short_of_yields`).
-/

namespace EventScript.Code

open Source (Token lineTokens)
open Assembly

variable {names : Names}

/-! ### Lines with a call or an assignment -/

theorem Stuck.ne_nil {ts : List Token} (h : Stuck names ts) : ts ≠ [] := by
  cases h with
  | dot => exact List.cons_ne_nil _ _
  | front front =>
    obtain ⟨t, us, rfl, -⟩ := front.opens
    exact List.cons_ne_nil _ _

/-- What follows a value that has been read. -/
theorem yields_after {α β : Type} {x : Except Source.Fault α} {a : α} (read : x = .ok a) {f : α → Resolve β}
    {s s' : List String} {b : β} (h : Yields ((liftM x : Resolve α) >>= f) s b s') : Yields (f a) s b s' := by
  obtain ⟨c, t, first, rest⟩ := yields_bind.mp h
  obtain ⟨same, rfl⟩ := yields_lift.mp first
  obtain rfl := Except.ok.inj (read.symm.trans same)
  exact rest

/-- The code of a call and the tokens behind it, if there is a call. -/
def calledOr (call : Option (Resolve Action)) (us : List Token) (e : Source.Fault) : Resolve (Action × List Token) :=
  call.elim (refuse e) fun code => do return (← code, us)

theorem exists_called {call : Option (Resolve Action)} {us rest : List Token} {e : Source.Fault} {a : Action}
    {s s' : List String} (h : Yields (calledOr call us e) s (a, rest) s') :
    ∃ code, call = some code ∧ Yields code s a s' ∧ rest = us := by
  cases call with
  | none => cases h
  | some code =>
    obtain ⟨b, t, run, same⟩ := yields_bind.mp h
    obtain ⟨pair, rfl⟩ := yields_pure.mp same
    cases pair
    exact ⟨code, rfl, run, rfl⟩

theorem calledOr_of_readCall {mode : CallMode} {ts us : List Token} {o : Source.Operand} {s s' : List String}
    {b : Action × List Token} (read : Source.Operand.read ts = .ok (o, us))
    (h : Yields (Assembly.readCall names.catalog mode ts) s b s') :
    Yields (calledOr (resolveCall? names.catalog mode o) us .expectedCall) s b s' := by
  have call := yields_after read h
  dsimp only at call
  revert call
  cases resolveCall? names.catalog mode o <;> exact id

/-- A statement that begins with no word of its own and goes on without `=` is a call. -/
theorem calledOr_of_readPlain {ts us : List Token} {o : Source.Operand} {s s' : List String}
    {b : Action × List Token} (read : Source.Operand.read ts = .ok (o, us)) (other : ∀ vs, us ≠ .sym .equal :: vs)
    (h : Yields (readPlain names.catalog ts) s b s') :
    Yields (calledOr (resolveCall? names.catalog .task o) us .expectedStatement) s b s' := by
  have call := yields_after read h
  revert call
  -- What comes next decides on the kind of statement, so that all tokens have to be gone through.
  cases us with
  | nil =>
    dsimp only
    cases resolveCall? names.catalog .task o <;> exact id
  | cons t us =>
    cases t with
    | sym symbol =>
      cases symbol with
      | equal => exact absurd rfl (other us)
      | _ =>
        dsimp only
        cases resolveCall? names.catalog .task o <;> exact id
    | _ =>
      dsimp only
      cases resolveCall? names.catalog .task o <;> exact id

theorem not_yields_readCall {mode : CallMode} {ts : List Token} {s s' : List String} {piece : Piece}
    (stuck : ∀ o us, Source.Operand.read ts = .ok (o, us) → Stuck names us) :
    ¬ Yields (readWhole (Assembly.readCall names.catalog mode ts)) s piece s' := by
  intro h
  obtain ⟨a, -, run⟩ := yields_readWhole h
  obtain ⟨⟨o, us⟩, t, first, -⟩ := yields_bind.mp run
  have read := (yields_lift.mp first).1
  obtain ⟨code, -, -, same⟩ := exists_called (calledOr_of_readCall read run)
  exact (stuck o us read).ne_nil same.symm

theorem not_yields_readPlain {ts : List Token} {s s' : List String} {piece : Piece}
    (stuck : ∀ o us, Source.Operand.read ts = .ok (o, us) → Stuck names us) :
    ¬ Yields (readWhole (readPlain names.catalog ts)) s piece s' := by
  intro h
  obtain ⟨a, -, run⟩ := yields_readWhole h
  obtain ⟨⟨o, us⟩, t, first, -⟩ := yields_bind.mp run
  have read := (yields_lift.mp first).1
  have here := stuck o us read
  have other : ∀ vs, us ≠ .sym .equal :: vs := by
    rintro vs rfl
    cases here with
    | front front => cases front
  obtain ⟨code, -, -, same⟩ := exists_called (calledOr_of_readPlain read other run)
  exact here.ne_nil same.symm

/-- A line that begins like an object is a call or an assignment, or a call that goes on behind its parenthesis. -/
theorem not_yields_front (sound : names.catalog.Sound) (clean : names.catalog.Clean) {ts : List Token}
    (front : Front names ts) (stuck : ∀ o us, Source.Operand.read ts = .ok (o, us) → Stuck names us)
    {s s' : List String} {piece : Piece} : ¬ Yields (readPiece names.catalog ts) s piece s' := by
  cases front with
  | word free ts =>
    rw [readPiece_plain _ (.inr ⟨_, ts, rfl, free⟩)]
    exact not_yields_readPlain stuck
  | text text ts =>
    rw [readPiece_plain _ (.inl ⟨text, ts, rfl⟩)]
    exact not_yields_readPlain stuck
  | number k ts => exact not_yields_readPlain stuck
  | negative k ts => exact not_yields_readPlain stuck
  | async object routine arguments ts =>
    show ¬ Yields (readWhole (Assembly.readCall names.catalog .async _)) s piece s'
    refine not_yields_readCall fun o us read => ?_
    have chosen : ¬ (Object.dynamic (.objectCall object .function routine arguments)).direct.Textual := id
    have tokens : (Object.dynamic (.objectCall object .function routine arguments)).tokens names =
        memberTokens names object routine arguments :=
      Operand.tokens_objectCall names none object .function routine arguments (by decide)
    rw [← tokens] at read
    refine Object.read_stuck sound clean _ chosen _ ts ?_ o us read
    rw [Source.bound, List.length_append]
    omega

theorem Operand.read_bound (sound : names.catalog.Sound) (clean : names.catalog.Clean) {o : Operand}
    (h : ¬ o.direct.Textual) (kind : Option ArgumentKind) (rest : List Token) :
    ∀ p ts, Source.Operand.read (o.tokens names kind ++ rest) = .ok (p, ts) → Stuck names ts := by
  refine o.read_stuck sound clean kind h _ rest ?_
  rw [Source.bound, List.length_append]
  omega

/-- A call that is accepted has words. -/
theorem textual_of_callLine (sound : names.catalog.Sound) (clean : names.catalog.Clean) {o : Operand}
    (front : Front names (o.tokens names none)) {mode : CallMode} {s s' : List String} {piece : Piece}
    (h : Yields (readPiece names.catalog
      (lineTokens names.catalog (callLexemes mode ++ (o.toSource names none).lexemes))) s piece s') :
    o.direct.Textual := by
  refine Classical.byContradiction fun mute => ?_
  have stuck := Operand.read_bound sound clean mute none []
  rw [List.append_nil] at stuck
  rw [Source.lineTokens_append, ← Operand.tokens] at h
  cases mode with
  | task => exact not_yields_front sound clean front stuck h
  | async => exact not_yields_readCall stuck h
  | function => exact not_yields_readCall stuck h

/-- A line with a place, an equals sign and a formula is read as an assignment, if the place can be read. -/
theorem yields_assignment (sound : names.catalog.Sound) (clean : names.catalog.Clean) {place : Place} {f : Formula}
    (textual : place.direct.operand.Textual) {s s' : List String} {piece : Piece}
    (h : Yields (readPiece names.catalog (lineTokens names.catalog ((Action.assign place f).lexemes names)))
      s piece s') :
    ∃ e p g t, Source.Expr.read (f.tokens names) = .ok (e, []) ∧
      Yields (resolvePlace names.catalog ((place.direct.operand.toSource names none).plain names.catalog)) s p t ∧
      Yields (resolveFormula names.catalog e) t g s' := by
  have start := Place.plainStart sound textual (.space :: .symbol .equal :: .space :: (f.toSource names).lexemes)
  have tokens : lineTokens names.catalog ((place.direct.operand.toSource names none).lexemes ++
      .space :: .symbol .equal :: .space :: (f.toSource names).lexemes) =
        lineTokens names.catalog (place.direct.operand.toSource names none).lexemes ++
          .sym .equal :: f.tokens names := by
    rw [Source.lineTokens_append]
    rfl
  have lexemes : (place.direct.operand.toSource names none).lexemes = (place.operand.toSource names none).lexemes := by
    rw [place.operand_direct, Operand.lexemes_direct]
  rw [Action.lexemes, ← lexemes, readPiece_plain _ start, tokens] at h
  have left := Source.Operand.read_tokens (Operand.toSource_readable sound clean place.direct.operand none textual)
    (Source.ended_cons (t := .sym .equal) (by decide) (f.tokens names))
  obtain ⟨a, -, run⟩ := yields_readWhole h
  obtain ⟨⟨e, us⟩, u, second, resolved⟩ := yields_bind.mp (yields_after left run)
  obtain ⟨right, rfl⟩ := yields_lift.mp second
  obtain ⟨p, v, place_, behind⟩ := yields_bind.mp resolved
  obtain ⟨g, w, formula, whole⟩ := yields_bind.mp behind
  obtain ⟨same, rfl⟩ := yields_pure.mp whole
  obtain ⟨-, rfl⟩ := Prod.mk.inj same
  exact ⟨e, p, g, v, right, place_, formula⟩

/-- A statement whose line is accepted has words. -/
theorem Action.textual_of_yields (sound : names.catalog.Sound) (clean : names.catalog.Clean) {a : Action}
    {s s' : List String} {piece : Piece}
    (h : Yields (readPiece names.catalog (lineTokens names.catalog (a.lexemes names))) s piece s') :
    a.direct.Textual := by
  cases a with
  | call mode routine arguments =>
    exact textual_of_callLine sound clean (o := .call routine arguments) (.word (printedName_free sound .routine _) _) h
  | objectCall object mode routine arguments =>
    have front : Front names ((Operand.objectCall object .function routine arguments).tokens names none) := by
      rw [Operand.tokens_objectCall names none object .function routine arguments (by decide)]
      exact object.front sound _
    exact (textual_of_callLine sound clean front h).2
  | assign place f =>
    have left : place.direct.operand.Textual := by
      refine Classical.byContradiction fun mute => ?_
      rw [place.operand_direct] at mute
      have tokens : lineTokens names.catalog ((Action.assign place f).lexemes names) =
          place.operand.tokens names none ++ .sym .equal :: f.tokens names := by
        rw [Action.lexemes, Source.lineTokens_append]
        rfl
      cases place with
      | flag => exact mute trivial
      | var => exact mute trivial
      | field object reference =>
        have front : Front names
            ((Operand.field object reference).tokens names none ++ .sym .equal :: f.tokens names) := by
          rw [Operand.tokens_field, List.append_assoc]
          exact object.front sound _
        rw [tokens] at h
        exact not_yields_front sound clean front (Operand.read_bound sound clean mute none _) h
    refine ⟨left, Classical.byContradiction fun mute => ?_⟩
    obtain ⟨e, p, g, t, right, -⟩ := yields_assignment sound clean left h
    rw [← List.append_nil (f.tokens names)] at right
    exact (Formula.read_stuck sound clean mute right).ne_nil rfl
  | _ => trivial

/-! ### Lines with a condition -/

theorem Comparison.tokens (c : Comparison) (rest : List Token) :
    lineTokens names.catalog (c.lexemes names) ++ rest =
      c.left.tokens names ++ .sym (.ofComparator c.comparator) :: (c.right.tokens names ++ rest) := by
  rw [Comparison.lexemes, Source.lineTokens_append, List.append_assoc]
  rfl

/-- A comparison that is accepted has a left side with words. -/
theorem yields_comparison (sound : names.catalog.Sound) (clean : names.catalog.Clean) {c : Comparison}
    {rest us : List Token} {r : Comparison} {s s' : List String}
    (h : Yields (Assembly.readComparison names.catalog (lineTokens names.catalog (c.lexemes names) ++ rest))
      s (r, us) s') :
    c.left.direct.Textual ∧ ∃ e l m t, Source.Expr.read (c.right.tokens names ++ rest) = .ok (e, us) ∧
      Yields (resolveFormula names.catalog ((c.left.direct.toSource names).plain names.catalog)) s l t ∧
      Yields (resolveFormula names.catalog e) t m s' := by
  rw [Comparison.tokens] at h
  obtain ⟨⟨e, ts⟩, t, left, afterLeft⟩ := yields_bind.mp h
  obtain ⟨readLeft, rfl⟩ := yields_lift.mp left
  obtain ⟨⟨comparator, vs⟩, u, symbol, afterSymbol⟩ := yields_bind.mp afterLeft
  obtain ⟨readSymbol, rfl⟩ := yields_lift.mp symbol
  obtain ⟨⟨e', ws⟩, v, right, resolved⟩ := yields_bind.mp afterSymbol
  obtain ⟨readRight, rfl⟩ := yields_lift.mp right
  obtain ⟨l, t, leftRun, behind⟩ := yields_bind.mp resolved
  obtain ⟨m, u, rightRun, whole⟩ := yields_bind.mp behind
  obtain ⟨same, rfl⟩ := yields_pure.mp whole
  obtain rfl : us = ws := congrArg Prod.snd same
  have textual : c.left.direct.Textual := by
    refine Classical.byContradiction fun mute => ?_
    cases Formula.read_stuck sound clean mute readLeft with
    | dot => cases readSymbol
    | front front => cases front <;> cases readSymbol
  have split := Formula.read_direct sound clean textual
    (Source.exprEnded_sym (s := .ofComparator c.comparator) (by cases c.comparator <;> decide)
      (c.right.tokens names ++ rest))
  cases split.symm.trans readLeft
  simp only [readComparator, Source.Symbol.comparator?_ofComparator] at readSymbol
  cases readSymbol
  exact ⟨textual, e', l, m, t, readRight, leftRun, rightRun⟩

/-- A comparison that is accepted has words, unless reading stops behind it. -/
theorem Comparison.textual_of_yields (sound : names.catalog.Sound) (clean : names.catalog.Clean) {c : Comparison}
    {rest us : List Token} (ended : Source.ExprEnded rest) {r : Comparison} {s s' : List String}
    (h : Yields (Assembly.readComparison names.catalog (lineTokens names.catalog (c.lexemes names) ++ rest))
      s (r, us) s') : c.direct.Textual ∧ us = rest ∨ Stuck names us := by
  obtain ⟨left, e, l, m, t, read, -⟩ := yields_comparison sound clean h
  by_cases right : c.right.direct.Textual
  · cases (Formula.read_direct sound clean right ended).symm.trans read
    exact .inl ⟨⟨left, right⟩, rfl⟩
  · exact .inr (Formula.read_stuck sound clean right read)

/-- No condition goes on where reading stops. -/
theorem Stuck.ne_conjunction {t : Token} {ts : List Token} (h : Stuck names (t :: ts)) (conjunction : Conjunction) :
    t ≠ .ident conjunction.text := by
  have reserved : conjunction.text ∈ Name.reserved := by cases conjunction <;> decide
  have other : conjunction.text ≠ "async" := by cases conjunction <;> decide
  generalize whole : t :: ts = us at h
  rintro rfl
  cases h with
  | dot => cases whole
  | front front =>
    cases front with
    | word free =>
      cases whole
      exact free reserved
    | async =>
      obtain ⟨same, -⟩ := List.cons.inj whole
      exact other (Token.ident.inj same)
    | _ => cases whole

/-- A condition that is accepted begins with a comparison that has words, and goes on behind the conjunction. -/
theorem yields_condition (sound : names.catalog.Sound) (clean : names.catalog.Clean) {c : Comparison}
    {rest : List Token} (ended : Source.ExprEnded rest) {n : Nat} {r : Condition} {s s' : List String}
    (h : Yields (Assembly.readCondition names.catalog (n + 1) (lineTokens names.catalog (c.lexemes names) ++ rest))
      s r s') :
    c.direct.Textual ∧ ∃ d t,
      Yields (Assembly.readComparison names.catalog (lineTokens names.catalog (c.lexemes names) ++ rest)) s
          (d, rest) t ∧
        ∀ (conjunction : Conjunction) (ts : List Token), rest = .ident conjunction.text :: ts →
          ∃ r, Yields (Assembly.readCondition names.catalog n ts) t r s' := by
  obtain ⟨⟨d, us⟩, t, first, others⟩ := yields_bind.mp h
  rcases Comparison.textual_of_yields sound clean ended first with ⟨textual, rfl⟩ | stuck
  · refine ⟨textual, d, t, first, ?_⟩
    rintro conjunction ts rfl
    have goesOn : Yields (do
        let rest ← Assembly.readCondition names.catalog n ts
        return Condition.more d conjunction rest) t r s' := by
      cases conjunction <;> exact others
    obtain ⟨r, u, run, whole⟩ := yields_bind.mp goesOn
    obtain ⟨-, rfl⟩ := yields_pure.mp whole
    exact ⟨r, run⟩
  · cases us with
    | nil => exact absurd rfl stuck.ne_nil
    | cons token us =>
      have noAnd : token ≠ .ident "and" := stuck.ne_conjunction .and
      have noOr : token ≠ .ident "or" := stuck.ne_conjunction .or
      simp only [if_neg noAnd, if_neg noOr] at others
      cases others

theorem Condition.tokens_more (c : Comparison) (conjunction : Conjunction) (rest : Condition) :
    lineTokens names.catalog ((Condition.more c conjunction rest).lexemes names) =
      lineTokens names.catalog (c.lexemes names) ++
        .ident conjunction.text :: lineTokens names.catalog (rest.lexemes names) := by
  rw [Condition.lexemes, Source.lineTokens_append]
  rfl

theorem Condition.textual_of_yields (sound : names.catalog.Sound) (clean : names.catalog.Clean) :
    ∀ (c : Condition) (n : Nat) {r : Condition} {s s' : List String},
      Yields (Assembly.readCondition names.catalog n (lineTokens names.catalog (c.lexemes names))) s r s' →
        c.direct.Textual
  | _, 0, _, _, _, h => by cases h
  | .last c, n + 1, r, s, s', h => by
    rw [Condition.lexemes, ← List.append_nil (lineTokens _ _)] at h
    exact (yields_condition sound clean exprEnded_nil h).1
  | .more c conjunction rest, n + 1, r, s, s', h => by
    rw [Condition.tokens_more] at h
    obtain ⟨textual, d, t, -, others⟩ := yields_condition sound clean (exprEnded_ident _ _) h
    obtain ⟨r, run⟩ := others conjunction _ rfl
    exact ⟨textual, rest.textual_of_yields sound clean n run⟩

theorem Formula.first_token (sound : names.catalog.Sound) (clean : names.catalog.Clean) (f : Formula) :
    ∃ t ts, f.tokens names = t :: ts ∧ t.opens = true := by
  cases f with
  | last o => exact o.first_token sound clean none
  | more o operator f =>
    obtain ⟨t, ts, tokens, opens⟩ := o.first_token sound clean none
    rw [Formula.tokens_more, tokens]
    exact ⟨t, _, rfl, opens⟩

/-- A condition begins with a value. -/
theorem Condition.front_token (sound : names.catalog.Sound) (clean : names.catalog.Clean) (c : Condition) :
    ∃ t ts, lineTokens names.catalog (c.lexemes names) = t :: ts ∧ t.opens = true := by
  have comparison : ∀ (c : Comparison) (rest : List Token),
      ∃ t ts, lineTokens names.catalog (c.lexemes names) ++ rest = t :: ts ∧ t.opens = true := by
    intro c rest
    obtain ⟨t, ts, tokens, opens⟩ := c.left.first_token sound clean
    rw [Comparison.tokens, tokens]
    exact ⟨t, _, rfl, opens⟩
  cases c with
  | last c =>
    have first := comparison c []
    rwa [List.append_nil] at first
  | more c conjunction rest =>
    rw [Condition.tokens_more]
    exact comparison c _

/-- What follows the word in front of a condition is read as one. -/
theorem yields_conditionLine (sound : names.catalog.Sound) (clean : names.catalog.Clean) {c : Condition}
    {s s' : List String} {piece : Piece}
    (h : Yields (readPiece names.catalog (lineTokens names.catalog ((Guard.condition c).lexemes names))) s piece s') :
    ∃ n r, Yields (Assembly.readCondition names.catalog n (lineTokens names.catalog (c.lexemes names))) s r s' := by
  obtain ⟨t, ts, tokens, opens⟩ := c.front_token sound clean
  obtain ⟨g, u, guarded, whole⟩ := yields_bind.mp
    (show Yields (readGuard names.catalog (lineTokens names.catalog (c.lexemes names)) >>= _) s piece s' from h)
  obtain ⟨-, rfl⟩ := yields_pure.mp whole
  rw [tokens] at guarded ⊢
  unfold readGuard at guarded
  split at guarded
  · next e =>
    cases e
    cases opens
  · obtain ⟨r, u, run, same⟩ := yields_bind.mp guarded
    obtain ⟨-, rfl⟩ := yields_pure.mp same
    exact ⟨_, r, run⟩

/-- A guard whose line is accepted has words. -/
theorem Guard.textual_of_yields (sound : names.catalog.Sound) (clean : names.catalog.Clean) {g : Guard}
    {s s' : List String} {piece : Piece}
    (h : Yields (readPiece names.catalog (lineTokens names.catalog (g.lexemes names))) s piece s') :
    g.direct.Textual := by
  cases g with
  | condition c =>
    obtain ⟨n, r, run⟩ := yields_conditionLine sound clean h
    exact c.textual_of_yields sound clean n run
  | result => trivial

/-! ### Indices of dialogue labels -/

theorem short_of_ne {kind : Option ArgumentKind} {o : Operand} (h : ∀ index, o ≠ .string index) :
    names.Short (kind, o) :=
  fun index same => absurd (congrArg Prod.snd same) (h index)

theorem short_singleton {kind : Option ArgumentKind} {o : Operand} (h : ∀ index, o ≠ .string index) :
    ∀ part ∈ [(kind, o)], names.Short part :=
  List.forall_mem_singleton.mpr (short_of_ne h)

/-- A call that is resolved has arguments that are resolved. -/
theorem yields_arguments (clean : names.catalog.Clean) {routine : UInt16} {as : List Operand}
    (fits : CallFits routine as.length) {β : Type} {f : UInt16 → List Operand → Resolve β} {r : β} {s : List String}
    (run : Yields (do
      let ordinal ← resolveRoutine names.catalog (names.catalog.printedName .routine routine.toNat)
        (Source.argumentsPlain names.catalog (argumentsToSource names routine 0 as)).length
      let arguments ← resolveArguments names.catalog (names.catalog.printedName .routine routine.toNat) 0
        (Source.argumentsPlain names.catalog (argumentsToSource names routine 0 as))
      f ordinal arguments) names.strings r s) :
    ∃ rs t, Yields (resolveArguments names.catalog (names.catalog.printedName .routine routine.toNat) 0
      (Source.argumentsPlain names.catalog (argumentsToSource names routine 0 as))) names.strings rs t := by
  rw [Source.length_argumentsPlain, length_argumentsToSource] at run
  obtain ⟨_, t, first, rest⟩ := yields_bind.mp run
  obtain ⟨-, rfl⟩ := first.unique (yields_routine clean fits _)
  obtain ⟨rs, u, others, -⟩ := yields_bind.mp rest
  exact ⟨rs, u, others⟩

mutual

theorem Operand.short_of_yields (clean : names.catalog.Clean) : ∀ (o : Operand) (kind : Option ArgumentKind),
    o.Fits names.strings.length → ∀ {r : Operand} {s : List String},
      Yields (resolveOperand names.catalog kind ((o.toSource names kind).plain names.catalog)) names.strings r s →
        ∀ part ∈ o.parts names kind, names.Short part
  | .flag _, _, _, _, _, _ => short_singleton nofun
  | .var _, _, _, _, _, _ => short_singleton nofun
  | .literal _, _, _, _, _, _ => short_singleton nofun
  | .flexible _, _, _, _, _, _ => short_singleton nofun
  | .string index, kind, h, r, s, run => by
    refine List.forall_mem_singleton.mpr fun i same => ?_
    cases same
    rw [Operand.toSource, Source.Operand.plain, resolveOperand] at run
    obtain ⟨j, t, interned, rest⟩ := yields_bind.mp run
    obtain ⟨rfl, rfl⟩ := interned.unique (yields_intern (Names.string_mem h))
    rw [if_pos rfl] at rest
    obtain ⟨word, u, fits, -⟩ := yields_bind.mp rest
    obtain ⟨fits, -⟩ := yields_lift.mp fits
    rw [Source.wordOf] at fits
    split at fits
    · omega
    · cases fits
  | .field object reference, kind, h, r, s, run => by
    rw [Operand.toSource, Source.Operand.plain, resolveOperand] at run
    obtain ⟨_, t, first, -⟩ := yields_bind.mp run
    exact List.forall_mem_cons.mpr ⟨short_of_ne nofun, object.short_of_yields clean h first⟩
  | .call routine arguments, kind, h, r, s, run => by
    rw [Operand.toSource, Source.Operand.plain, resolveOperand] at run
    obtain ⟨rs, t, others⟩ := yields_arguments clean h.1 run
    exact List.forall_mem_cons.mpr ⟨short_of_ne nofun, arguments_short_of_yields clean routine arguments 0 h.2 others⟩
  | .objectCall object mode routine arguments, kind, h, r, s, run => by
    rw [Operand.toSource, Source.Operand.plain, resolveOperand] at run
    obtain ⟨_, t, first, rest⟩ := yields_bind.mp run
    have short := object.short_of_yields clean h.1 first
    obtain ⟨-, rfl⟩ := first.unique (object.yields_normal clean h.1 short)
    obtain ⟨rs, u, others⟩ := yields_arguments clean h.2.1 rest
    exact List.forall_mem_cons.mpr ⟨short_of_ne nofun, List.forall_mem_append.mpr
      ⟨short, arguments_short_of_yields clean routine arguments 0 h.2.2 others⟩⟩

theorem Object.short_of_yields (clean : names.catalog.Clean) : ∀ o : Object, o.Fits names.strings.length →
    ∀ {r : Object} {s : List String},
      Yields (resolveObject names.catalog ((o.toSource names).plain names.catalog)) names.strings r s →
        ∀ part ∈ o.parts names, names.Short part
  | .builtin _, _, _, _, _ => by simp [Object.parts]
  | .named _, _, _, _, _ => by simp [Object.parts]
  | .dynamic value, h, r, s, run => by
    rw [Object.toSource, Source.Object.plain, resolveObject] at run
    obtain ⟨_, t, first, -⟩ := yields_bind.mp run
    exact value.short_of_yields clean none h first

theorem arguments_short_of_yields (clean : names.catalog.Clean) (routine : UInt16) :
    ∀ (as : List Operand) (index : Nat), argumentsFit names.strings.length as →
      ∀ {rs : List Operand} {s : List String},
      Yields (resolveArguments names.catalog (names.catalog.printedName .routine routine.toNat) index
        (Source.argumentsPlain names.catalog (argumentsToSource names routine index as))) names.strings rs s →
        ∀ part ∈ argumentParts names routine index as, names.Short part
  | [], _, _, _, _, _ => by simp [argumentParts]
  | a :: as, index, h, rs, s, run => by
    have kind : ArgumentKind.of? (names.catalog.printedName .routine routine.toNat) index =
        names.kind? routine index := names.catalog.of?_printedName routine.toNat index
    rw [argumentsToSource, Source.argumentsPlain, resolveArguments, Source.Expr.plain, resolveArgument, kind] at run
    obtain ⟨_, t, first, rest⟩ := yields_bind.mp run
    have short := a.short_of_yields clean _ h.1 first
    obtain ⟨-, rfl⟩ := first.unique (a.yields_normal clean _ h.1 short)
    obtain ⟨_, u, others, -⟩ := yields_bind.mp rest
    exact List.forall_mem_append.mpr ⟨short, arguments_short_of_yields clean routine as (index + 1) h.2 others⟩

end

theorem Formula.short_of_yields (clean : names.catalog.Clean) : ∀ f : Formula, f.Fits names.strings.length →
    ∀ {r : Formula} {s : List String},
      Yields (resolveFormula names.catalog ((f.toSource names).plain names.catalog)) names.strings r s →
        ∀ part ∈ f.parts names, names.Short part
  | .last o, h, r, s, run => by
    obtain ⟨_, t, first, -⟩ := yields_bind.mp run
    exact o.short_of_yields clean none h first
  | .more o operator f, h, r, s, run => by
    obtain ⟨_, t, first, rest⟩ := yields_bind.mp run
    have short := o.short_of_yields clean none h.1 first
    obtain ⟨-, rfl⟩ := first.unique (o.yields_normal clean none h.1 short)
    obtain ⟨_, u, others, -⟩ := yields_bind.mp rest
    exact List.forall_mem_append.mpr ⟨short, f.short_of_yields clean h.2 others⟩

theorem Place.short_of_yields (clean : names.catalog.Clean) {p : Place} (h : p.operand.Fits names.strings.length)
    {r : Place} {s : List String}
    (run : Yields (resolvePlace names.catalog ((p.operand.toSource names none).plain names.catalog)) names.strings
      r s) :
    ∀ part ∈ p.operand.parts names none, names.Short part :=
  p.operand.short_of_yields clean none h (Place.yields_operand run)

/-- A comparison that is accepted has dialogue labels with indices that numbers can hold. -/
theorem Comparison.short_of_yields (sound : names.catalog.Sound) (clean : names.catalog.Clean) {c : Comparison}
    (h : c.direct.Fits names.strings.length) (textual : c.direct.Textual) {rest : List Token}
    (ended : Source.ExprEnded rest) {r : Comparison} {s : List String}
    (run : Yields (Assembly.readComparison names.catalog (lineTokens names.catalog (c.lexemes names) ++ rest))
      names.strings (r, rest) s) : ∀ part ∈ c.direct.parts names, names.Short part := by
  obtain ⟨-, e, l, m, t, read, left, right⟩ := yields_comparison sound clean run
  have first := c.left.direct.short_of_yields clean h.1 left
  obtain ⟨-, rfl⟩ := left.unique (c.left.direct.yields_normal clean h.1 first)
  cases (Formula.read_direct sound clean textual.2 ended).symm.trans read
  exact List.forall_mem_append.mpr ⟨first, c.right.direct.short_of_yields clean h.2 right⟩

theorem Condition.short_of_yields (sound : names.catalog.Sound) (clean : names.catalog.Clean) :
    ∀ (c : Condition) (n : Nat), c.direct.Fits names.strings.length → ∀ {r : Condition} {s : List String},
      Yields (Assembly.readCondition names.catalog n (lineTokens names.catalog (c.lexemes names))) names.strings r s →
        ∀ part ∈ c.direct.parts names, names.Short part
  | _, 0, _, _, _, run => by cases run
  | .last c, n + 1, h, r, s, run => by
    rw [Condition.lexemes, ← List.append_nil (lineTokens _ _)] at run
    obtain ⟨textual, d, t, first, -⟩ := yields_condition sound clean exprEnded_nil run
    exact Comparison.short_of_yields sound clean h textual exprEnded_nil first
  | .more c conjunction rest, n + 1, h, r, s, run => by
    rw [Condition.tokens_more] at run
    obtain ⟨textual, d, t, first, others⟩ := yields_condition sound clean (exprEnded_ident _ _) run
    obtain ⟨r, behind⟩ := others conjunction _ rfl
    have short := Comparison.short_of_yields sound clean h.1 textual (exprEnded_ident _ _) first
    have normal := Comparison.yields_normal sound clean h.1 textual short
      (exprEnded_ident conjunction.text (lineTokens names.catalog (rest.lexemes names)))
    rw [c.lexemes_direct] at normal
    obtain ⟨-, rfl⟩ := first.unique normal
    exact List.forall_mem_append.mpr ⟨short, rest.short_of_yields sound clean n h.2 behind⟩

/-- A guard whose line is accepted has dialogue labels with indices that numbers can hold. -/
theorem Guard.short_of_yields (sound : names.catalog.Sound) (clean : names.catalog.Clean) {g : Guard}
    (h : g.direct.Fits names.strings.length) {s : List String} {piece : Piece}
    (run : Yields (readPiece names.catalog (lineTokens names.catalog (g.lexemes names))) names.strings piece s) :
    ∀ part ∈ g.direct.parts names, names.Short part := by
  cases g with
  | condition c =>
    obtain ⟨n, r, read⟩ := yields_conditionLine sound clean run
    exact c.short_of_yields sound clean n h read
  | result => simp [Guard.direct, Guard.parts]

/-- A call that is accepted is resolved. -/
theorem yields_call (sound : names.catalog.Sound) (clean : names.catalog.Clean) {o : Operand}
    (textual : o.direct.Textual) (start : PlainStart (o.tokens names none)) {mode : CallMode} {s s' : List String}
    {piece : Piece}
    (run : Yields (readPiece names.catalog (lineTokens names.catalog (callLexemes mode ++
      (o.toSource names none).lexemes))) s piece s') :
    ∃ code a, resolveCall? names.catalog mode ((o.direct.toSource names none).plain names.catalog) = some code ∧
      Yields code s a s' := by
  have whole := Source.Operand.read_tokens (o.direct.toSource_readable sound clean none textual) exprEnded_nil.ended
  rw [List.append_nil, o.lexemes_direct, ← Operand.tokens] at whole
  rw [Source.lineTokens_append, ← Operand.tokens] at run
  have resolved : ∀ {e : Source.Fault} {a : Action},
      Yields (calledOr (resolveCall? names.catalog mode ((o.direct.toSource names none).plain names.catalog)) [] e) s
        (a, []) s' →
      ∃ code a, resolveCall? names.catalog mode ((o.direct.toSource names none).plain names.catalog) = some code ∧
        Yields code s a s' := by
    intro e a h
    obtain ⟨code, found, run, -⟩ := exists_called h
    exact ⟨code, a, found, run⟩
  have called (h : Yields (readWhole (Assembly.readCall names.catalog mode (o.tokens names none))) s piece s') :
      ∃ code a, resolveCall? names.catalog mode ((o.direct.toSource names none).plain names.catalog) = some code ∧
        Yields code s a s' := by
    obtain ⟨a, -, run⟩ := yields_readWhole h
    exact resolved (calledOr_of_readCall whole run)
  cases mode with
  | async => exact called run
  | function => exact called run
  | task =>
    rw [callLexemes, Source.lineTokens_nil, List.nil_append, readPiece_plain _ start] at run
    obtain ⟨a, -, plain⟩ := yields_readWhole run
    exact resolved (calledOr_of_readPlain whole (by rintro vs ⟨⟩) plain)

/-- A statement whose line is accepted has dialogue labels with indices that numbers can hold. -/
theorem Action.short_of_yields (sound : names.catalog.Sound) (clean : names.catalog.Clean) {a : Action}
    (h : a.direct.Fits names.strings.length) (textual : a.direct.Textual) {s : List String} {piece : Piece}
    (run : Yields (readPiece names.catalog (lineTokens names.catalog (a.lexemes names))) names.strings piece s) :
    ∀ part ∈ a.direct.parts names, names.Short part := by
  cases a with
  | call mode routine arguments =>
    have start : PlainStart ((Operand.call routine arguments).tokens names none) :=
      .inr ⟨_, _, rfl, printedName_free sound .routine _⟩
    obtain ⟨code, b, found, resolved⟩ := yields_call sound clean (o := .call routine arguments) textual start run
    cases found
    obtain ⟨rs, t, others⟩ := yields_arguments clean h.1 resolved
    exact arguments_short_of_yields clean routine _ 0 h.2 others
  | objectCall object mode routine arguments =>
    have start : PlainStart ((Operand.objectCall object .function routine arguments).tokens names none) := by
      rw [Operand.tokens, ← Operand.lexemes_direct]
      exact Object.plainStart sound textual.1 _
    obtain ⟨code, b, found, resolved⟩ := yields_call sound clean (o := .objectCall object .function routine arguments)
      ⟨by decide, textual⟩ start run
    cases found
    obtain ⟨_, t, first, rest⟩ := yields_bind.mp resolved
    have short := object.direct.short_of_yields clean h.1 first
    obtain ⟨-, rfl⟩ := first.unique (object.direct.yields_normal clean h.1 short)
    obtain ⟨rs, u, others⟩ := yields_arguments clean h.2.1 rest
    exact List.forall_mem_append.mpr ⟨short, arguments_short_of_yields clean routine _ 0 h.2.2 others⟩
  | assign place f =>
    obtain ⟨e, p, g, t, read, left, right⟩ := yields_assignment sound clean textual.1 run
    have first := Place.short_of_yields clean h.1 left
    obtain ⟨-, rfl⟩ := left.unique (place.direct.yields_normal clean h.1 first)
    rw [← List.append_nil (f.tokens names)] at read
    cases (Formula.read_direct sound clean textual.2 exprEnded_nil).symm.trans read
    exact List.forall_mem_append.mpr ⟨first, f.direct.short_of_yields clean h.2 right⟩
  | _ => simp [Action.direct, Action.parts]

end EventScript.Code
