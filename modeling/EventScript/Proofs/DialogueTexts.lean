import EventScript.Proofs.Stability

/-!
# Dialogue texts

Catalogs that differ only in their dialogue texts list the same units, in listings whose lines differ only behind
`//`, and the listings assemble to the same units (`listings_withDialogue`). Assembly does not look at dialogue texts
at all (`assemble_withDialogue`). A listing does, but what it takes from them goes into remarks, and those are cut
off where they begin: the text of a statement has no `//` outside its string literals, and all of these end in it.
-/

namespace EventScript

namespace Catalog

/-- A catalog with other dialogue texts. -/
def withDialogue (c : Catalog) (texts : List (String × String)) : Catalog := { c with dialogue := texts }

variable (c : Catalog) (texts : List (String × String))

@[simp] theorem routine?_withDialogue : (c.withDialogue texts).routine? = c.routine? := rfl

@[simp] theorem name?_withDialogue : (c.withDialogue texts).name? = c.name? := by
  funext t
  cases t <;> rfl

@[simp] theorem ordinal?_withDialogue : (c.withDialogue texts).ordinal? = c.ordinal? := by
  funext t
  cases t <;> rfl

@[simp] theorem printedName_withDialogue : (c.withDialogue texts).printedName = c.printedName := by
  funext k ordinal
  rw [printedName, name?_withDialogue, printedName]

@[simp] theorem bracketed?_withDialogue : (c.withDialogue texts).bracketed? = c.bracketed? := by
  funext name
  rw [bracketed?, ordinal?_withDialogue, bracketed?]

@[simp] theorem resolve_withDialogue : (c.withDialogue texts).resolve = c.resolve := by
  funext k name
  rw [resolve, meaning?, ordinal?_withDialogue, resolve, meaning?]

end Catalog

variable (c : Catalog) (texts : List (String × String))

/-! ### Assembly -/

namespace Source

@[simp] theorem bracketText_withDialogue : bracketText (c.withDialogue texts) = bracketText c := by
  funext name
  simp only [bracketText, Catalog.bracketed?_withDialogue]

theorem substitute_withDialogue (cs : List Char) :
    ∀ q skip, substitute (c.withDialogue texts) q skip cs = substitute c q skip cs := by
  induction cs with
  | nil => exact fun _ _ => rfl
  | cons d cs ih =>
    intro q skip
    cases skip with
    | zero => simp only [substitute, bracketText_withDialogue, ih]
    | succ skip => exact ih q skip

@[simp] theorem prepared_withDialogue : prepared (c.withDialogue texts) = prepared c := by
  funext raw
  simp only [prepared, substituteBrackets, substitute_withDialogue]

theorem preparedFrom_withDialogue (raws : List String) :
    ∀ n, preparedFrom (c.withDialogue texts) n raws = preparedFrom c n raws := by
  induction raws with
  | nil => exact fun _ => rfl
  | cons raw raws ih => exact fun n => by simp only [preparedFrom, prepared_withDialogue, ih]

end Source

namespace Assembly

@[simp] theorem resolveRoutine_withDialogue : resolveRoutine (c.withDialogue texts) = resolveRoutine c := by
  funext name count
  simp only [resolveRoutine, Catalog.resolve_withDialogue, Catalog.routine?_withDialogue]

mutual

theorem resolveOperand_withDialogue : ∀ (o : Source.Operand) (kind : Option ArgumentKind),
    resolveOperand (c.withDialogue texts) kind o = resolveOperand c kind o
  | .int _, _ => rfl
  | .str _, _ => rfl
  | .bracket _, _ => by simp only [resolveOperand, Catalog.bracketed?_withDialogue]
  | .flag _, _ => by simp only [resolveOperand, Catalog.resolve_withDialogue]
  | .var _, _ => rfl
  | .field object _, _ => by
    simp only [resolveOperand, Catalog.resolve_withDialogue, resolveObject_withDialogue object]
  | .call routine arguments, _ => by
    simp only [resolveOperand, resolveRoutine_withDialogue, resolveArguments_withDialogue arguments]
  | .objectCall _ object routine arguments, _ => by
    simp only [resolveOperand, resolveRoutine_withDialogue, resolveObject_withDialogue object,
      resolveArguments_withDialogue arguments]

theorem resolveObject_withDialogue : ∀ o : Source.Object,
    resolveObject (c.withDialogue texts) o = resolveObject c o
  | .builtin _ => rfl
  | .named _ => rfl
  | .dynamic value => by simp only [resolveObject, resolveOperand_withDialogue value]

theorem resolveArgument_withDialogue : ∀ (e : Source.Expr) (kind : Option ArgumentKind),
    resolveArgument (c.withDialogue texts) kind e = resolveArgument c kind e
  | .last operand, kind => resolveOperand_withDialogue operand kind
  | .more operand _ _, kind => by simp only [resolveArgument, resolveOperand_withDialogue operand]

theorem resolveArguments_withDialogue : ∀ (es : List Source.Expr) (routine : String) (index : Nat),
    resolveArguments (c.withDialogue texts) routine index es = resolveArguments c routine index es
  | [], _, _ => rfl
  | e :: es, _, _ => by
    simp only [resolveArguments, resolveArgument_withDialogue e, resolveArguments_withDialogue es]

end

theorem resolveFormula_withDialogue (e : Source.Expr) :
    resolveFormula (c.withDialogue texts) e = resolveFormula c e := by
  fun_induction resolveFormula c e with
  | case1 operand => simp only [resolveFormula, resolveOperand_withDialogue]
  | case2 operand operator rest ih => simp only [resolveFormula, resolveOperand_withDialogue, ih]

theorem resolvePlace_withDialogue (o : Source.Operand) :
    resolvePlace (c.withDialogue texts) o = resolvePlace c o := by
  cases o <;> simp only [resolvePlace, Catalog.resolve_withDialogue, resolveObject_withDialogue]

theorem readCondition_withDialogue (n : Nat) :
    ∀ ts, readCondition (c.withDialogue texts) n ts = readCondition c n ts := by
  induction n with
  | zero => exact fun _ => rfl
  | succ n ih =>
    exact fun ts => by simp only [readCondition, readComparison, resolveFormula_withDialogue, ih]

theorem readGuard_withDialogue (ts : List Source.Token) :
    readGuard (c.withDialogue texts) ts = readGuard c ts := by
  simp only [readGuard, readCondition_withDialogue]

theorem resolveCall?_withDialogue (mode : CallMode) (o : Source.Operand) :
    resolveCall? (c.withDialogue texts) mode o = resolveCall? c mode o := by
  cases o <;> simp only [resolveCall?, resolveRoutine_withDialogue, resolveArguments_withDialogue,
    resolveObject_withDialogue]

theorem readWord_withDialogue (word : String) (ts : List Source.Token) :
    readWord (c.withDialogue texts) word ts = readWord c word ts := by
  simp only [readWord, readCall, readPlain, resolveCall?_withDialogue, resolvePlace_withDialogue,
    resolveFormula_withDialogue]

@[simp] theorem readPiece_withDialogue : readPiece (c.withDialogue texts) = readPiece c := by
  funext ts
  simp only [readPiece, readPlain, readGuard_withDialogue, readWord_withDialogue, resolveCall?_withDialogue,
    resolvePlace_withDialogue, resolveFormula_withDialogue]

@[simp] theorem read_withDialogue : Preamble.read (c.withDialogue texts) = Preamble.read c := by
  funext p text
  simp only [Preamble.read, Preamble.set, Catalog.resolve_withDialogue]

/-- A line is read alike whatever the dialogue texts are. -/
theorem step_withDialogue (map : String) : State.step (c.withDialogue texts) map = State.step c map := by
  funext s l
  simp only [State.step, State.prepare, State.continueBody, State.addLine, read_withDialogue, readPiece_withDialogue]

/-- Assembly does not depend on dialogue texts. -/
theorem assemble_withDialogue (map : String) (raws : List String) :
    assemble (c.withDialogue texts) map raws = assemble c map raws := by
  simp only [assemble, Source.preparedFrom_withDialogue, step_withDialogue]

end Assembly

/-! ### Names in listings -/

namespace Code

namespace Names

/-- Names taken from a catalog with other dialogue texts. -/
def withDialogue (names : Names) (texts : List (String × String)) : Names :=
  { names with catalog := names.catalog.withDialogue texts }

variable (names : Names)

@[simp] theorem catalog_withDialogue : (names.withDialogue texts).catalog = names.catalog.withDialogue texts := rfl

@[simp] theorem kind?_withDialogue : (names.withDialogue texts).kind? = names.kind? := by
  funext routine index
  simp only [kind?, catalog_withDialogue, Catalog.name?_withDialogue]

@[simp] theorem entry?_withDialogue : Names.entry? (names.withDialogue texts) = Names.entry? names := by
  funext table value
  simp only [ entry?, catalog_withDialogue, Catalog.name?_withDialogue]

@[simp] theorem flexible_withDialogue : (names.withDialogue texts).flexible = names.flexible := by
  funext kind value
  simp only [flexible, entry?_withDialogue]
  rfl

end Names

variable (names : Names)

mutual

theorem Operand.toSource_withDialogue : ∀ (o : Operand) (kind : Option ArgumentKind),
    o.toSource (names.withDialogue texts) kind = o.toSource names kind
  | .flag _, _ => by simp [Operand.toSource]
  | .var _, _ => rfl
  | .field object _, _ => by simp [Operand.toSource, object.toSource_withDialogue]
  | .literal _, _ => rfl
  | .flexible _, _ => by simp [Operand.toSource]
  | .string _, _ => rfl
  | .call _ arguments, _ => by simp [Operand.toSource, argumentsToSource_withDialogue arguments]
  | .objectCall object _ _ arguments, _ => by
    simp [Operand.toSource, object.toSource_withDialogue, argumentsToSource_withDialogue arguments]

theorem Object.toSource_withDialogue : ∀ o : Object, o.toSource (names.withDialogue texts) = o.toSource names
  | .builtin _ => rfl
  | .named _ => rfl
  | .dynamic value => by simp only [Object.toSource, value.toSource_withDialogue]

theorem argumentsToSource_withDialogue : ∀ (as : List Operand) (routine : UInt16) (index : Nat),
    argumentsToSource (names.withDialogue texts) routine index as = argumentsToSource names routine index as
  | [], _, _ => rfl
  | a :: as, _, _ => by
    simp only [argumentsToSource, Names.kind?_withDialogue, a.toSource_withDialogue,
      argumentsToSource_withDialogue as]

end

theorem Formula.toSource_withDialogue :
    ∀ f : Formula, f.toSource (names.withDialogue texts) = f.toSource names
  | .last operand => by simp only [Formula.toSource, operand.toSource_withDialogue]
  | .more operand _ rest => by
    simp only [Formula.toSource, operand.toSource_withDialogue, rest.toSource_withDialogue]

theorem Condition.text_withDialogue : ∀ c : Condition, c.text (names.withDialogue texts) = c.text names
  | .last comparison => by simp only [Condition.text, Comparison.text, Formula.toSource_withDialogue]
  | .more comparison _ rest => by
    simp only [Condition.text, Comparison.text, Formula.toSource_withDialogue, rest.text_withDialogue]

theorem Guard.text_withDialogue (g : Guard) : g.text (names.withDialogue texts) = g.text names := by
  cases g with
  | condition c => exact congrArg ("if " ++ ·) (c.text_withDialogue texts names)
  | result value => rfl

theorem Action.text_withDialogue (a : Action) : a.text (names.withDialogue texts) = a.text names := by
  cases a <;> simp only [Action.text, Operand.toSource_withDialogue, Formula.toSource_withDialogue]

end Code

/-! ### Lines without comments -/

namespace Source

/-- The lines of a text without their comments. -/
def stripped (raws : List String) : List (List Char) := raws.map fun raw => stripComment raw.toList

@[simp] theorem stripped_append (as bs : List String) : stripped (as ++ bs) = stripped as ++ stripped bs :=
  List.map_append

@[simp] theorem stripped_cons (raw : String) (raws : List String) :
    stripped (raw :: raws) = stripComment raw.toList :: stripped raws := rfl

theorem length_stripped (raws : List String) : (stripped raws).length = raws.length := List.length_map _

/-- Lines are prepared alike if they are equal without comments. -/
theorem preparedFrom_of_stripped (catalog : Catalog) {raws : List String} :
    ∀ {raws' : List String} (n : Nat), stripped raws = stripped raws' →
      preparedFrom catalog n raws = preparedFrom catalog n raws' := by
  induction raws with
  | nil =>
    intro raws' n same
    rw [List.map_eq_nil_iff.mp same.symm]
  | cons raw raws ih =>
    intro raws' n same
    obtain ⟨raw', rest, rfl, first, others⟩ := List.map_eq_cons_iff.mp same.symm
    have head : prepared catalog raw.toList = prepared catalog raw'.toList := by
      rw [prepared, prepared, first]
    rw [preparedFrom, preparedFrom, head, ih (n + 1) others.symm]

end Source

theorem Assembly.assemble_of_stripped (catalog : Catalog) (map : String) {raws raws' : List String}
    (same : Source.stripped raws = Source.stripped raws') :
    assemble catalog map raws = assemble catalog map raws' := by
  rw [assemble, assemble, Source.preparedFrom_of_stripped catalog 1 same]

/-! ### Listings -/

namespace Code

open Source (stripped)

/-- Nothing of a remark is left in the lines of an instruction without comments. -/
theorem stripped_lines {i : Instruction} {ls : List Source.Lexeme} (apart : Source.Apart ls)
    (text : i.text.toList = Source.rawText ls) :
    stripped i.lines =
      stripped (if i.isLabel then [margin i.indent ++ "#" ++ Text.decimal i.address ++ ":"] else []) ++
        [Source.strippedText ls] := by
  obtain ⟨remark, hr, lines⟩ := i.lines_eq
  have raw : (margin i.indent ++ i.text ++ remark).toList =
      List.replicate (4 * i.indent) ' ' ++ Source.rawText ls ++ remark.toList := by
    rw [String.toList_append, String.toList_append, Assembly.toList_margin, text]
  rw [lines, Source.stripped_append, Source.stripped_cons, raw, apart.stripComment_line _ hr]
  rfl

/-- Another remark makes no difference. -/
theorem stripped_remark (i : Instruction) {ls : List Source.Lexeme} (apart : Source.Apart ls)
    (text : i.text.toList = Source.rawText ls) (remark : Option String) :
    stripped { i with remark := remark }.lines = stripped i.lines := by
  have other : { i with remark := remark }.text.toList = Source.rawText ls := text
  rw [stripped_lines apart other, stripped_lines apart text]

variable {names : Names} (labels : List UInt32)

theorem Action.stripped_withDialogue (sound : names.catalog.Sound) (indent address : Nat) (a : Action) :
    stripped (a.instruction (names.withDialogue texts) labels indent address).lines =
      stripped (a.instruction names labels indent address).lines := by
  rw [Action.instruction, a.text_withDialogue]
  exact stripped_remark (a.instruction names labels indent address) (a.apart sound) (a.text_eq names) _

theorem Guard.stripped_withDialogue (sound : names.catalog.Sound) (indent address : Nat) (g : Guard) :
    stripped (g.instruction (names.withDialogue texts) labels indent address).lines =
      stripped (g.instruction names labels indent address).lines := by
  rw [Guard.instruction, g.text_withDialogue]
  exact stripped_remark (g.instruction names labels indent address) (g.apart sound) (g.text_eq names) _

mutual

theorem Statement.stripped_withDialogue (sound : names.catalog.Sound) : ∀ (s : Statement) (indent address : Nat),
    stripped (s.lines (names.withDialogue texts) labels indent address) =
      stripped (s.lines names labels indent address)
  | .action a, indent, address => a.stripped_withDialogue texts labels sound indent address
  | .block guard body, indent, address => by
    simp only [Statement.lines, Source.stripped_append, guard.stripped_withDialogue texts labels sound]
    split
    · rfl
    · simp only [Source.stripped_append, stripped_blockLines sound body]
  | .mark _, _, _ => rfl

theorem stripped_blockLines (sound : names.catalog.Sound) : ∀ (ss : List Statement) (indent address : Nat),
    stripped (blockLines (names.withDialogue texts) labels indent address ss) =
      stripped (blockLines names labels indent address ss)
  | [], _, _ => rfl
  | s :: ss, indent, address => by
    simp only [blockLines, Source.stripped_append, s.stripped_withDialogue sound, stripped_blockLines sound ss]

end

end Code

namespace ScriptUnit

open Source (stripped)

variable {c}

theorem statements_withDialogue (u : ScriptUnit) : u.statements (c.withDialogue texts) = u.statements c := rfl

theorem preamble_withDialogue (u : ScriptUnit) : u.preamble (c.withDialogue texts) = u.preamble c := by
  simp only [preamble, attributeLine?, Catalog.printedName_withDialogue]

theorem result_listing (catalog : Catalog) (u : ScriptUnit) : (u.listing catalog).result =
    (u.statements catalog).result.map fun body => u.preamble catalog ++ [Text.leftBrace]
      ++ Code.blockLines (u.names catalog) (u.labels body) 1 0 body ++ (u.endLabel? body).toList
      ++ [Text.rightBrace] := by
  rw [listing, Traced.result_bind]
  cases (u.statements catalog).result <;> rfl

theorem listing_withDialogue (sound : c.Sound) (u : ScriptUnit) :
    (u.listing (c.withDialogue texts)).result.map stripped = (u.listing c).result.map stripped := by
  rw [result_listing, result_listing, statements_withDialogue]
  cases (u.statements c).result with
  | error e =>
    -- Said in full, or the listings that are never made are compared.
    show Except.error e = Except.error e
    rfl
  | ok body =>
    have named : (u.names c).catalog.Sound := sound
    have block : stripped (Code.blockLines (u.names (c.withDialogue texts)) (u.labels body) 1 0 body) =
        stripped (Code.blockLines (u.names c) (u.labels body) 1 0 body) :=
      Code.stripped_blockLines texts (u.labels body) named body 1 0
    simp only [Except.map, Source.stripped_append, block, preamble_withDialogue]

theorem result_listings (catalog : Catalog) (u v : ScriptUnit) (us : List ScriptUnit) :
    (listings catalog (u :: v :: us)).result = (u.listing catalog).result >>= fun first =>
      (listings catalog (v :: us)).result >>= fun rest => .ok (first ++ "" :: rest) := by
  refine (Traced.result_bind _ _).trans (congrArg _ (funext fun first => ?_))
  exact Traced.result_bind _ _

/-- Without comments, listings are the same for all dialogue texts. -/
theorem stripped_listings (sound : c.Sound) : ∀ us : List ScriptUnit,
    (listings (c.withDialogue texts) us).result.map stripped = (listings c us).result.map stripped
  | [] => rfl
  | [u] => listing_withDialogue texts sound u
  | u :: v :: us => by
    rw [result_listings, result_listings]
    refine map_bind_congr (listing_withDialogue texts sound u) fun as as' alike => ?_
    refine map_bind_congr (stripped_listings sound (v :: us)) fun bs bs' alike' => ?_
    show Except.ok (stripped (as ++ "" :: bs)) = Except.ok (stripped (as' ++ "" :: bs'))
    rw [Source.stripped_append, Source.stripped_append, Source.stripped_cons, Source.stripped_cons, alike, alike']

end ScriptUnit

open Assembly (assemble) in
/-- Catalogs that differ in their dialogue texts refuse the same units, with the same fault, or list them in equally
many lines that are equal without comments. Assembly cannot tell the listings apart, whatever dialogue texts it
is given. -/
theorem listings_withDialogue {c : Catalog} {sources : Catalog.Sources}
    (accepted : (Catalog.ofSources sources).result = .ok c) (texts : List (String × String)) (us : List ScriptUnit) :
    (∃ e, (ScriptUnit.listings c us).result = .error e ∧
      (ScriptUnit.listings (c.withDialogue texts) us).result = .error e) ∨
    ∃ lines lines', (ScriptUnit.listings c us).result = .ok lines ∧
      (ScriptUnit.listings (c.withDialogue texts) us).result = .ok lines' ∧ lines'.length = lines.length ∧
      Source.stripped lines' = Source.stripped lines ∧
      ∀ texts' map, assemble (c.withDialogue texts') map lines' = assemble c map lines := by
  have alike := ScriptUnit.stripped_listings texts (Catalog.sound_ofSources accepted) us
  obtain ⟨e, listed', listed⟩ | ⟨lines', lines, listed', listed, same⟩ := cases_of_map_eq alike
  · exact .inl ⟨e, listed, listed'⟩
  refine .inr ⟨lines, lines', listed, listed', ?_, same, fun texts' map => ?_⟩
  · rw [← Source.length_stripped, same, Source.length_stripped]
  · rw [Assembly.assemble_withDialogue, Assembly.assemble_of_stripped c map same]

/-- A remark that looks like the end of a literal and a block. -/
def oddRemark : String := "\") " ++ Text.leftBrace ++ " // <Nowhere>"

/-- Dialogue texts with that remark. -/
def oddDialogue : List (String × String) := [("hi", oddRemark)]

theorem listings_oddDialogue :
    (ScriptUnit.listings (Catalog.village.withDialogue oddDialogue) [signUnit 8]).result =
      .ok (signListing ("    Message(\"hi\") // " ++ oddRemark)) :=
  eq_ok_of_toOption (by decide +kernel)

/-- The two listings differ, but not without comments, and they assemble to the same unit. -/
theorem listings_withDialogue_signUnit : ∃ lines lines', lines ≠ lines' ∧
    (ScriptUnit.listings .village [signUnit 8]).result = .ok lines ∧
    (ScriptUnit.listings (Catalog.village.withDialogue oddDialogue) [signUnit 8]).result = .ok lines' ∧
    Source.stripped lines' = Source.stripped lines ∧
    (Assembly.assemble (Catalog.village.withDialogue oddDialogue) "field" lines').result =
      (Assembly.assemble .village "field" lines).result := by
  obtain ⟨e, listed, -⟩ | ⟨lines, lines', listed, listed', -, same, assembled⟩ :=
    listings_withDialogue Catalog.village_accepted oddDialogue [signUnit 8]
  · rw [listings_signUnit_again] at listed
    cases listed
  have text : lines = signListing "    Message(\"hi\") // Hello!" :=
    Except.ok.inj (listed.symm.trans listings_signUnit_again)
  have text' : lines' = signListing ("    Message(\"hi\") // " ++ oddRemark) :=
    Except.ok.inj (listed'.symm.trans listings_oddDialogue)
  refine ⟨lines, lines', ?_, listed, listed', same, congrArg Traced.result (assembled oddDialogue "field")⟩
  rw [text, text']
  decide

end EventScript
