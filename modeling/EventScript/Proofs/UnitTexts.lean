import EventScript.Proofs.Origin

/-!
# Texts of units

`UnitText` is the text of one unit whose lines can all be read: its head, the lines of the preamble, and the
statements between braces (`Composed`), where labels may be missing or stand twice, but no block is too long for its
length to be written. Assembling such a text can only fail on account of its labels (`assemble_unitText`): it goes
through the labels that the lines mark, then puts the unit together.
-/

namespace EventScript

open Source (BodyLine Line)

/-- What a line of a body says, as far as labels are concerned. -/
def Source.Line.entry (l : Line) : BodyLine := BodyLine.ofTokens (Source.tokensOf l.text)

namespace Assembly

open Code (Statement)

/-- The line is read as a statement, a guard or a label, which may add strings to the unit. -/
def Says (catalog : Catalog) (strings : List String) (l : Line) (piece : Piece) (strings' : List String) : Prop :=
  ∃ ts, Source.tokens l.text = .ok ts ∧ Yields (readPiece catalog ts) strings piece strings'

/-- The lines are read as statements, wherever labels stand, which may add strings to the unit. -/
inductive Composed (catalog : Catalog) : List String → List Line → List Statement → List String → Prop where
  | nil {strings : List String} : Composed catalog strings [] [] strings
  /-- A statement without a block, or a label. -/
  | plain {strings strings₁ strings₂ : List String} {l : Line} {ls : List Line} {s : Statement} {ss : List Statement}
      (line : Says catalog strings l (.statement s) strings₁) (rest : Composed catalog strings₁ ls ss strings₂) :
      Composed catalog strings (l :: ls) (s :: ss) strings₂
  /-- A guard that no block follows. -/
  | bare {strings strings₁ strings₂ : List String} {l : Line} {ls : List Line} {g : Code.Guard} {ss : List Statement}
      (line : Says catalog strings l (.guard g) strings₁) (rest : Composed catalog strings₁ ls ss strings₂) :
      Composed catalog strings (l :: ls) (.block g [] :: ss) strings₂
  /-- A guard with a block between braces, whose length is a word of 32 bits. -/
  | block {strings strings₁ strings₂ strings₃ : List String} {l left right : Line} {inner ls : List Line}
      {g : Code.Guard} {body ss : List Statement} (line : Says catalog strings l (.guard g) strings₁)
      (opening : left.text = ['{']) (within : Composed catalog strings₁ inner body strings₂)
      (bounded : Code.blockSize body ≤ 4294967295) (closing : right.text = ['}'])
      (rest : Composed catalog strings₂ ls ss strings₃) :
      Composed catalog strings (l :: left :: (inner ++ right :: ls)) (.block g body :: ss) strings₃

/-- The text of a unit whose lines can be read. -/
structure UnitText (catalog : Catalog) where
  head : Line
  name : String
  settings : List Line
  preamble : Preamble
  left : Line
  body : List Line
  statements : List Statement
  strings : List String
  right : Line
  named : Source.tokens head.text = .ok [.ident "unit", .str name]
  set : settings.foldlM (fun (p : Preamble) l => p.read catalog l.text) {} = Except.ok preamble
  opening : left.text = ['{']
  composed : Composed catalog preamble.strings body statements strings
  closing : right.text = ['}']

/-- The lines of the text. -/
def UnitText.lines {catalog : Catalog} (t : UnitText catalog) : List Line :=
  t.head :: (t.settings ++ t.left :: (t.body ++ [t.right]))

/-- Goes on with the labels that lines mark. None may be marked twice. -/
def mark (map : String) (marked : List UInt32) (l : Line) : Except Fault (List UInt32) :=
  match l.entry.label? with
  | some x => if marked.contains x then .error (.line map l.number (.labelTwice x)) else .ok (x :: marked)
  | none => .ok marked

variable {catalog : Catalog} {map name : String} {p : Preamble} {s : State} {b : Body} {l : Line}
  {strings strings' : List String}

/-! ### Lines of a body -/

/-- A brace is read as nothing else. -/
theorem Says.text_ne {piece : Piece} (h : Says catalog strings l piece strings') (symbol : Source.Symbol) :
    l.text ≠ symbol.text.toList := by
  obtain ⟨ts, tokens, run⟩ := h
  intro text
  rw [text, tokens_single] at tokens
  cases tokens
  exact not_yields_symbol symbol run

theorem Says.ne_left {piece : Piece} (h : Says catalog strings l piece strings') : l.text ≠ ['{'] :=
  h.text_ne .leftBrace

theorem Says.ne_right {piece : Piece} (h : Says catalog strings l piece strings') : l.text ≠ ['}'] :=
  h.text_ne .rightBrace

theorem Says.entry_eq {piece : Piece} (h : Says catalog strings l piece strings') : l.entry = piece.entry := by
  obtain ⟨ts, tokens, run⟩ := h
  rw [Line.entry, Source.tokensOf_eq tokens, (readPiece_entry run).1]

/-- A line adds what it says to a body. -/
theorem step_piece {piece : Piece} (phase : s.phase = .body name p b)
    (said : Says catalog b.strings l piece strings') :
    (State.step catalog map s l).result =
      (({ b.settle with strings := strings' }.add piece).mapError (Fault.line map l.number)).map fun b' =>
        { s with line := l.number, phase := .body name p b' } := by
  have notLeft := said.ne_left
  have notRight := said.ne_right
  obtain ⟨ts, tokens, run⟩ := said
  rw [← Body.strings_settle] at run
  have read : ((readPiece catalog ts).run b.settle.strings).result = .ok (piece, strings') := run
  rw [State.step, phase]
  simp only [State.continueBody, if_neg notLeft, if_neg notRight, State.addLine]
  have tokens' : (Source.tokens l.text).mapError (Fault.line map l.number) = .ok ts := mapError_eq_ok.mpr tokens
  have read' : (((readPiece catalog ts).run b.settle.strings).mapBoth (fun a => [a.notice map l.number])
      (Fault.line map l.number)).result = .ok (piece, strings') := mapError_eq_ok.mpr read
  cases added : ({ b.settle with strings := strings' }.add piece) with
  | error e =>
    refine Traced.result_bind_eq_error.mpr (.inr ⟨ts, tokens', ?_⟩)
    refine Traced.result_bind_eq_error.mpr (.inr ⟨_, read', ?_⟩)
    refine Traced.result_bind_eq_error.mpr (.inl ?_)
    exact mapError_eq_error.mpr ⟨e, added, rfl⟩
  | ok b' =>
    refine Traced.result_bind_eq_ok.mpr ⟨ts, tokens', ?_⟩
    refine Traced.result_bind_eq_ok.mpr ⟨_, read', ?_⟩
    exact Traced.result_bind_eq_ok.mpr ⟨b', mapError_eq_ok.mpr added, rfl⟩

/-- A guard waits for its block until the next line, unless that begins the block. -/
theorem step_settle {c : Line} (phase : s.phase = .body name p b) (other : c.text ≠ ['{']) (k : Nat) :
    State.step catalog map { s with line := k, phase := .body name p b.settle } c = State.step catalog map s c := by
  simp only [State.step, phase, State.continueBody, if_neg other, Body.settle_of_pending (Body.pending_settle b)]
  rfl

theorem result_foldlM_cons {c : Line} {later : List Line} :
    ((c :: later).foldlM (State.step catalog map) s).result =
      (State.step catalog map s c).result >>= fun s' => (later.foldlM (State.step catalog map) s').result := by
  rw [List.foldlM_cons, Traced.result_bind]

/-- A body after some of its lines: their statements have been added to the innermost block. -/
def Body.after (b : Body) (ss : List Statement) (strings : List String) (marked : List UInt32) : Body where
  strings := strings
  marked := marked
  frames := b.frames
  done := ss.reverse ++ b.settle.done

theorem Body.after_nil (b : Body) : b.after [] b.strings b.marked = b.settle := by
  rcases b with ⟨_, _, _, _, _ | _⟩ <;> rfl

theorem Body.after_append (b : Body) (as bs : List Statement) (strings strings' : List String)
    (marked marked' : List UInt32) :
    (b.after as strings marked).after bs strings' marked' = b.after (as ++ bs) strings' marked' := by
  simp [Body.after, Body.settle]

/-- A body with a guard whose block may begin with the next line. -/
def Body.waiting (b : Body) (g : Code.Guard) (strings : List String) : Body where
  strings := strings
  marked := b.marked
  frames := b.frames
  done := b.settle.done
  pending := some g

/-- A guard without a block has an empty one. -/
theorem Body.after_waiting (b : Body) (g : Code.Guard) (ss : List Statement) (strings strings' : List String)
    (marked : List UInt32) :
    (b.waiting g strings).after ss strings' marked = b.after (.block g [] :: ss) strings' marked := by
  simp [Body.after, Body.waiting, Body.settle]

/-- A block is added to the body when it is closed. -/
theorem Body.closeBlock?_after (b : Body) (g : Code.Guard) {body : List Statement}
    (bounded : Code.blockSize body ≤ 4294967295) (strings strings' : List String) (marked : List UInt32) :
    (((b.waiting g strings).openBlock g).after body strings' marked).settle.closeBlock? =
      some (.ok (b.after [.block g body] strings' marked)) := by
  simp [Body.after, Body.waiting, Body.settle, Body.openBlock, Body.closeBlock?, bounded]

/-- A statement or a label is added to the body, unless the label stands twice. -/
theorem step_plain {st : Statement} (phase : s.phase = .body name p b)
    (said : Says catalog b.strings l (.statement st) strings') :
    (State.step catalog map s l).result = (mark map b.marked l).map fun marked =>
      { s with line := l.number, phase := .body name p (b.after [st] strings' marked) } := by
  rw [step_piece phase said, mark, said.entry_eq]
  cases st with
  | mark x =>
    simp only [Body.add, Piece.entry, BodyLine.label?, Body.marked_settle]
    split
    · rfl
    · refine congrArg Except.ok ?_
      simp [Body.after]
  | action a =>
    refine congrArg Except.ok ?_
    simp [Body.after]
  | block g body =>
    obtain ⟨ts, -, run⟩ := said
    exact absurd rfl ((readPiece_entry run).2 g body)

theorem step_guard {g : Code.Guard} (phase : s.phase = .body name p b)
    (said : Says catalog b.strings l (.guard g) strings') :
    (State.step catalog map s l).result =
      .ok { s with line := l.number, phase := .body name p (b.waiting g strings') } := by
  rw [step_piece phase said, Body.waiting, ← Body.marked_settle, ← Body.frames_settle]
  rfl

theorem step_left {g : Code.Guard} (phase : s.phase = .body name p b) (pending : b.pending = some g)
    (left : l.text = ['{']) :
    (State.step catalog map s l).result = .ok { s with phase := .body name p (b.openBlock g) } := by
  simp only [State.step, phase, State.continueBody, if_pos left, pending, Traced.result_value]

theorem text_ne_left (right : l.text = ['}']) : l.text ≠ ['{'] := by
  rw [right]
  decide

theorem step_right {b' : Body} (phase : s.phase = .body name p b) (closed : b.settle.closeBlock? = some (.ok b'))
    (right : l.text = ['}']) :
    (State.step catalog map s l).result = .ok { s with line := l.number, phase := .body name p b' } := by
  simp only [State.step, phase, State.continueBody, if_neg (text_ne_left right), if_pos right, closed]
  rfl

theorem entry_of_brace (h : l.text = ['{'] ∨ l.text = ['}']) : l.entry = .brace := by
  rcases h with left | right
  · rw [Line.entry, left, Source.tokensOf_eq tokens_leftBrace]
    rfl
  · rw [Line.entry, right, Source.tokensOf_eq tokens_rightBrace]
    rfl

theorem mark_brace (h : l.text = ['{'] ∨ l.text = ['}']) (marked : List UInt32) :
    mark map marked l = .ok marked := by
  rw [mark, entry_of_brace h]
  rfl

theorem mark_guard {g : Code.Guard} (said : Says catalog strings l (.guard g) strings') (marked : List UInt32) :
    mark map marked l = .ok marked := by
  rw [mark, said.entry_eq]
  rfl

/-- Lines that can be read add their statements to the body, unless a label stands twice. -/
theorem foldlM_composed {ls : List Line} {ss : List Statement} (h : Composed catalog strings ls ss strings') :
    ∀ {s : State} {b : Body} {c : Line} (later : List Line) (k : Nat), s.phase = .body name p b →
      b.strings = strings → c.text ≠ ['{'] →
        ((ls ++ c :: later).foldlM (State.step catalog map) s).result =
          ls.foldlM (mark map) b.marked >>= fun marked => ((c :: later).foldlM (State.step catalog map)
            { s with line := k, phase := .body name p (b.after ss strings' marked) }).result := by
  induction h with
  | nil =>
    rintro s b c later k phase rfl other
    rw [List.foldlM_nil]
    show ((c :: later).foldlM (State.step catalog map) s).result = ((c :: later).foldlM (State.step catalog map)
      { s with line := k, phase := .body name p (b.after [] b.strings b.marked) }).result
    rw [result_foldlM_cons, result_foldlM_cons, Body.after_nil, step_settle phase other k]
  | plain line rest ih =>
    rintro s b c later k phase rfl other
    rw [List.cons_append, result_foldlM_cons, step_plain phase line, List.foldlM_cons]
    cases marks : mark map b.marked _ with
    | error e => rfl
    | ok marked =>
      refine (ih later k rfl rfl other).trans ?_
      simp only [Body.after_append]
      rfl
  | bare line rest ih =>
    rintro s b c later k phase rfl other
    rw [List.cons_append, result_foldlM_cons, step_guard phase line, ok_bind, ih later k rfl rfl other,
      List.foldlM_cons, mark_guard line, ok_bind]
    simp only [Body.after_waiting]
    rfl
  | @block _ strings₁ strings₂ _ l left right inner ls g body ss line opening within bounded closing rest ih ih' =>
    rintro s b c later k phase rfl other
    rw [List.cons_append, result_foldlM_cons, step_guard phase line, ok_bind, List.cons_append, result_foldlM_cons,
      step_left rfl rfl opening, ok_bind, List.append_assoc, List.cons_append,
      ih (ls ++ c :: later) k rfl rfl (text_ne_left closing), List.foldlM_cons, mark_guard line, ok_bind,
      List.foldlM_cons, mark_brace (.inl opening), ok_bind, List.foldlM_append, bind_assoc]
    refine congrArg (inner.foldlM (mark map) b.marked >>= ·) (funext fun marked => ?_)
    rw [result_foldlM_cons, step_right rfl (b.closeBlock?_after g bounded ..) closing, ok_bind,
      ih' later k rfl rfl other, List.foldlM_cons, mark_brace (.inr closing), ok_bind]
    simp only [Body.after_append, List.singleton_append]
    rfl

/-- The outline of the statements is that of the lines. -/
theorem Composed.outline {ls : List Line} {ss : List Statement} (h : Composed catalog strings ls ss strings') :
    Code.blockOutline ss = Source.unbraced (ls.map Line.entry) := by
  induction h with
  | nil => rfl
  | @plain _ _ _ l ls s ss line rest ih =>
    have entry := line.entry_eq
    rw [List.map_cons, entry, Code.blockOutline, ih]
    cases s with
    | action a => rfl
    | mark x => rfl
    | block g body =>
      obtain ⟨ts, -, run⟩ := line
      exact absurd rfl ((readPiece_entry run).2 g body)
  | @bare _ _ _ l ls g ss line rest ih =>
    have entry : l.entry = .statement none := line.entry_eq
    rw [List.map_cons, entry, Code.blockOutline, ih]
    rfl
  | @block _ strings₁ strings₂ _ l left right inner ls g body ss line opening within bounded closing rest ih ih' =>
    have entry : l.entry = .statement none := line.entry_eq
    have entries : (l :: left :: (inner ++ right :: ls)).map Line.entry =
        [.statement none, .brace] ++ (inner.map Line.entry ++ ([.brace] ++ ls.map Line.entry)) := by
      simp [entry, entry_of_brace (.inl opening), entry_of_brace (.inr closing)]
    rw [entries, Source.unbraced_append, Source.unbraced_append, Source.unbraced_append, ← ih, ← ih']
    rfl

/-! ### Labels -/

/-- The labels that lines mark. -/
def labelsIn (ls : List Line) : List UInt32 := Source.labelsOf (ls.map Line.entry)

theorem labelsIn_append (as bs : List Line) : labelsIn (as ++ bs) = labelsIn as ++ labelsIn bs := by
  rw [labelsIn, List.map_append, Source.labelsOf_append, labelsIn, labelsIn]

theorem labelsIn_cons (l : Line) (ls : List Line) : labelsIn (l :: ls) = l.entry.label?.toList ++ labelsIn ls := by
  rw [labelsIn, Source.labelsOf, List.map_cons, List.filterMap_cons]
  cases l.entry.label? <;> rfl

/-- Lines that mark no label twice are gone through. -/
theorem foldlM_mark {ls : List Line} {marked : List UInt32} (nodup : (labelsIn ls).Nodup)
    (new : ∀ x ∈ labelsIn ls, x ∉ marked) :
    ls.foldlM (mark map) marked = .ok ((labelsIn ls).reverse ++ marked) := by
  induction ls generalizing marked with
  | nil => rfl
  | cons l ls ih =>
    rw [labelsIn_cons] at nodup new ⊢
    rw [List.foldlM_cons, mark]
    cases found : l.entry.label? with
    | none =>
      rw [found] at nodup new
      exact ih nodup new
    | some x =>
      rw [found] at nodup new
      obtain ⟨once, nodup⟩ := List.nodup_cons.mp nodup
      obtain ⟨first, others⟩ := List.forall_mem_cons.mp new
      have unmarked : ¬ marked.contains x = true := by simpa using first
      have later : ∀ y ∈ labelsIn ls, y ∉ x :: marked := by
        intro y mem twice
        rcases List.mem_cons.mp twice with rfl | twice
        · exact once mem
        · exact others y mem twice
      simp only [if_neg unmarked, ok_bind, ih nodup later]
      simp

/-- A label that is marked twice is a fault of the second line. -/
theorem foldlM_mark_twice {before after : List Line} {x : UInt32} (nodup : (labelsIn before).Nodup)
    (label : l.entry = .label x) (twice : x ∈ labelsIn before) :
    (before ++ l :: after).foldlM (mark map) [] = .error (.line map l.number (.labelTwice x)) := by
  have marked : ((labelsIn before).reverse ++ []).contains x = true := by simpa using twice
  have failed : mark map ((labelsIn before).reverse ++ []) l = .error (.line map l.number (.labelTwice x)) := by
    simp only [mark, label, BodyLine.label?, if_pos marked]
  rw [List.foldlM_append, foldlM_mark nodup fun _ _ => List.not_mem_nil, ok_bind, List.foldlM_cons, failed]
  rfl

theorem exists_twice_after {ls : List Line} : ∀ {seen : List Line}, (labelsIn seen).Nodup →
    ¬ (labelsIn (seen ++ ls)).Nodup → ∃ before l after x, seen ++ ls = before ++ l :: after ∧
      (labelsIn before).Nodup ∧ l.entry = .label x ∧ x ∈ labelsIn before := by
  induction ls with
  | nil =>
    intro seen nodup twice
    rw [List.append_nil] at twice
    exact absurd nodup twice
  | cons l ls ih =>
    intro seen nodup twice
    by_cases again : ∃ x, l.entry = .label x ∧ x ∈ labelsIn seen
    · obtain ⟨x, label, mem⟩ := again
      exact ⟨seen, l, ls, x, rfl, nodup, label, mem⟩
    · have next : (labelsIn (seen ++ [l])).Nodup := by
        rw [labelsIn_append]
        cases entry : l.entry with
        | label x =>
          have new : x ∉ labelsIn seen := fun mem => again ⟨x, entry, mem⟩
          have single : labelsIn [l] = [x] := by rw [labelsIn_cons, entry]; rfl
          rw [single, List.nodup_append]
          refine ⟨nodup, List.pairwise_singleton .., ?_⟩
          rintro y mem z mem' rfl
          cases List.mem_singleton.mp mem'
          exact new mem
        | statement jump =>
          rw [labelsIn_cons, entry]
          exact (List.append_nil _).symm ▸ nodup
        | brace =>
          rw [labelsIn_cons, entry]
          exact (List.append_nil _).symm ▸ nodup
      have cut : seen ++ l :: ls = seen ++ [l] ++ ls := by simp
      rw [cut] at twice ⊢
      exact ih next twice

/-- If a label is marked twice, there is a first line that marks one again. -/
theorem exists_twice {ls : List Line} (h : ¬ (labelsIn ls).Nodup) : ∃ before l after x,
    ls = before ++ l :: after ∧ (labelsIn before).Nodup ∧ l.entry = .label x ∧ x ∈ labelsIn before := by
  have nothing : (labelsIn []).Nodup := List.nodup_nil
  exact exists_twice_after nothing h

/-! ### The whole text -/

theorem read_leftBrace (p p' : Preamble) : p.read catalog ['{'] ≠ .ok p' := by
  rw [Preamble.read, tokens_leftBrace]
  exact nofun

/-- The lines in front of a body set what they say. -/
theorem foldlM_settings (map : String) {settings : List Line} {p p' : Preamble} (s : State) (later : List Line)
    (phase : s.phase = .preamble name p)
    (set : settings.foldlM (fun (p : Preamble) l => p.read catalog l.text) p = .ok p') :
    ∃ k, ((settings ++ later).foldlM (State.step catalog map) s).result =
      (later.foldlM (State.step catalog map) { s with line := k, phase := .preamble name p' }).result := by
  induction settings generalizing p s with
  | nil =>
    cases set
    refine ⟨s.line, ?_⟩
    rw [← phase]
    rfl
  | cons l settings ih =>
    rw [List.foldlM_cons, bind_eq_ok] at set
    obtain ⟨p₁, read, rest⟩ := set
    have other : l.text ≠ ['{'] := by
      intro left
      rw [left] at read
      exact read_leftBrace p p₁ read
    have step : (State.step catalog map s l).result = .ok { s with line := l.number, phase := .preamble name p₁ } := by
      simp only [State.step, phase, State.prepare, if_neg other, read, Traced.result_ofExcept]
    obtain ⟨k, run⟩ := ih { s with line := l.number, phase := .preamble name p₁ } rfl rest
    refine ⟨k, ?_⟩
    rw [List.cons_append, result_foldlM_cons, step, ok_bind, run]

/-- The unit that a body is put together to, with the address at which it starts. -/
def builtUnit (name : String) (p : Preamble) (strings : List String) (body : List Statement) (entry : UInt32) :
    ScriptUnit where
  header := {
    name := name
    instances := p.instances
    scriptLength := UInt32.ofNat (Code.encodeBlock (lowAddress (Code.blockMarks 0 body)) body).length
    entry := entry
    kind := p.kind }
  strings := strings
  vars := p.vars
  code := Code.encodeBlock (lowAddress (Code.blockMarks 0 body)) body
  attributes := p.attributes

theorem result_unitOf (body : List Statement) : (unitOf map name p strings body).result =
    (checkLabels map name (Code.blockMarks 0 body)
      (Code.ascending (Code.blockTargets body ++ (Code.blockMarks 0 body).map Prod.fst))).result >>= fun _ =>
        entryOf map name (Code.blockMarks 0 body) p >>= fun entry =>
          .ok (builtUnit name p strings body entry) := by
  simp only [unitOf, Traced.result_bind]
  rfl

/-- The last brace puts the unit together, and the first unit of a text always has room. -/
theorem step_last {k : Nat} (frames : b.frames = []) (right : l.text = ['}']) :
    (State.step catalog map { line := k, phase := .body name p b } l).result >>= State.finish map =
      (unitOf map name p b.strings b.settle.done.reverse).result.map fun u => [u] := by
  have last : b.settle.closeBlock? = none := Body.closeBlock?_eq_none.mpr (b.frames_settle.trans frames)
  simp only [State.step, State.continueBody, if_neg (text_ne_left right), if_pos right, last, Traced.result_bind,
    Body.strings_settle]
  rw [result_unitOf, bind_assoc, bind_assoc]
  cases (checkLabels map name (Code.blockMarks 0 b.settle.done.reverse) _).result with
  | error e => rfl
  | ok _ =>
    cases entryOf map name (Code.blockMarks 0 b.settle.done.reverse) p with
    | error e => rfl
    | ok entry =>
      have room : 0 + (builtUnit name p b.strings b.settle.done.reverse entry).header.scriptLength.toNat ≤
          4294967295 := by
        rw [Nat.zero_add]
        exact Nat.le_of_lt_succ (UInt32.toNat_lt _)
      show State.addUnit map _ (builtUnit name p b.strings b.settle.done.reverse entry) >>= State.finish map = _
      rw [State.addUnit, if_pos room]
      rfl

/-- A text whose lines can be read goes through its labels and is put together. -/
theorem assemble_unitText (t : UnitText catalog) {lines : List String} (map : String)
    (prepared : Source.preparedFrom catalog 1 lines = .ok t.lines) :
    (assemble catalog map lines).result = t.body.foldlM (mark map) [] >>= fun _ =>
      (unitOf map t.name t.preamble t.strings t.statements).result.map fun u => [u] := by
  have begun : (State.step catalog map {} t.head).result =
      .ok { line := t.head.number, phase := .preamble t.name {} } := by
    simp only [State.step, State.begin, t.named, Traced.result_ofExcept]
  have entered (k : Nat) : (State.step catalog map { line := k, phase := .preamble t.name t.preamble } t.left).result =
      .ok { line := t.left.number, phase := .body t.name t.preamble { strings := t.preamble.strings } } := by
    simp only [State.step, State.prepare, if_pos t.opening, Traced.result_ofExcept]
  obtain ⟨k, settings⟩ := foldlM_settings map { line := t.head.number, phase := .preamble t.name {} }
    (t.left :: (t.body ++ [t.right])) rfl t.set
  rw [result_assemble, prepared, UnitText.lines]
  show (List.foldlM (State.step catalog map) {} (t.head :: _)).result >>= State.finish map = _
  rw [result_foldlM_cons, begun, ok_bind, settings, result_foldlM_cons, entered, ok_bind,
    foldlM_composed t.composed [] 0 rfl rfl (text_ne_left t.closing), bind_assoc]
  refine congrArg (t.body.foldlM (mark map) [] >>= ·) (funext fun marked => ?_)
  have done : (({ strings := t.preamble.strings } : Body).after t.statements t.strings marked).settle.done.reverse =
      t.statements := by
    simp [Body.after, Body.settle]
  rw [List.foldlM_cons, Traced.result_bind]
  refine (congrArg (· >>= State.finish map) (bind_pure _)).trans ?_
  rw [step_last rfl t.closing, done]
  rfl

end Assembly

end EventScript
