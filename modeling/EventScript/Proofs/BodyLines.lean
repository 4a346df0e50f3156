import EventScript.Proofs.Running

/-!
# Listings of a body assembled again

The lines that a listing shows for a block take assembly through the block, if each of them is read: it ends up
with what the lines are read as, each after the label that stands in front of it (`runs_shownBlock`). For a block that
the script text has words for, these are the normal forms of the statements (`runs_blockLines`).
-/

namespace EventScript.Code

open Assembly

mutual

/-- What the lines of a statement are read as. -/
def Statement.normal (names : Names) : Statement → Statement
  | .action a => .action (a.normal names)
  | .block guard body => .block (guard.normal names) (normalBlock names body)
  | .mark label => .mark label

/-- What the lines of a block are read as. -/
def normalBlock (names : Names) : List Statement → List Statement
  | [] => []
  | s :: ss => s.normal names :: normalBlock names ss

end

mutual

/-- The script text has words for the statement. -/
def Statement.Textual : Statement → Prop
  | .action a => a.Textual
  | .block guard body => guard.Textual ∧ blockTextual body
  | .mark _ => True

/-- The script text has words for the block. -/
def blockTextual : List Statement → Prop
  | [] => True
  | s :: ss => s.Textual ∧ blockTextual ss

end

mutual

/-- The operands in a statement. -/
def Statement.parts (names : Names) : Statement → List (Option ArgumentKind × Operand)
  | .action a => a.parts names
  | .block guard body => guard.parts names ++ blockParts names body
  | .mark _ => []

/-- The operands in a block. -/
def blockParts (names : Names) : List Statement → List (Option ArgumentKind × Operand)
  | [] => []
  | s :: ss => s.parts names ++ blockParts names ss

end

/-- The mark of an address that is a label. -/
def markAt (labels : List UInt32) (address : Nat) : List Statement :=
  if labels.any fun l => l.toNat == address then [.mark (UInt32.ofNat address)] else []

mutual

/-- A statement at an address, and those in its block, after their labels. -/
def Statement.marked (labels : List UInt32) (address : Nat) : Statement → List Statement
  | .action a => markAt labels address ++ [.action a]
  | .block guard body =>
    markAt labels address ++ [.block guard (markedBlock labels (address + guard.size) body)]
  | .mark _ => []

/-- The statements of a block at an address, after their labels. -/
def markedBlock (labels : List UInt32) (address : Nat) : List Statement → List Statement
  | [] => []
  | s :: ss => s.marked labels address ++ markedBlock labels (address + s.size) ss

end

/-- What statements and guards are read as, which is nothing longer. -/
structure Sense where
  action : Action → Action
  guard : Guard → Guard
  action_size : ∀ a, (action a).size ≤ a.size
  guard_size : ∀ g, (guard g).size ≤ g.size

mutual

/-- The lines of a statement are read in a sense, and bring no new strings. -/
def Statement.Reads (names : Names) (m : Sense) : Statement → Prop
  | .action a =>
    Yields (readPiece names.catalog (Source.lineTokens names.catalog (a.lexemes names))) names.strings
      (.statement (.action (m.action a))) names.strings
  | .block guard body =>
    Yields (readPiece names.catalog (Source.lineTokens names.catalog (guard.lexemes names))) names.strings
      (.guard (m.guard guard)) names.strings ∧ blockReads names m body
  | .mark _ => False

/-- The lines of a block are read in a sense, and bring no new strings. -/
def blockReads (names : Names) (m : Sense) : List Statement → Prop
  | [] => True
  | s :: ss => s.Reads names m ∧ blockReads names m ss

end

mutual

/-- What a statement at an address, and those in its block, are read as, after their labels. -/
def Statement.shown (m : Sense) (labels : List UInt32) (address : Nat) : Statement → List Statement
  | .action a => markAt labels address ++ [.action (m.action a)]
  | .block guard body =>
    markAt labels address ++ [.block (m.guard guard) (shownBlock m labels (address + guard.size) body)]
  | .mark _ => []

/-- What the statements of a block at an address are read as, after their labels. -/
def shownBlock (m : Sense) (labels : List UInt32) (address : Nat) : List Statement → List Statement
  | [] => []
  | s :: ss => s.shown m labels address ++ shownBlock m labels (address + s.size) ss

end

/-! ### Sizes -/

variable {names : Names}

theorem length_encode_numberOf (kind : Option ArgumentKind) (value : Int32) (layout : Layout) :
    ((numberOf kind value).encode layout).length = 5 := by
  rw [numberOf]
  split <;> rfl

theorem length_encode_stringOf (kind : Option ArgumentKind) (text : String) (layout : Layout) :
    ((names.stringOf kind text).encode layout).length = 5 := by
  rw [Names.stringOf]
  split <;> rfl

theorem length_argumentsNormal (routine : UInt16) (as : List Operand) :
    ∀ index, (argumentsNormal names routine index as).length = as.length := by
  induction as with
  | nil => exact fun _ => rfl
  | cons a as ih =>
    intro index
    rw [argumentsNormal, List.length_cons, List.length_cons, ih]

mutual

theorem Operand.length_normal : ∀ (o : Operand) (kind : Option ArgumentKind) (layout : Layout),
    ((o.normal names kind).encode layout).length = (o.encode layout).length
  | .flag _, _, _ => by rw [Operand.normal]
  | .var _, _, _ => by rw [Operand.normal]
  | .field object _, _, _ => by
    simp only [Operand.normal, Operand.encode, List.length_cons, List.length_append, object.length_normal]
  | .literal value, kind, layout => by
    rw [Operand.normal, length_encode_numberOf]
    rfl
  | .flexible value, kind, layout => by
    unfold Operand.normal
    split
    · rw [length_encode_stringOf]
      rfl
    · rw [length_encode_numberOf]
      rfl
  | .string index, kind, layout => by
    rw [Operand.normal, length_encode_stringOf]
    rfl
  | .call routine arguments, _, _ => by
    simp only [Operand.normal, Operand.encode, List.length_cons, List.length_append,
      length_argumentsNormal, length_encode_argumentsNormal arguments]
  | .objectCall object _ routine arguments, _, _ => by
    simp only [Operand.normal, Operand.encode, List.length_cons, List.length_append, object.length_normal,
      length_argumentsNormal, length_encode_argumentsNormal arguments]

theorem Object.length_normal : ∀ o : Object, (o.normal names).encode.length = o.encode.length
  | .builtin _ => rfl
  | .named _ => rfl
  | .dynamic value => by
    simp only [Object.normal, Object.encode, List.length_cons, value.length_normal]

theorem length_encode_argumentsNormal : ∀ (as : List Operand) (routine : UInt16) (index : Nat),
    (encodeArguments (argumentsNormal names routine index as)).length = (encodeArguments as).length
  | [], _, _ => rfl
  | a :: as, routine, index => by
    simp only [argumentsNormal, encodeArguments, List.length_append, a.length_normal,
      length_encode_argumentsNormal as]

end

theorem Formula.length_normal : ∀ f : Formula, (f.normal names).encode.length = f.encode.length
  | .last operand => operand.length_normal none .packed
  | .more operand _ rest => by
    simp only [Formula.normal, Formula.encode, List.length_append, List.length_cons,
      operand.length_normal, rest.length_normal]

theorem Condition.length_normal : ∀ c : Condition, (c.normal names).encode.length = c.encode.length
  | .last comparison => by
    simp only [Condition.normal, Condition.encode, Comparison.normal, Comparison.encode,
      List.length_append, List.length_cons, Formula.length_normal]
  | .more comparison _ rest => by
    simp only [Condition.normal, Condition.encode, Comparison.normal, Comparison.encode,
      List.length_append, List.length_cons, Formula.length_normal, rest.length_normal]

@[simp] theorem Guard.size_normal (g : Guard) : (g.normal names).size = g.size := by
  cases g with
  | condition c => simp only [Guard.size, Guard.normal, Guard.encode, List.length_cons, c.length_normal]
  | result value => rfl

theorem Place.operand_normal (p : Place) : (p.normal names).operand = p.operand.normal names none := by
  cases p <;> simp only [Place.normal, Place.operand, Operand.normal]

theorem Place.length_normal (p : Place) :
    ((p.normal names).operand.encode .packed).length = (p.operand.encode .packed).length := by
  rw [p.operand_normal, Operand.length_normal]

@[simp] theorem Action.size_normal (a : Action) : (a.normal names).size = a.size := by
  cases a with
  | call mode routine arguments =>
    simp only [Action.size, Action.normal, Action.encode, List.length_cons, List.length_append,
      length_argumentsNormal, length_encode_argumentsNormal]
  | objectCall object mode routine arguments =>
    simp only [Action.size, Action.normal, Action.encode, Operand.encode, List.length_cons,
      List.length_append, object.length_normal, length_argumentsNormal, length_encode_argumentsNormal]
  | assign place formula =>
    simp only [Action.size, Action.normal, Action.encode, List.length_append, place.length_normal,
      formula.length_normal]
  | _ => rfl

mutual

@[simp] theorem Statement.size_normal : ∀ s : Statement, (s.normal names).size = s.size
  | .action a => by simp only [Statement.normal, Statement.size, Action.size_normal]
  | .block guard body => by
    simp only [Statement.normal, Statement.size, Guard.size_normal, blockSize_normal body]
  | .mark _ => rfl

@[simp] theorem blockSize_normal : ∀ ss : List Statement, blockSize (normalBlock names ss) = blockSize ss
  | [] => rfl
  | s :: ss => by simp only [normalBlock, blockSize, s.size_normal, blockSize_normal ss]

end

theorem blockSize_append (as bs : List Statement) : blockSize (as ++ bs) = blockSize as + blockSize bs := by
  induction as with
  | nil => exact (Nat.zero_add _).symm
  | cons s as ih => rw [List.cons_append, blockSize, ih, blockSize, Nat.add_assoc]

theorem blockSize_markAt (labels : List UInt32) (address : Nat) : blockSize (markAt labels address) = 0 := by
  rw [markAt]
  split <;> rfl

mutual

theorem Statement.size_shown_le (m : Sense) (labels : List UInt32) : ∀ (s : Statement) (address : Nat),
    blockSize (s.shown m labels address) ≤ s.size
  | .action a, address => by
    rw [Statement.shown, blockSize_append, blockSize_markAt, Nat.zero_add]
    exact m.action_size a
  | .block guard body, address => by
    rw [Statement.shown, blockSize_append, blockSize_markAt, Nat.zero_add, blockSize, blockSize, Nat.add_zero,
      Statement.size, Statement.size]
    exact Nat.add_le_add (m.guard_size guard) (blockSize_shown_le m labels body _)
  | .mark _, _ => Nat.zero_le _

/-- Lines are read as nothing longer than the statements that they show. -/
theorem blockSize_shown_le (m : Sense) (labels : List UInt32) : ∀ (ss : List Statement) (address : Nat),
    blockSize (shownBlock m labels address ss) ≤ blockSize ss
  | [], _ => Nat.le_refl 0
  | s :: ss, address => by
    rw [shownBlock, blockSize_append, blockSize]
    exact Nat.add_le_add (s.size_shown_le m labels address) (blockSize_shown_le m labels ss _)

end

/-! ### Lines -/

/-- What a block must be for its lines to give it back. -/
structure Restorable (names : Names) (ss : List Statement) : Prop where
  fits : blockFits names.strings.length ss
  textual : blockTextual ss
  short : ∀ part ∈ blockParts names ss, names.Short part

theorem Restorable.tail {s : Statement} {ss : List Statement} (h : Restorable names (s :: ss)) :
    Restorable names ss :=
  ⟨h.fits.2, h.textual.2, (List.forall_mem_append.mp h.short).2⟩

theorem Restorable.body {guard : Guard} {body ss : List Statement}
    (h : Restorable names (.block guard body :: ss)) : Restorable names body :=
  ⟨h.fits.1.2.1, h.textual.1.2, (List.forall_mem_append.mp (List.forall_mem_append.mp h.short).1).2⟩

/-- Assembly has gone from a body to another by adding statements to the innermost block. -/
structure Extends (b b' : Body) (ss : List Statement) : Prop where
  strings : b'.strings = b.strings
  frames : b'.frames = b.frames
  done : b'.settle.done = ss.reverse ++ b.settle.done

theorem Extends.refl (b : Body) : Extends b b [] := ⟨rfl, rfl, rfl⟩

theorem Extends.trans {a b c : Body} {ss ts : List Statement} (h : Extends a b ss)
    (h' : Extends b c ts) : Extends a c (ss ++ ts) := by
  refine ⟨h'.strings.trans h.strings, h'.frames.trans h.frames, ?_⟩
  rw [h'.done, h.done, List.reverse_append, List.append_assoc]

theorem extends_statement {b b' : Body} {s : Statement} (strings : b'.strings = b.strings)
    (frames : b'.frames = b.frames) (pending : b'.pending = none) (done : b'.done = s :: b.settle.done) :
    Extends b b' [s] := by
  refine ⟨strings, frames, ?_⟩
  rw [Body.settle_of_pending pending, done]
  rfl

/-- A line of a body with its remark. -/
theorem bodyRuns_text {catalog : Catalog} {ls : List Source.Lexeme} (legible : Source.Legible catalog ls)
    {text : String} (ht : text.toList = Source.rawText ls) (indent : Nat) {remark : String}
    (hr : Source.Remark remark.toList) {piece : Piece} {b b' : Body}
    (run : Yields (readPiece catalog (Source.lineTokens catalog ls)) b.strings piece b.strings)
    (add : b.settle.add piece = .ok b') : BodyRuns catalog [margin indent ++ text ++ remark] b b' := by
  obtain ⟨prepared, h, tokens⟩ := legible.prepared (4 * indent) hr
  have raw : (margin indent ++ text ++ remark).toList =
      List.replicate (4 * indent) ' ' ++ Source.rawText ls ++ remark.toList := by
    rw [String.toList_append, String.toList_append, toList_margin, ht]
  rw [← raw] at h
  refine bodyRuns_piece h tokens run ?_
  rw [← Body.strings_settle]
  exact add

theorem apart_label (label : UInt32) : Source.Apart [.label label, .symbol .colon] := by
  refine ⟨fun next _ => ⟨trivial, ?_, trivial, fun _ _ => rfl, trivial⟩, ⟨_, _, rfl, rfl, rfl, rfl⟩⟩
  rintro c ⟨⟩
  rfl

theorem text_label (label : UInt32) : ("#" ++ Text.decimal label.toNat ++ ":").toList =
    Source.rawText [.label label, .symbol .colon] := by
  simp [Source.Lexeme.raw, Source.Symbol.text]

/-- The line for a label marks it. -/
theorem bodyRuns_label {catalog : Catalog} {b : Body} {label : UInt32} (new : label ∉ b.marked)
    (indent : Nat) :
    BodyRuns catalog [margin indent ++ "#" ++ Text.decimal label.toNat ++ ":"] b
      { b.settle with marked := label :: b.marked, done := .mark label :: b.settle.done } := by
  have added : b.settle.add (.statement (.mark label)) =
      .ok { b.settle with marked := label :: b.marked, done := .mark label :: b.settle.done } := by
    have absent : b.settle.marked.contains label = false := by
      rw [Body.marked_settle]
      simpa using new
    rw [Body.add, absent, Body.marked_settle]
    rfl
  have noRemark : Source.Remark "".toList := .none
  have legible : Source.Legible catalog [.label label, .symbol .colon] := ⟨apart_label label, by simp⟩
  have line := bodyRuns_text legible (text_label label) indent noRemark rfl added
  rwa [String.append_empty, ← String.append_assoc, ← String.append_assoc] at line

/-- The lines for the label in front of an instruction, if it has one. -/
theorem bodyRuns_markAt (catalog : Catalog) (labels : List UInt32) (indent address : Nat) {b : Body}
    (old : ∀ l ∈ b.marked, l.toNat < address) :
    ∃ b', BodyRuns catalog (if labels.any fun l => l.toNat == address then
        [margin indent ++ "#" ++ Text.decimal address ++ ":"] else []) b b' ∧
      Extends b b' (markAt labels address) ∧ ∀ l ∈ b'.marked, l.toNat ≤ address := by
  by_cases isLabel : (labels.any fun l => l.toNat == address) = true
  · rw [markAt, if_pos isLabel, if_pos isLabel]
    obtain ⟨label, -, same⟩ := List.any_eq_true.mp isLabel
    obtain rfl : label.toNat = address := beq_iff_eq.mp same
    rw [UInt32.ofNat_toNat]
    have new : label ∉ b.marked := fun mem => Nat.lt_irrefl _ (old label mem)
    refine ⟨_, bodyRuns_label new indent,
      extends_statement b.strings_settle b.frames_settle b.pending_settle rfl, ?_⟩
    simp only [List.forall_mem_cons, Nat.le_refl, true_and]
    exact fun l hl => Nat.le_of_lt (old l hl)
  · rw [markAt, if_neg isLabel, if_neg isLabel]
    exact ⟨b, bodyRuns_nil b, .refl b, fun l hl => Nat.le_of_lt (old l hl)⟩

/-- The lines of an instruction are the line of its label and that of its text. -/
theorem Instruction.lines_eq (i : Instruction) : ∃ remark : String, Source.Remark remark.toList ∧
    i.lines = (if i.isLabel then [margin i.indent ++ "#" ++ Text.decimal i.address ++ ":"] else []) ++
      [margin i.indent ++ i.text ++ remark] := by
  rw [Instruction.lines]
  cases i.remark with
  | none => exact ⟨"", .none, rfl⟩
  | some remark =>
    have head : " // ".toList = ' ' :: '/' :: '/' :: [' '] := by decide
    refine ⟨" // " ++ remark, ?_, rfl⟩
    rw [String.toList_append, head]
    exact .some (' ' :: remark.toList)

/-- The lines of an instruction mark its label and add what its text says. -/
theorem bodyRuns_instruction {catalog : Catalog} {labels : List UInt32} {i : Instruction}
    (isLabel : i.isLabel = labels.any fun l => l.toNat == i.address)
    {ls : List Source.Lexeme} (legible : Source.Legible catalog ls)
    (text : i.text.toList = Source.rawText ls) {piece : Piece} {b : Body}
    (run : Yields (readPiece catalog (Source.lineTokens catalog ls)) b.strings piece b.strings)
    (old : ∀ l ∈ b.marked, l.toNat < i.address) {add : Body → Body}
    (added : ∀ b : Body, b.add piece = .ok (add b)) :
    ∃ b', Extends b b' (markAt labels i.address) ∧ (∀ l ∈ b'.marked, l.toNat ≤ i.address) ∧
      BodyRuns catalog i.lines b (add b'.settle) := by
  obtain ⟨b', marks, extended, bound⟩ := bodyRuns_markAt catalog labels i.indent i.address old
  obtain ⟨remark, hr, lines⟩ := i.lines_eq
  refine ⟨b', extended, bound, ?_⟩
  rw [lines, isLabel]
  refine marks.append (bodyRuns_text legible text i.indent hr ?_ (added _))
  rwa [extended.strings]

theorem bodyRuns_action (sound : names.catalog.Sound) (clean : names.catalog.Clean) {m : Sense} {a : Action}
    (h : (Statement.action a).Reads names m) (labels : List UInt32) (indent address : Nat) {b : Body}
    (strings : b.strings = names.strings) (old : ∀ l ∈ b.marked, l.toNat < address) :
    ∃ b', BodyRuns names.catalog (a.instruction names labels indent address).lines b b' ∧
      Extends b b' (markAt labels address ++ [.action (m.action a)]) ∧
      ∀ l ∈ b'.marked, l.toNat ≤ address := by
  rw [Statement.Reads, ← strings] at h
  obtain ⟨b', extended, bound, run⟩ := bodyRuns_instruction
    (i := a.instruction names labels indent address) rfl (a.legible sound clean)
    (a.text_eq names) h old fun _ => rfl
  refine ⟨_, run, extended.trans ?_, ?_⟩
  · exact extends_statement b'.strings_settle b'.frames_settle b'.pending_settle rfl
  · intro l hl
    rw [Body.marked_settle] at hl
    exact bound l hl

theorem bodyRuns_guard (sound : names.catalog.Sound) (clean : names.catalog.Clean) {guard guard' : Guard}
    (read : Yields (readPiece names.catalog (Source.lineTokens names.catalog (guard.lexemes names))) names.strings
      (.guard guard') names.strings) (labels : List UInt32) (indent address : Nat) {b : Body}
    (strings : b.strings = names.strings) (old : ∀ l ∈ b.marked, l.toNat < address) :
    ∃ b', Extends b b' (markAt labels address) ∧ (∀ l ∈ b'.marked, l.toNat ≤ address) ∧
      BodyRuns names.catalog (guard.instruction names labels indent address).lines b
        { b'.settle with pending := some guard' } := by
  rw [← strings] at read
  exact bodyRuns_instruction (i := guard.instruction names labels indent address) rfl
    (guard.legible sound clean) (guard.text_eq names) read old fun _ => rfl

/-- Lines between braces, after a guard, add a block. -/
theorem bodyRuns_block {catalog : Catalog} {lines : List String} {guard : Guard} {body : List Statement}
    {b b' : Body} (indent : Nat) (bounded : blockSize body ≤ 4294967295)
    (run : BodyRuns catalog lines ({ b.settle with pending := some guard }.openBlock guard) b')
    (extended : Extends ({ b.settle with pending := some guard }.openBlock guard) b' body) :
    ∃ b'', BodyRuns catalog ([margin indent ++ Text.leftBrace] ++ lines ++ [margin indent ++ Text.rightBrace])
        { b.settle with pending := some guard } b'' ∧
      Extends b b'' [.block guard body] ∧ b''.marked = b'.marked := by
  have frames : b'.settle.frames = ⟨guard, b.settle.done⟩ :: b.frames := by
    rw [Body.frames_settle, extended.frames, ← Body.frames_settle b]
    rfl
  have inner : b'.settle.done.reverse = body := by
    rw [extended.done, List.reverse_append, List.reverse_reverse]
    rfl
  have closed : b'.settle.closeBlock? = some (.ok { b'.settle with
      frames := b.frames, done := .block guard b'.settle.done.reverse :: b.settle.done }) :=
    Body.closeBlock?_eq_ok.mpr ⟨_, _, frames, inner ▸ bounded, rfl⟩
  refine ⟨_, ((bodyRuns_open indent rfl).append run).append (bodyRuns_close indent closed), ?_,
    b'.marked_settle⟩
  refine extends_statement ?_ rfl b'.pending_settle ?_
  · exact b'.strings_settle.trans (extended.strings.trans b.strings_settle)
  · show Statement.block _ b'.settle.done.reverse :: _ = _
    rw [inner]

/-- The lines of a block add what they are read as, each statement after its label. The labels that
are marked on the way lie in the block, so none is marked twice; the blocks in it are no longer than it is, so
all their lengths can be written. -/
theorem runs_shownBlock (sound : names.catalog.Sound) (clean : names.catalog.Clean) {m : Sense}
    (labels : List UInt32) : ∀ (ss : List Statement), blockReads names m ss → blockSize ss ≤ 4294967295 →
    ∀ (indent address : Nat) (b : Body), b.strings = names.strings →
      (∀ l ∈ b.marked, l.toNat < address) →
      ∃ b', BodyRuns names.catalog (blockLines names labels indent address ss) b b' ∧
        Extends b b' (shownBlock m labels address ss) ∧
        ∀ l ∈ b'.marked, l.toNat < address + blockSize ss
  | [], _, _, indent, address, b, _, old => ⟨b, bodyRuns_nil b, .refl b, old⟩
  | .action a :: ss, h, short, indent, address, b, strings, old => by
    rw [blockSize, Statement.size] at short
    obtain ⟨b₁, run₁, extended₁, bound₁⟩ := bodyRuns_action sound clean h.1 labels indent address strings old
    have pos := a.size_pos
    obtain ⟨b₂, run₂, extended₂, bound₂⟩ := runs_shownBlock sound clean labels ss h.2 (by omega) indent
      (address + a.size) b₁ (extended₁.strings.trans strings)
      (fun l hl => Nat.lt_of_le_of_lt (bound₁ l hl) (by omega))
    refine ⟨b₂, run₁.append run₂, extended₁.trans extended₂, ?_⟩
    rw [blockSize, Statement.size, ← Nat.add_assoc]
    exact bound₂
  | .block guard body :: ss, h, short, indent, address, b, strings, old => by
    rw [blockSize, Statement.size] at short
    obtain ⟨b₁, extended₁, bound₁, run₁⟩ := bodyRuns_guard sound clean h.1.1 labels indent address strings old
    have pos : 0 < guard.size := Nat.succ_pos _
    -- The block of the guard, whether its lines are left out or not.
    have block : ∃ b₂, BodyRuns names.catalog ((Statement.block guard body).lines names labels indent address)
          b b₂ ∧
        Extends b₁ b₂ [.block (m.guard guard) (shownBlock m labels (address + guard.size) body)] ∧
        ∀ l ∈ b₂.marked, l.toNat < address + guard.size + blockSize body := by
      rw [Statement.lines]
      cases body with
      | nil =>
        refine ⟨_, run₁.append (bodyRuns_nil _), ⟨b₁.strings_settle, b₁.frames_settle, rfl⟩, ?_⟩
        intro l hl
        have := bound₁ l (by rwa [← Body.marked_settle])
        omega
      | cons s body =>
        obtain ⟨b₂, run₂, extended₂, bound₂⟩ := runs_shownBlock sound clean labels (s :: body) h.1.2
          (by omega) (indent + 1) (address + guard.size)
          ({ b₁.settle with pending := some (m.guard guard) }.openBlock (m.guard guard))
          (b₁.strings_settle.trans (extended₁.strings.trans strings))
          (fun l hl => Nat.lt_of_le_of_lt (bound₁ l (by rwa [← Body.marked_settle])) (by omega))
        have bounded := blockSize_shown_le m labels (s :: body) (address + guard.size)
        obtain ⟨b₃, run₃, extended₃, marked⟩ := bodyRuns_block indent (by omega) run₂ extended₂
        refine ⟨b₃, run₁.append run₃, extended₃, ?_⟩
        rwa [marked]
    obtain ⟨b₂, run₂, extended₂, bound₂⟩ := block
    obtain ⟨b₃, run₃, extended₃, bound₃⟩ := runs_shownBlock sound clean labels ss h.2 (by omega) indent
      (address + (guard.size + blockSize body)) b₂
      (extended₂.strings.trans (extended₁.strings.trans strings))
      (by rwa [← Nat.add_assoc])
    refine ⟨b₃, run₂.append run₃, (extended₁.trans extended₂).trans extended₃, ?_⟩
    rw [blockSize, Statement.size, ← Nat.add_assoc]
    exact bound₃
  | .mark _ :: _, h, _, _, _, _, _, _ => h.1.elim

/-! ### Normal forms -/

/-- Statements and guards are read as their normal forms. -/
def Sense.normal (names : Names) : Sense where
  action := Action.normal names
  guard := Guard.normal names
  action_size a := Nat.le_of_eq a.size_normal
  guard_size g := Nat.le_of_eq g.size_normal

theorem Restorable.reads (sound : names.catalog.Sound) (clean : names.catalog.Clean) :
    ∀ ss : List Statement, Restorable names ss → blockReads names (.normal names) ss
  | [], _ => trivial
  | .action _ :: ss, h =>
    ⟨Action.yields_normal sound clean h.fits.1 h.textual.1 (List.forall_mem_append.mp h.short).1,
      reads sound clean ss h.tail⟩
  | .block guard body :: ss, h => by
    have parts := List.forall_mem_append.mp (List.forall_mem_append.mp h.short).1
    exact ⟨⟨Guard.yields_normal sound clean h.fits.1.1 h.textual.1.1 parts.1, reads sound clean body h.body⟩,
      reads sound clean ss h.tail⟩
  | .mark _ :: _, h => h.fits.1.elim

mutual

theorem Statement.shown_normal (labels : List UInt32) : ∀ (s : Statement) (address : Nat),
    s.shown (.normal names) labels address = (s.normal names).marked labels address
  | .action _, _ => rfl
  | .block guard body, address => by
    rw [Statement.shown, Statement.normal, Statement.marked, Guard.size_normal, shownBlock_normal labels body]
    rfl
  | .mark _, _ => rfl

theorem shownBlock_normal (labels : List UInt32) : ∀ (ss : List Statement) (address : Nat),
    shownBlock (.normal names) labels address ss = markedBlock labels address (normalBlock names ss)
  | [], _ => rfl
  | s :: ss, address => by
    rw [shownBlock, normalBlock, markedBlock, s.shown_normal, Statement.size_normal, shownBlock_normal labels ss]

end

/-- The lines of a block that the script text has words for add the normal forms of its statements. -/
theorem runs_blockLines (sound : names.catalog.Sound) (clean : names.catalog.Clean) (labels : List UInt32)
    {ss : List Statement} (h : Restorable names ss) (short : blockSize ss ≤ 4294967295) (indent address : Nat)
    {b : Body} (strings : b.strings = names.strings) (old : ∀ l ∈ b.marked, l.toNat < address) :
    ∃ b', BodyRuns names.catalog (blockLines names labels indent address ss) b b' ∧
      Extends b b' (markedBlock labels address (normalBlock names ss)) ∧
      ∀ l ∈ b'.marked, l.toNat < address + blockSize ss := by
  rw [← shownBlock_normal]
  exact runs_shownBlock sound clean labels ss (h.reads sound clean ss) short indent address b strings old

end EventScript.Code
