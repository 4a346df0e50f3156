import EventScript.Proofs.Decoded
import EventScript.Proofs.LineAcceptance
import EventScript.Proofs.Reassembly

/-!
# Listings that assembly accepts

Not every listing can be assembled: code may choose an object by a number or by a call, or call a routine of an object
without waiting for its value, and the listing then shows what the script text has no words for. The other listings are
accepted (`listing_assembles_iff`). A refusal is always a line's: once all lines are read, every label has its place.
-/

namespace EventScript

open Assembly

namespace Assembly

variable {catalog : Catalog} {map : String} {s s' : State}

/-- Lines that stand somewhere can be prepared, and assembly goes through them from a state. -/
def Passes (catalog : Catalog) (map : String) (raws : List String) (s : State) : Prop :=
  ∃ n k ls t, Source.preparedFrom catalog n raws = .ok ls ∧
    (ls.foldlM (State.step catalog map) { s with line := k }).result = .ok t

/-- What follows lines that are known to run is gone through from the state they lead to. -/
theorem Passes.after {as bs : List String} (run : Runs catalog map as s s') (h : Passes catalog map (as ++ bs) s) :
    Passes catalog map bs s' := by
  obtain ⟨n, k, ls, t, prepared, passed⟩ := h
  obtain ⟨la, lb, first, second, rfl⟩ := Source.preparedFrom_append_eq_ok.mp prepared
  obtain ⟨la', k', again, reached⟩ := run n k
  cases first.symm.trans again
  obtain ⟨u, here, rest⟩ := Traced.result_foldlM_append.mp passed
  cases here.symm.trans reached
  exact ⟨n + as.length, k', lb, t, second, rest⟩

/-- A line of a body that does not begin with a brace, and that assembly goes through, is read. -/
theorem Passes.reads {raw : String} {raws : List String} {text : List Char} {t : Source.Token}
    {ts : List Source.Token} (prepared : Source.prepared catalog raw.toList = .ok (some text))
    (tokens : Source.tokens text = .ok (t :: ts)) (notLeft : t ≠ .sym .leftBrace) (notRight : t ≠ .sym .rightBrace)
    {name : String} {p : Preamble} {b : Body} (phase : s.phase = .body name p b)
    (h : Passes catalog map (raw :: raws) s) :
    ∃ piece strings, Yields (readPiece catalog (t :: ts)) b.strings piece strings := by
  obtain ⟨n, k, ls, u, lines, passed⟩ := h
  obtain ⟨text', rest, here, -, rfl⟩ := Source.preparedFrom_cons_eq_ok.mp lines
  cases prepared.symm.trans here
  obtain ⟨v, first, -⟩ := Traced.result_foldlM_cons.mp passed
  -- A line that is a brace would have the brace as its first token.
  have brace : ∀ symbol : Source.Symbol, text = symbol.text.toList → t = .sym symbol := by
    rintro symbol rfl
    cases (tokens_single symbol).symm.trans tokens
    rfl
  cases step_cases first with
  | begin idle => cases phase.symm.trans idle
  | setting other => cases phase.symm.trans other
  | enter other => cases phase.symm.trans other
  | openBlock _ left => exact absurd (brace .leftBrace (left.trans (by decide))) notLeft
  | closeBlock _ right => exact absurd (brace .rightBrace (right.trans (by decide))) notRight
  | leave _ right => exact absurd (brace .rightBrace (right.trans (by decide))) notRight
  | piece same _ _ scanned read =>
    cases phase.symm.trans same
    cases tokens.symm.trans scanned
    exact ⟨_, _, read⟩

end Assembly

namespace Code

variable {names : Names}

/-! ### Lines that are read -/

/-- Statements and guards are read as the normal forms of what the text shows. -/
def Sense.direct (names : Names) : Sense where
  action a := a.direct.normal names
  guard g := g.direct.normal names
  action_size a := a.direct.size_normal ▸ a.size_direct_le
  guard_size g := g.direct.size_normal ▸ g.size_direct_le

/-- A statement whose line is read in any way has words for what it shows, and dialogue labels with indices that
numbers can hold. -/
theorem Action.worded_of_yields (sound : names.catalog.Sound) (clean : names.catalog.Clean) {a : Action}
    (fits : a.Fits names.strings.length) {piece : Piece} {after : List String}
    (run : Yields (readPiece names.catalog (Source.lineTokens names.catalog (a.lexemes names))) names.strings piece
      after) : a.direct.Textual ∧ ∀ part ∈ a.direct.parts names, names.Short part := by
  have textual := Action.textual_of_yields sound clean run
  exact ⟨textual, Action.short_of_yields sound clean (Action.fits_direct fits) textual run⟩

theorem Guard.worded_of_yields (sound : names.catalog.Sound) (clean : names.catalog.Clean) {g : Guard}
    (fits : g.Fits names.strings.length) {piece : Piece} {after : List String}
    (run : Yields (readPiece names.catalog (Source.lineTokens names.catalog (g.lexemes names))) names.strings piece
      after) : g.direct.Textual ∧ ∀ part ∈ g.direct.parts names, names.Short part :=
  ⟨Guard.textual_of_yields sound clean run, Guard.short_of_yields sound clean (Guard.fits_direct fits) run⟩

theorem Action.reads_iff (sound : names.catalog.Sound) (clean : names.catalog.Clean) {a : Action}
    (fits : a.Fits names.strings.length) : (Statement.action a).Reads names (.direct names) ↔
      a.direct.Textual ∧ ∀ part ∈ a.direct.parts names, names.Short part := by
  constructor
  · exact Action.worded_of_yields sound clean fits
  · rintro ⟨textual, short⟩
    have run := Action.yields_normal sound clean (Action.fits_direct fits) textual short
    rwa [a.lexemes_direct] at run

theorem Guard.reads_iff (sound : names.catalog.Sound) (clean : names.catalog.Clean) {g : Guard}
    (fits : g.Fits names.strings.length) :
    Yields (readPiece names.catalog (Source.lineTokens names.catalog (g.lexemes names))) names.strings
        (.guard (g.direct.normal names)) names.strings ↔
      g.direct.Textual ∧ ∀ part ∈ g.direct.parts names, names.Short part := by
  constructor
  · exact Guard.worded_of_yields sound clean fits
  · rintro ⟨textual, short⟩
    have run := Guard.yields_normal sound clean (Guard.fits_direct fits) textual short
    rwa [g.lexemes_direct] at run

/-- The lines of a block are read if and only if the text has words for what they show. -/
theorem blockReads_iff (sound : names.catalog.Sound) (clean : names.catalog.Clean) : ∀ ss : List Statement,
    blockFits names.strings.length ss → (blockReads names (.direct names) ss ↔
      blockTextual (directBlock ss) ∧ ∀ part ∈ blockParts names (directBlock ss), names.Short part)
  | [], _ => by simp [blockReads, directBlock, blockTextual, blockParts]
  | .action a :: ss, fits => by
    rw [blockReads, Action.reads_iff sound clean fits.1, blockReads_iff sound clean ss fits.2, directBlock,
      Statement.direct, blockTextual, Statement.Textual, blockParts, Statement.parts, List.forall_mem_append]
    exact and_and_and_comm
  | .block guard body :: ss, fits => by
    rw [blockReads, Statement.Reads, blockReads_iff sound clean ss fits.2, blockReads_iff sound clean body fits.1.2.1]
    have read := Guard.reads_iff sound clean fits.1.1
    simp only [Sense.direct] at read ⊢
    rw [read, directBlock, Statement.direct, blockTextual, Statement.Textual, blockParts, Statement.parts,
      List.forall_mem_append, List.forall_mem_append]
    constructor
    · rintro ⟨⟨⟨first, short⟩, inner, shorts⟩, others, rest⟩
      exact ⟨⟨⟨first, inner⟩, others⟩, ⟨short, shorts⟩, rest⟩
    · rintro ⟨⟨⟨first, inner⟩, others⟩, ⟨short, shorts⟩, rest⟩
      exact ⟨⟨⟨first, short⟩, inner, shorts⟩, others, rest⟩
  | .mark _ :: _, fits => fits.1.elim

/-! ### Lines that are gone through -/

theorem Action.front_token (sound : names.catalog.Sound) (clean : names.catalog.Clean) (a : Action) :
    ∃ t ts, Source.lineTokens names.catalog (a.lexemes names) = t :: ts ∧ t ≠ .sym .leftBrace ∧
      t ≠ .sym .rightBrace := by
  have operand : ∀ (o : Operand) (more : List Source.Lexeme),
      ∃ t ts, Source.lineTokens names.catalog ((o.toSource names none).lexemes ++ more) = t :: ts ∧
        t ≠ .sym .leftBrace ∧ t ≠ .sym .rightBrace := by
    intro o more
    obtain ⟨t, ts, tokens, opens⟩ := o.first_token sound clean none
    rw [Source.lineTokens_append, ← Operand.tokens, tokens]
    refine ⟨t, _, rfl, ?_, ?_⟩ <;> rintro rfl <;> cases opens
  have called : ∀ (mode : CallMode) (o : Operand),
      ∃ t ts, Source.lineTokens names.catalog (callLexemes mode ++ (o.toSource names none).lexemes) = t :: ts ∧
        t ≠ .sym .leftBrace ∧ t ≠ .sym .rightBrace := by
    intro mode o
    cases mode with
    | task =>
      rw [callLexemes, List.nil_append, ← List.append_nil (Source.Operand.lexemes _)]
      exact operand o []
    | async => exact ⟨_, _, rfl, by rintro ⟨⟩, by rintro ⟨⟩⟩
    | function => exact ⟨_, _, rfl, by rintro ⟨⟩, by rintro ⟨⟩⟩
  cases a with
  | call mode routine arguments => exact called mode _
  | objectCall object mode routine arguments => exact called mode _
  | assign place formula => exact operand place.operand _
  | goto target => cases target <;> exact ⟨_, _, rfl, by rintro ⟨⟩, by rintro ⟨⟩⟩
  | stop target => cases target <;> exact ⟨_, _, rfl, by rintro ⟨⟩, by rintro ⟨⟩⟩
  | _ => exact ⟨_, _, rfl, by rintro ⟨⟩, by rintro ⟨⟩⟩

theorem Guard.front_token (g : Guard) :
    ∃ t ts, Source.lineTokens names.catalog (g.lexemes names) = t :: ts ∧ t ≠ .sym .leftBrace ∧
      t ≠ .sym .rightBrace := by
  cases g <;> exact ⟨_, _, rfl, by rintro ⟨⟩, by rintro ⟨⟩⟩

/-- The text of an instruction that assembly goes through is read. -/
theorem Instruction.reads {catalog : Catalog} {labels : List UInt32} {i : Instruction}
    (isLabel : i.isLabel = labels.any fun l => l.toNat == i.address)
    {ls : List Source.Lexeme} (legible : Source.Legible catalog ls)
    (text : i.text.toList = Source.rawText ls)
    (front : ∃ t ts, Source.lineTokens catalog ls = t :: ts ∧ t ≠ .sym .leftBrace ∧ t ≠ .sym .rightBrace)
    {b : Body} (old : ∀ l ∈ b.marked, l.toNat < i.address) {map : String} {s : State} {name : String} {p : Preamble}
    {rest : List String} (h : Passes catalog map (i.lines ++ rest) { s with phase := .body name p b }) :
    ∃ piece strings, Yields (readPiece catalog (Source.lineTokens catalog ls)) b.strings piece strings := by
  obtain ⟨b', marks, extended, -⟩ := bodyRuns_markAt catalog labels i.indent i.address old
  obtain ⟨remark, hr, lines⟩ := i.lines_eq
  rw [lines, isLabel, List.append_assoc] at h
  have behind := h.after (marks map s name p)
  obtain ⟨prepared, here, tokens⟩ := legible.prepared (4 * i.indent) hr
  have raw : (margin i.indent ++ i.text ++ remark).toList =
      List.replicate (4 * i.indent) ' ' ++ Source.rawText ls ++ remark.toList := by
    rw [String.toList_append, String.toList_append, toList_margin, text]
  rw [← raw] at here
  obtain ⟨t, ts, split, notLeft, notRight⟩ := front
  rw [split] at tokens ⊢
  rw [← extended.strings]
  exact behind.reads here tokens notLeft notRight rfl

variable {map name : String} {p : Preamble} {s : State}

theorem Action.reads_of_passes (sound : names.catalog.Sound) (clean : names.catalog.Clean) {a : Action}
    (fits : a.Fits names.strings.length) {labels : List UInt32} {indent address : Nat} {b : Body}
    (strings : b.strings = names.strings) (old : ∀ l ∈ b.marked, l.toNat < address) {rest : List String}
    (h : Passes names.catalog map ((a.instruction names labels indent address).lines ++ rest)
      { s with phase := .body name p b }) : (Statement.action a).Reads names (.direct names) := by
  obtain ⟨piece, after, run⟩ := Instruction.reads (i := a.instruction names labels indent address) rfl
    (a.legible sound clean) (a.text_eq names) (a.front_token sound clean) old h
  rw [strings] at run
  exact (Action.reads_iff sound clean fits).mpr (Action.worded_of_yields sound clean fits run)

theorem Guard.reads_of_passes (sound : names.catalog.Sound) (clean : names.catalog.Clean) {g : Guard}
    (fits : g.Fits names.strings.length) {labels : List UInt32} {indent address : Nat} {b : Body}
    (strings : b.strings = names.strings) (old : ∀ l ∈ b.marked, l.toNat < address) {rest : List String}
    (h : Passes names.catalog map ((g.instruction names labels indent address).lines ++ rest)
      { s with phase := .body name p b }) :
    Yields (readPiece names.catalog (Source.lineTokens names.catalog (g.lexemes names))) names.strings
      (.guard (g.direct.normal names)) names.strings := by
  obtain ⟨piece, after, run⟩ := Instruction.reads (i := g.instruction names labels indent address) rfl
    (g.legible sound clean) (g.text_eq names) g.front_token old h
  rw [strings] at run
  exact (Guard.reads_iff sound clean fits).mpr (Guard.worded_of_yields sound clean fits run)

mutual

/-- The lines of a statement that assembly goes through are read. -/
theorem Statement.reads_of_passes (sound : names.catalog.Sound) (clean : names.catalog.Clean) (labels : List UInt32) :
    ∀ st : Statement, st.Fits names.strings.length → st.size ≤ 4294967295 →
    ∀ (indent address : Nat) (b : Body), b.strings = names.strings → (∀ l ∈ b.marked, l.toNat < address) →
    ∀ rest : List String, Passes names.catalog map (st.lines names labels indent address ++ rest)
        { s with phase := .body name p b } →
      st.Reads names (.direct names)
  | .action a, fits, _, indent, address, b, strings, old, rest, h =>
    Action.reads_of_passes sound clean fits strings old h
  | .block guard body, fits, short, indent, address, b, strings, old, rest, h => by
    rw [Statement.lines, List.append_assoc] at h
    rw [Statement.size] at short
    have guarded := Guard.reads_of_passes sound clean fits.1 strings old h
    refine ⟨guarded, ?_⟩
    cases body with
    | nil => trivial
    | cons first body =>
      obtain ⟨b₁, extended₁, bound₁, run₁⟩ := bodyRuns_guard sound clean guarded labels indent address strings old
      have pos : 0 < guard.size := Nat.succ_pos _
      have braced := h.after (run₁ map s name p)
      rw [if_neg (by simp), List.append_assoc, List.append_assoc] at braced
      have opened := braced.after (bodyRuns_open indent rfl map s name p)
      exact blockReads_of_passes sound clean labels (first :: body) fits.2.1 (by omega) (indent + 1)
        (address + guard.size)
        ({ b₁.settle with pending := some (guard.direct.normal names) }.openBlock (guard.direct.normal names))
        (b₁.strings_settle.trans (extended₁.strings.trans strings))
        (fun l hl => Nat.lt_of_le_of_lt (bound₁ l (by rwa [← Body.marked_settle])) (by omega)) _ opened
  | .mark _, fits, _, _, _, _, _, _, _, _ => fits.elim

/-- The lines of a block that assembly goes through are read. Each statement that is read takes assembly to where the
next one begins. -/
theorem blockReads_of_passes (sound : names.catalog.Sound) (clean : names.catalog.Clean) (labels : List UInt32) :
    ∀ ss : List Statement, blockFits names.strings.length ss → blockSize ss ≤ 4294967295 →
    ∀ (indent address : Nat) (b : Body), b.strings = names.strings → (∀ l ∈ b.marked, l.toNat < address) →
    ∀ rest : List String, Passes names.catalog map (blockLines names labels indent address ss ++ rest)
        { s with phase := .body name p b } →
      blockReads names (.direct names) ss
  | [], _, _, _, _, _, _, _, _, _ => trivial
  | st :: ss, fits, short, indent, address, b, strings, old, rest, h => by
    rw [blockLines, List.append_assoc] at h
    rw [blockSize] at short
    have first := st.reads_of_passes sound clean labels fits.1 (by omega) indent address b strings old _ h
    have alone : blockSize [st] ≤ 4294967295 := by
      rw [blockSize, blockSize]
      omega
    obtain ⟨b₁, run₁, extended₁, bound₁⟩ :=
      runs_shownBlock sound clean labels [st] ⟨first, trivial⟩ alone indent address b strings old
    rw [blockLines, blockLines, List.append_nil] at run₁
    exact ⟨first, blockReads_of_passes sound clean labels ss fits.2 (by omega) indent (address + st.size) b₁
      (extended₁.strings.trans strings) bound₁ rest (h.after (run₁ map s name p))⟩

end

/-! ### Labels of what is read -/

theorem Action.target?_direct (a : Action) : a.direct.target? = a.target? := by
  cases a <;> rfl

mutual

theorem Statement.targets_shown (labels : List UInt32) : ∀ (st : Statement) (address : Nat),
    blockTargets (st.shown (.direct names) labels address) = st.targets
  | .action a, address => by
    rw [Statement.shown, blockTargets_append, blockTargets_markAt, List.nil_append, blockTargets, blockTargets,
      List.append_nil, Statement.targets, Sense.direct, Action.target?_normal, a.target?_direct, Statement.targets]
  | .block guard body, address => by
    rw [Statement.shown, blockTargets_append, blockTargets_markAt, List.nil_append, blockTargets, blockTargets,
      List.append_nil, Statement.targets, blockTargets_shown labels body, Statement.targets]
  | .mark _, _ => rfl

/-- What is read jumps to the same labels. -/
theorem blockTargets_shown (labels : List UInt32) : ∀ (ss : List Statement) (address : Nat),
    blockTargets (shownBlock (.direct names) labels address ss) = blockTargets ss
  | [], _ => rfl
  | st :: ss, address => by
    rw [shownBlock, blockTargets_append, st.targets_shown labels, blockTargets_shown labels ss, blockTargets]

end

theorem marks_markAt {labels : List UInt32} {l : UInt32} (mem : l ∈ labels) (start : Nat) :
    (l, start) ∈ blockMarks start (markAt labels l.toNat) := by
  have found : (labels.any fun label => label.toNat == l.toNat) = true :=
    List.any_eq_true.mpr ⟨l, mem, beq_self_eq_true _⟩
  rw [markAt, if_pos found, UInt32.ofNat_toNat]
  exact List.mem_singleton_self _

mutual

theorem Statement.marks_shown {m : Sense} {labels : List UInt32} {l : UInt32} (mem : l ∈ labels) :
    ∀ (st : Statement) (address start : Nat), l.toNat ∈ st.starts address →
      ∃ a, (l, a) ∈ blockMarks start (st.shown m labels address)
  | .action a, address, start, h => by
    rw [Statement.starts, List.mem_singleton] at h
    rw [Statement.shown, blockMarks_append, ← h]
    exact ⟨start, List.mem_append_left _ (marks_markAt mem start)⟩
  | .block guard body, address, start, h => by
    rw [Statement.starts, List.mem_cons] at h
    rw [Statement.shown, blockMarks_append, blockMarks, blockMarks, List.append_nil, Statement.marks]
    rcases h with here | inner
    · rw [← here]
      exact ⟨start, List.mem_append_left _ (marks_markAt mem start)⟩
    · obtain ⟨a, marked⟩ := marks_shown mem body (address + guard.size) _ inner
      exact ⟨a, List.mem_append_right _ marked⟩
  | .mark _, _, _, h => by cases h

/-- Each label at which a statement begins is marked, wherever the statements come to lie. -/
theorem marks_shown {m : Sense} {labels : List UInt32} {l : UInt32} (mem : l ∈ labels) :
    ∀ (ss : List Statement) (address start : Nat), l.toNat ∈ blockStarts address ss →
      ∃ a, (l, a) ∈ blockMarks start (shownBlock m labels address ss)
  | [], _, _, h => by cases h
  | st :: ss, address, start, h => by
    rw [blockStarts, List.mem_append] at h
    rw [shownBlock, blockMarks_append]
    rcases h with here | later
    · obtain ⟨a, marked⟩ := st.marks_shown mem address start here
      exact ⟨a, List.mem_append_left _ marked⟩
    · obtain ⟨a, marked⟩ := marks_shown mem ss (address + st.size) _ later
      exact ⟨a, List.mem_append_right _ marked⟩

end

end Code

variable {catalog : Catalog} {u : ScriptUnit} {body : List Code.Statement}

/-- What the lines of a listing are read as. -/
def ScriptUnit.shownBody (catalog : Catalog) (u : ScriptUnit) (body : List Code.Statement) : List Code.Statement :=
  Code.shownBlock (.direct (u.names catalog)) (u.labels body) 0 body ++ u.endMark body

theorem address?_isSome {marks : List (UInt32 × Nat)} {l : UInt32} {a : Nat} (mem : (l, a) ∈ marks) :
    (address? marks l).isSome = true :=
  List.lookup_isSome_iff.mpr ⟨(l, a), mem, beq_self_eq_true l⟩

/-- Every label of a listing is marked in it. -/
theorem address?_shownBody (statements : (u.statements catalog).result = .ok body) {l : UInt32}
    (mem : l ∈ u.labels body) :
    (address? (Code.blockMarks 0 (u.shownBody catalog body)) l).isSome = true := by
  obtain ⟨-, labels⟩ := statements_eq_ok.mp statements
  rw [ScriptUnit.shownBody, Code.blockMarks_append]
  by_cases start : l.toNat ∈ Code.blockStarts 0 body
  · obtain ⟨a, marked⟩ := Code.marks_shown mem body 0 0 start
    exact address?_isSome (List.mem_append_left _ marked)
  · have last : l.toNat = u.code.length := (labels l mem).resolve_left start
    have shown := endLabel?_isSome.mpr ⟨⟨l, mem, last⟩, last ▸ start⟩
    rw [ScriptUnit.endMark, if_pos shown, ← last, UInt32.ofNat_toNat]
    exact address?_isSome (List.mem_append_right _ (List.mem_singleton_self _))

/-- What the lines of a listing are read as makes up a unit. -/
theorem unitOf_shownBody (statements : (u.statements catalog).result = .ok body) (map : String)
    (strings : List String) :
    ∃ v, (unitOf map u.header.name (listedPreamble u) strings (u.shownBody catalog body)).result = .ok v := by
  have targets : ∀ l ∈ Code.blockTargets (u.shownBody catalog body), l ∈ u.labels body := by
    have ends : Code.blockTargets (u.endMark body) = [] := by
      rw [ScriptUnit.endMark]
      split <;> rfl
    rw [ScriptUnit.shownBody, Code.blockTargets_append, Code.blockTargets_shown, ends, List.append_nil]
    exact fun l => mem_labels_of_target
  have labels : (checkLabels map u.header.name (Code.blockMarks 0 (u.shownBody catalog body))
      (Code.ascending (Code.blockTargets (u.shownBody catalog body) ++
        (Code.blockMarks 0 (u.shownBody catalog body)).map Prod.fst))).result = .ok () := by
    refine checkLabels_eq_ok.mpr fun l hl => ?_
    rw [Code.mem_ascending, List.mem_append] at hl
    rcases hl with target | marked
    · exact address?_shownBody statements (targets l target)
    · obtain ⟨⟨_, a⟩, mem, rfl⟩ := List.mem_map.mp marked
      exact address?_isSome mem
  have entry : ∃ entry, entryOf map u.header.name (Code.blockMarks 0 (u.shownBody catalog body))
      (listedPreamble u) = .ok entry := by
    rw [entryOf, listedPreamble]
    by_cases zero : u.header.entry = 0
    · simp [zero]
    · obtain ⟨address, found⟩ := Option.isSome_iff_exists.mp
        (address?_shownBody statements (mem_labels_of_entry zero))
      simp [zero, found]
  obtain ⟨entry, found⟩ := entry
  exact ⟨_, Traced.result_bind_eq_ok.mpr ⟨(), labels, Traced.result_bind_eq_ok.mpr
    ⟨entry, found, Traced.result_bind_eq_ok.mpr ⟨(), rfl, rfl⟩⟩⟩⟩

/-- A listing whose lines are all read takes assembly to the end of a unit. -/
theorem runs_of_reads (sound : catalog.Sound) (clean : catalog.Clean) (small : u.code.length ≤ 65535)
    (vars : u.vars.length ≤ Source.maxInteger) (attributes : u.attributes.length = attributeCount)
    (statements : (u.statements catalog).result = .ok body) (size : Code.blockSize body = u.code.length)
    (reads : Code.blockReads (u.names catalog) (.direct (u.names catalog)) body) {text : List String}
    (listed : (u.listing catalog).result = .ok text) (map : String) {s : State} (first : s.offset = 0) :
    ∃ s', s'.phase = .idle ∧ Runs catalog map text { s with phase := .idle } s' := by
  obtain ⟨body', same, rfl⟩ := listing_eq_ok.mp listed
  obtain rfl : body = body' := Except.ok.inj (statements.symm.trans same)
  have start := (runs_preamble sound clean u vars attributes map s).append
    (runs_bodyStart map s u.header.name (listedPreamble u))
  obtain ⟨b₁, run₁, extended₁, bound₁⟩ := Code.runs_shownBlock sound clean (u.labels body) body reads (by omega) 1 0
    { strings := (listedPreamble u).strings } rfl (by simp)
  rw [Nat.zero_add, size] at bound₁
  obtain ⟨b₂, run₂, extended₂⟩ := bodyRuns_endLabel small bound₁
  have extended := extended₁.trans extended₂
  have done : b₂.settle.done.reverse = u.shownBody catalog body := by
    rw [extended.done, List.reverse_append, List.reverse_reverse]
    rfl
  obtain ⟨v, unit⟩ := unitOf_shownBody statements map b₂.strings
  rw [← done] at unit
  have room : s.offset + v.header.scriptLength.toNat ≤ 4294967295 := by
    have bound := v.header.scriptLength.toNat_lt
    omega
  exact ⟨_, rfl, ((start.append (run₁ map s _ _)).append (run₂ map s _ _)).append
    (runs_unitEnd extended.frames unit room)⟩

/-- The lines of a listing that assembly goes through are all read. -/
theorem reads_of_passes (sound : catalog.Sound) (clean : catalog.Clean) (short : Code.blockSize body ≤ 4294967295)
    (vars : u.vars.length ≤ Source.maxInteger) (attributes : u.attributes.length = attributeCount)
    (statements : (u.statements catalog).result = .ok body)
    (fits : Code.blockFits (u.names catalog).strings.length body) {text : List String}
    (listed : (u.listing catalog).result = .ok text) {map : String} {s : State}
    (passes : Passes catalog map text { s with phase := .idle }) :
    Code.blockReads (u.names catalog) (.direct (u.names catalog)) body := by
  obtain ⟨body', same, rfl⟩ := listing_eq_ok.mp listed
  obtain rfl : body = body' := Except.ok.inj (statements.symm.trans same)
  have start := (runs_preamble sound clean u vars attributes map s).append
    (runs_bodyStart map s u.header.name (listedPreamble u))
  rw [List.append_assoc, List.append_assoc] at passes
  exact Code.blockReads_of_passes sound clean (u.labels body) body fits short 1 0
    { strings := (listedPreamble u).strings } rfl (by simp) _ (passes.after start)

/-- The listing of a unit is assembled if and only if the text has words for everything that it shows: an object that
is chosen by a value is chosen by a flag, a variable or a string, and no call in a value is asynchronous. -/
theorem listing_assembles_iff {sources : Catalog.Sources}
    (accepted : (Catalog.ofSources sources).result = .ok catalog) (clean : catalog.Clean) {u : ScriptUnit}
    (small : u.code.length ≤ 65535) (vars : u.vars.length ≤ Source.maxInteger)
    (attributes : u.attributes.length = attributeCount) {text : List String}
    (listed : (u.listing catalog).result = .ok text) (map : String) :
    (∃ us, (assemble catalog map text).result = .ok us) ↔
      Code.blockTextual (Code.directBlock (u.body catalog)) ∧
        ∀ part ∈ Code.blockParts (u.names catalog) (Code.directBlock (u.body catalog)),
          (u.names catalog).Short part := by
  have sound := Catalog.sound_ofSources accepted
  have whole : (ScriptUnit.listings catalog [u]).result = .ok text := listed
  have statements := statements_of_listings whole u (List.mem_singleton_self u)
  obtain ⟨fits, rewritten⟩ := Code.decode_spec (statements_eq_ok.mp statements).1
  have size : Code.blockSize (u.body catalog) = u.code.length := by
    rw [← Code.length_encodeBlock id, rewritten.length_eq]
  rw [← Code.blockReads_iff sound clean (u.body catalog) fits]
  constructor
  · rintro ⟨us, assembled⟩
    obtain ⟨ls, prepared, rest⟩ := Traced.result_bind_eq_ok.mp assembled
    obtain ⟨t, run, -⟩ := Traced.result_bind_eq_ok.mp rest
    exact reads_of_passes sound clean (by omega) vars attributes statements fits listed (s := {})
      ⟨1, 0, ls, t, mapError_eq_ok.mp prepared, run⟩
  · intro reads
    obtain ⟨s, idle, runs⟩ := runs_of_reads sound clean small vars attributes statements size reads listed map
      (s := {}) rfl
    obtain ⟨ls, k, prepared, run⟩ := runs 1 0
    refine ⟨s.units, Traced.result_bind_eq_ok.mpr ⟨ls, mapError_eq_ok.mpr prepared, ?_⟩⟩
    refine Traced.result_bind_eq_ok.mpr ⟨_, run, ?_⟩
    show State.finish map _ = _
    rw [State.finish]
    simp only [idle]

/-- A unit that sets the height of an object, which five bytes choose. -/
def chooserUnit (choice : Bytes) : ScriptUnit where
  header := { name := "Chooser", instances := 1, scriptLength := 14 }
  strings := ["Bo"]
  vars := []
  code := [11, 2] ++ choice ++ [0, 1, 7, 0, 0, 0, 1]
  attributes := List.replicate 256 0

/-- The listing of the unit, with the text for the object. -/
def chooserListing (object : String) : List String :=
  ["unit \"Chooser\"", "instances = 1", "entry = 0", "strings = \"Bo\"", "variables(0)", Text.leftBrace,
    "    " ++ object ++ ".Height = 1", Text.rightBrace]

/-- A listing with an object that a string chooses is assembled, one with an object that a number chooses is not. -/
theorem listing_assembles_iff_chooser :
    ((chooserUnit [10, 0, 0, 0, 0]).listing .village).result = .ok (chooserListing "\"Bo\"") ∧
    (∃ us, (assemble .village "field" (chooserListing "\"Bo\"")).result = .ok us) ∧
    ((chooserUnit [7, 0, 0, 0, 5]).listing .village).result = .ok (chooserListing "5") ∧
    ¬ ∃ us, (assemble .village "field" (chooserListing "5")).result = .ok us := by
  have byString : ((chooserUnit [10, 0, 0, 0, 0]).listing .village).result = .ok (chooserListing "\"Bo\"") :=
    eq_ok_of_toOption (by decide +kernel)
  have byNumber : ((chooserUnit [7, 0, 0, 0, 5]).listing .village).result = .ok (chooserListing "5") :=
    eq_ok_of_toOption (by decide +kernel)
  have named : (chooserUnit [10, 0, 0, 0, 0]).body .village =
      [.action (.assign (.field (.dynamic (.string 0)) 1) (.last (.literal 1)))] := body_of_statements rfl
  have numbered : (chooserUnit [7, 0, 0, 0, 5]).body .village =
      [.action (.assign (.field (.dynamic (.literal 5)) 1) (.last (.literal 1)))] := body_of_statements rfl
  refine ⟨byString, ?_, byNumber, ?_⟩
  · rw [listing_assembles_iff Catalog.village_accepted Catalog.village_clean (by decide) (by decide)
      List.length_replicate byString, named]
    exact ⟨⟨⟨trivial, trivial⟩, trivial⟩, fun part _ => Code.Names.short_of_length (by decide) part⟩
  · rw [listing_assembles_iff Catalog.village_accepted Catalog.village_clean (by decide) (by decide)
      List.length_replicate byNumber, numbered]
    rintro ⟨⟨⟨mute, -⟩, -⟩, -⟩
    exact mute

end EventScript
