import EventScript.Proofs.Partition

/-!
# The labels that a listing shows

The labels of a unit can be read off the bytes of its code: they are the operands of the statements that jump, and
the entry (`mem_labels_iff`). A unit can be listed exactly if each of them is the address of a statement or the end
of the code. Its listing then has one line for each label and no other line that looks like one
(`label_lines_exact`), whatever the catalog calls things.
-/

namespace EventScript

namespace Code

open Reader

/-! ### Labels in the bytes -/

/-- The statement at an address of the code jumps to a label. For `goto` and `end`, zero is no label. -/
def JumpsAt (code : Bytes) (a : Nat) (l : UInt32) : Prop :=
  ∃ op rest, code.drop a = op :: (bytes32 l ++ rest) ∧
    (op = Opcode.gosub.code ∨ op = Opcode.pause.code ∨ (op = Opcode.goto.code ∨ op = Opcode.stop.code) ∧ l ≠ 0)

/-- The label that a statement jumps to in front of its block. -/
def Head.target? : Head → Option UInt32
  | .action a => a.target?
  | .guard _ => none

variable {strings n p : Nat} {code : Bytes} {l : UInt32}

theorem bytes32_append_inj {v w : UInt32} {as bs : Bytes} (h : bytes32 v ++ as = bytes32 w ++ bs) : v = w := by
  have same : bytes32 v = bytes32 w := (List.append_inj h rfl).1
  have words : words32 ([v].flatMap bytes32) = words32 ([w].flatMap bytes32) := by
    simp only [List.flatMap_cons, List.flatMap_nil, same]
  rw [words32_flatMap_bytes32, words32_flatMap_bytes32] at words
  exact (List.cons.inj words).1

theorem target?_targetOf {w : UInt32} : targetOf w = some l ↔ w = l ∧ l ≠ 0 := by
  rw [targetOf]
  split
  · next zero =>
    subst zero
    constructor
    · rintro ⟨⟩
    · rintro ⟨rfl, no⟩
      exact absurd rfl no
  · next other =>
    constructor
    · rintro ⟨⟩
      exact ⟨rfl, other⟩
    · rintro ⟨rfl, -⟩
      rfl

/-- The statements that take a label. -/
def Opcode.Jumps (l : UInt32) (op : Option Opcode) : Prop :=
  op = some .gosub ∨ op = some .pause ∨ (op = some .goto ∨ op = some .stop) ∧ l ≠ 0

theorem jumpsAt_cons {op : UInt8} {tail : Bytes} (front : code.drop p = op :: tail) :
    JumpsAt code p l ↔ (∃ rest, tail = bytes32 l ++ rest) ∧ Opcode.Jumps l (Opcode.ofCode? op) := by
  have same : ∀ o : Opcode, op = o.code ↔ Opcode.ofCode? op = some o := by
    intro o
    constructor
    · rintro rfl
      exact Opcode.ofCode?_code o
    · exact Opcode.eq_code
  rw [JumpsAt, front, Opcode.Jumps, ← same, ← same, ← same, ← same]
  constructor
  · rintro ⟨_, rest, ⟨⟩, jump⟩
    exact ⟨⟨rest, rfl⟩, jump⟩
  · rintro ⟨⟨rest, rfl⟩, jump⟩
    exact ⟨op, rest, rfl, jump⟩

/-- An operand that was read is the label that stands there. -/
theorem operand_eq (l : UInt32) {f : UInt32 → Head} {head : Head} {c t : Cursor}
    (run : Yields (long >>= fun w => pure (f w)) c head t) :
    ∃ w, head = f w ∧ ((∃ rest, c.rest = bytes32 l ++ rest) ↔ w = l) := by
  obtain ⟨w, c', here, ⟨⟩⟩ := yields_bind.mp run
  obtain ⟨_, taken, -, rfl⟩ := consumes_long c w t here
  refine ⟨w, rfl, ?_, ?_⟩
  · rintro ⟨rest, found⟩
    exact bytes32_append_inj (taken.symm.trans found)
  · rintro rfl
    exact ⟨t.rest, taken⟩

theorem target?_of_assignment {place : Reader Place} {head : Head} {c t : Cursor}
    (run : Yields (readAssignment strings n place >>= fun a => pure (Head.action a)) c head t) :
    head.target? = none := by
  obtain ⟨a, c', assigned, ⟨⟩⟩ := yields_bind.mp run
  obtain ⟨_, _, _, rest⟩ := yields_bind.mp assigned
  obtain ⟨_, _, _, ⟨⟩⟩ := yields_bind.mp rest
  rfl

/-- A statement that was read jumps where its bytes say. -/
theorem jumpsAt_iff {head : Head} {t : Cursor} (run : Yields (readHead strings n) (cursorAt code p) head t) :
    JumpsAt code p l ↔ head.target? = some l := by
  rw [readHead] at run
  obtain ⟨start, c, ⟨⟩, run⟩ := yields_bind.mp run
  obtain ⟨op, c, first, run⟩ := yields_bind.mp run
  obtain ⟨_, taken, -, rfl⟩ := consumes_byte _ op c first
  have front : code.drop p = op :: c.rest := taken
  rw [jumpsAt_cons front]
  generalize Opcode.ofCode? op = opcode at run ⊢
  have silent (no : ¬ Opcode.Jumps l opcode) (none_ : head.target? = none) :
      (∃ rest, c.rest = bytes32 l ++ rest) ∧ Opcode.Jumps l opcode ↔ head.target? = some l := by
    simp [none_, no]
  cases opcode with
  | none => cases run
  | some opcode =>
    cases opcode with
    | goto | stop =>
      obtain ⟨w, rfl, found⟩ := operand_eq l run
      rw [found, Head.target?, Action.target?, target?_targetOf]
      simp [Opcode.Jumps]
    | gosub | pause =>
      obtain ⟨w, rfl, found⟩ := operand_eq l run
      rw [found, Head.target?, Action.target?]
      simp [Opcode.Jumps]
    | call mode =>
      obtain ⟨_, _, _, ⟨⟩⟩ := yields_bind.mp run
      exact silent (by simp [Opcode.Jumps]) rfl
    | objectCall =>
      obtain ⟨_, _, _, run⟩ := yields_bind.mp run
      obtain ⟨_, _, _, run⟩ := yields_bind.mp run
      obtain ⟨_, _, _, ⟨⟩⟩ := yields_bind.mp run
      exact silent (by simp [Opcode.Jumps]) rfl
    | condition | result | anchor =>
      obtain ⟨_, _, _, ⟨⟩⟩ := yields_bind.mp run
      exact silent (by simp [Opcode.Jumps]) rfl
    | leave | leaveInterrupt =>
      cases run
      exact silent (by simp [Opcode.Jumps]) rfl
    | flag | var | field => exact silent (by simp [Opcode.Jumps]) (target?_of_assignment run)
    | literal | flexible | string => cases run

/-- The targets of a block that was read are those that its bytes name. -/
theorem mem_blockTargets_iff : ∀ (n : Nat) {stop p : Nat} {ss : List Statement} {t : Cursor}, p ≤ code.length →
    Yields (readBlock strings n stop) (cursorAt code p) ss t →
      (l ∈ blockTargets ss ↔ ∃ a ∈ blockStarts p ss, JumpsAt code a l)
  | 0, _, _, _, _, _, run => by
    rw [readBlock] at run
    cases run
  | n + 1, stop, p, ss, t, inside, run => by
    rw [readBlock] at run
    obtain ⟨here, c, ⟨⟩, run⟩ := yields_bind.mp run
    split at run
    · obtain ⟨head, c, first, run⟩ := yields_bind.mp run
      have jump := jumpsAt_iff (l := l) first
      obtain ⟨rfl, inside'⟩ := readHead_at inside first
      cases head with
      | action a =>
        obtain ⟨rest, c, others, ⟨⟩⟩ := yields_bind.mp run
        have later := mem_blockTargets_iff n inside' others
        have target : l ∈ a.target?.toList ↔ JumpsAt code p l := by
          rw [Option.mem_toList, jump]
          rfl
        rw [blockTargets, Statement.targets, List.mem_append, target, later]
        simp [blockStarts, Statement.starts, Statement.size, Head.size]
      | guard g =>
        obtain ⟨inner, c, stopped, run⟩ := yields_bind.mp run
        obtain ⟨w, -, rfl, rfl, inside₁⟩ := readStop_at inside' stopped
        obtain ⟨body, c, block, run⟩ := yields_bind.mp run
        obtain ⟨rfl, size, inside₂⟩ := readBlock_at inside₁ block
        obtain ⟨rest, c, others, ⟨⟩⟩ := yields_bind.mp run
        have within := mem_blockTargets_iff n inside₁ block
        have later := mem_blockTargets_iff n inside₂ others
        have none_ : ¬ JumpsAt code p l := by
          rw [jump]
          rintro ⟨⟩
        have inner : p + (Head.guard g).size + 4 = p + g.size := Nat.add_assoc ..
        have same : p + (Head.guard g).size + 4 + w.toNat = p + (Statement.block g body).size := by
          rw [Statement.size]
          omega
        rw [same] at later
        rw [inner] at within
        rw [blockTargets, Statement.targets, List.mem_append, within, later]
        simp [blockStarts, Statement.starts, or_and_right, exists_or, none_]
    split at run
    · cases run
      simp [blockTargets, blockStarts]
    · cases run

end Code

/-- A unit whose statements begin at `starts` names a label: a statement jumps there, or it is the entry and not the
beginning. -/
def ScriptUnit.Mentions (u : ScriptUnit) (starts : List Nat) (l : UInt32) : Prop :=
  (∃ a ∈ starts, Code.JumpsAt u.code a l) ∨ l = u.header.entry ∧ l ≠ 0

/-- The labels of a unit are those that its bytes name. -/
theorem mem_labels_iff {u : ScriptUnit} {body : List Code.Statement} {l : UInt32}
    (decoded : (Code.decode u.strings.length u.code).result = .ok body) :
    l ∈ u.labels body ↔ u.Mentions (Code.blockStarts 0 body) l := by
  obtain ⟨⟨ss, t⟩, run, last⟩ := Traced.result_bind_eq_ok.mp decoded
  cases last
  have targets := Code.mem_blockTargets_iff (l := l) _ (Nat.zero_le _) run
  have entry : l ∈ (Code.targetOf u.header.entry).toList ↔ l = u.header.entry ∧ l ≠ 0 := by
    rw [Option.mem_toList, Code.target?_targetOf, eq_comm]
  rw [ScriptUnit.labels, Code.mem_ascending, List.mem_append, targets, entry]
  rfl

theorem any_labels_iff {u : ScriptUnit} {body : List Code.Statement}
    (decoded : (Code.decode u.strings.length u.code).result = .ok body) (a : Nat) :
    (u.labels body).any (fun l => l.toNat == a) = true ↔
      ∃ l, u.Mentions (Code.blockStarts 0 body) l ∧ l.toNat = a := by
  simp only [List.any_eq_true, mem_labels_iff decoded, beq_iff_eq]

theorem instructions_iff {catalog : Catalog} {u : ScriptUnit} {body : List Code.Statement}
    (decoded : (Code.decode u.strings.length u.code).result = .ok body) {is : List Code.Instruction} :
    (u.instructions catalog).result = .ok is ↔
      (∀ l, u.Mentions (Code.blockStarts 0 body) l → l.toNat ∈ Code.blockStarts 0 body ∨ l.toNat = u.code.length) ∧
        is = Code.blockInstructions (u.names catalog) (u.labels body) 1 0 body := by
  rw [instructions_eq_ok]
  constructor
  · rintro ⟨body', statements, rfl⟩
    obtain ⟨decoded', known⟩ := statements_eq_ok.mp statements
    cases decoded.symm.trans decoded'
    exact ⟨fun l mentioned => known l ((mem_labels_iff decoded).mpr mentioned), rfl⟩
  · rintro ⟨known, rfl⟩
    exact ⟨body, statements_eq_ok.mpr ⟨decoded, fun l mem => known l ((mem_labels_iff decoded).mp mem)⟩, rfl⟩

/-! ### Lines of labels -/

namespace Source

/-- The number of a line that is a label: a number between `#` and a colon. -/
def labelLine? (line : String) : Option Nat :=
  match Text.trim line.toList with
  | '#' :: cs => if cs.getLast? = some ':' then Text.numeral? cs.dropLast else none
  | _ => none

/-- A character that the line of a label does not have. -/
def isTelling (c : Char) : Bool := !(Text.isBlank c || c == '#' || c == ':' || Text.isDigit c)

/-- A text with a character that the line of a label does not have. -/
def isWordy (line : String) : Bool := line.toList.any isTelling

@[simp] theorem isWordy_append (a b : String) : isWordy (a ++ b) = (isWordy a || isWordy b) := by
  rw [isWordy, String.toList_append, List.any_append, isWordy, isWordy]

theorem mem_trim {cs : List Char} {c : Char} (mem : c ∈ cs) (visible : Text.isBlank c = false) :
    c ∈ Text.trim cs := by
  have kept : ∀ cs : List Char, c ∈ cs → c ∈ cs.dropWhile Text.isBlank := by
    intro cs mem
    induction cs with
    | nil => cases mem
    | cons d cs ih =>
      rw [List.dropWhile_cons]
      split
      · next blank =>
        rcases List.mem_cons.mp mem with rfl | mem
        · rw [visible] at blank
          cases blank
        · exact ih mem
      · exact mem
  have start : c ∈ (Text.trimStart cs).reverse := List.mem_reverse.mpr (kept cs mem)
  exact List.mem_reverse.mpr (kept _ start)

theorem labelLine?_of_isWordy {line : String} (h : isWordy line = true) : labelLine? line = none := by
  obtain ⟨c, mem, telling⟩ := List.any_eq_true.mp h
  simp only [isTelling, Bool.not_eq_true', Bool.or_eq_false_iff, beq_eq_false_iff_ne] at telling
  obtain ⟨⟨⟨visible, notHash⟩, notColon⟩, notDigit⟩ := telling
  have inside := mem_trim mem visible
  rw [labelLine?]
  split
  · next cs trimmed =>
    rw [trimmed] at inside
    have tail : c ∈ cs := (List.mem_cons.mp inside).resolve_left notHash
    split
    · next last =>
      obtain ⟨digits, rfl⟩ := List.getLast?_eq_some_iff.mp last
      have digit : c ∈ digits := (List.mem_append.mp tail).resolve_right fun h => notColon (List.mem_singleton.mp h)
      have other : digits.all Text.isDigit = false := List.all_eq_false.mpr ⟨c, digit, by simp [notDigit]⟩
      rw [List.dropLast_concat, Text.numeral?, other]
      simp
    · rfl
  · rfl

/-- A label is read off its line. -/
theorem labelLine?_label (indent n : Nat) :
    labelLine? (Code.margin indent ++ "#" ++ Text.decimal n ++ ":") = some n := by
  have chars : (Code.margin indent ++ "#" ++ Text.decimal n ++ ":").toList =
      List.replicate (4 * indent) ' ' ++ ('#' :: (Nat.toDigits 10 n ++ [':'])) ++ [] := by
    have hash : "#".toList = ['#'] := by decide
    have colon : ":".toList = [':'] := by decide
    simp [hash, colon, Assembly.toList_margin]
  have trimmed : Text.trim (Code.margin indent ++ "#" ++ Text.decimal n ++ ":").toList =
      '#' :: (Nat.toDigits 10 n ++ [':']) := by
    rw [chars]
    refine trim_padded (fun c h => ?_) nofun ⟨_, _, rfl, by decide⟩ ⟨'#' :: Nat.toDigits 10 n, ':', rfl, by decide⟩
    rw [List.eq_of_mem_replicate h]
    decide
  rw [labelLine?, trimmed]
  simp [Text.numeral?_toDigits]

end Source

namespace Code

open Source (isWordy labelLine?)

theorem isWordy_jumpText {word : String} (h : isWordy word = true) (target : Option UInt32) :
    isWordy (jumpText word target) = true := by
  cases target <;> simp [jumpText, h]

/-- The text of a statement is not that of a label, whatever the names are. -/
theorem Action.isWordy_text (names : Names) (a : Action) : isWordy (a.text names) = true := by
  have paren : isWordy "(" = true := by decide
  have equals : isWordy " = " = true := by decide
  cases a with
  | call mode routine arguments => simp [Action.text, Operand.toSource, Source.Operand.print, paren]
  | objectCall object mode routine arguments =>
    simp [Action.text, Operand.toSource, Source.Operand.print, paren]
  | assign place formula => simp [Action.text, equals]
  | goto target => exact isWordy_jumpText (by decide) target
  | stop target => exact isWordy_jumpText (by decide) target
  | gosub target => exact isWordy_jumpText (by decide) (some target)
  | pause target => exact isWordy_jumpText (by decide) (some target)
  | anchor value =>
    have word : isWordy "@anchor " = true := by decide
    simp [Action.text, word]
  | leave =>
    show isWordy "return" = true
    decide
  | leaveInterrupt =>
    show isWordy "endint" = true
    decide

theorem Guard.isWordy_text (names : Names) (g : Guard) : isWordy (g.text names) = true := by
  have word : isWordy "if " = true := by decide
  have word' : isWordy "if <ScriptRv> = " = true := by decide
  unfold Guard.text
  cases g <;> simp [word, word']

/-- The lines of an instruction show its label, if it has one, and no other. -/
theorem Instruction.filterMap_lines {i : Instruction} (h : isWordy i.text = true) :
    i.lines.filterMap labelLine? = if i.isLabel then [i.address] else [] := by
  obtain ⟨remark, -, lines⟩ := i.lines_eq
  have text : labelLine? (margin i.indent ++ i.text ++ remark) = none :=
    Source.labelLine?_of_isWordy (by simp [h])
  rw [lines, List.filterMap_append, List.filterMap_cons, text]
  cases i.isLabel with
  | false => rfl
  | true => simp [Source.labelLine?_label]

variable (names : Names) (labels : List UInt32)

mutual

theorem Statement.isLabel_instructions : ∀ (s : Statement) (indent address : Nat),
    ∀ i ∈ s.instructions names labels indent address, i.isLabel = labels.any fun l => l.toNat == i.address
  | .action _, _, _, i, mem => by
    cases List.mem_singleton.mp mem
    rfl
  | .block guard body, indent, address, i, mem => by
    rcases List.mem_cons.mp mem with rfl | mem
    · rfl
    · exact isLabel_blockInstructions body (indent + 1) (address + guard.size) i mem
  | .mark _, _, _, _, mem => by cases mem

/-- The instructions at the addresses of labels are marked. -/
theorem isLabel_blockInstructions : ∀ (ss : List Statement) (indent address : Nat),
    ∀ i ∈ blockInstructions names labels indent address ss, i.isLabel = labels.any fun l => l.toNat == i.address
  | [], _, _, _, mem => by cases mem
  | s :: ss, indent, address, i, mem => by
    rcases List.mem_append.mp mem with mem | mem
    · exact s.isLabel_instructions indent address i mem
    · exact isLabel_blockInstructions ss indent (address + s.size) i mem

end

theorem labelLine?_brace (indent : Nat) :
    labelLine? (margin indent ++ Text.leftBrace) = none ∧ labelLine? (margin indent ++ Text.rightBrace) = none := by
  have left : isWordy Text.leftBrace = true := by decide
  have right : isWordy Text.rightBrace = true := by decide
  exact ⟨Source.labelLine?_of_isWordy (by simp [left]), Source.labelLine?_of_isWordy (by simp [right])⟩

mutual

theorem Statement.filterMap_lines : ∀ (s : Statement) (indent address : Nat),
    (s.lines names labels indent address).filterMap labelLine? =
      (s.starts address).filter fun a => labels.any fun l => l.toNat == a
  | .action a, indent, address => by
    have line := Instruction.filterMap_lines (i := a.instruction names labels indent address) (a.isWordy_text names)
    rw [Statement.lines, line, Statement.starts, List.filter_cons, List.filter_nil]
    rfl
  | .block guard body, indent, address => by
    have inner := filterMap_blockLines body (indent + 1) (address + guard.size)
    have first := Instruction.filterMap_lines (i := guard.instruction names labels indent address)
      (guard.isWordy_text names)
    have starts : (Statement.block guard body).starts address =
        [address] ++ blockStarts (address + guard.size) body := rfl
    rw [Statement.lines, List.filterMap_append, first, starts, List.filter_append, ← inner, List.filter_cons,
      List.filter_nil]
    refine congrArg (List.append _) ?_
    cases body with
    | nil => rfl
    | cons s ss =>
      obtain ⟨left, right⟩ := labelLine?_brace indent
      simp [List.filterMap_append, left, right]
  | .mark _, _, _ => rfl

/-- The lines of a block show the labels that are addresses of its statements. -/
theorem filterMap_blockLines : ∀ (ss : List Statement) (indent address : Nat),
    (blockLines names labels indent address ss).filterMap labelLine? =
      (blockStarts address ss).filter fun a => labels.any fun l => l.toNat == a
  | [], _, _ => rfl
  | s :: ss, indent, address => by
    rw [blockLines, List.filterMap_append, s.filterMap_lines, filterMap_blockLines ss, blockStarts, List.filter_append]

end

end Code

open Source (isWordy labelLine?)

variable {catalog : Catalog} {u : ScriptUnit} {body : List Code.Statement}

theorem isWordy_attributeLine? {index : Nat} {value : UInt8} {line : String}
    (h : ScriptUnit.attributeLine? catalog index value = some line) : isWordy line = true := by
  have equals : isWordy " = " = true := by decide
  rw [ScriptUnit.attributeLine?] at h
  split at h
  · cases h
  · cases h
    simp [equals]

theorem isWordy_preamble {line : String} (mem : line ∈ u.preamble catalog) : isWordy line = true := by
  have unit : isWordy "unit " = true := by decide
  have instances : isWordy "instances = " = true := by decide
  have kind : isWordy "kind = " = true := by decide
  have entry : isWordy "entry = " = true := by decide
  have strings : isWordy "strings = " = true := by decide
  have vars : isWordy "variables(" = true := by decide
  simp only [ScriptUnit.preamble, List.mem_append, List.mem_cons, List.not_mem_nil, or_false,
    List.mem_filterMap] at mem
  rcases mem with (((((rfl | rfl) | mem) | rfl) | mem) | rfl) | ⟨pair, -, mem⟩
  · simp [unit]
  · simp [instances]
  · split at mem
    · cases mem
    · cases List.mem_singleton.mp mem
      simp [kind]
  · simp [entry]
  · split at mem
    · cases mem
    · cases List.mem_singleton.mp mem
      simp [strings]
  · simp [vars]
  · exact isWordy_attributeLine? mem

theorem stop_notMem_starts (size : Code.blockSize body = u.code.length) :
    u.code.length ∉ Code.blockStarts 0 body := by
  intro mem
  have bound := (Code.blockStarts_bound body 0 mem).2
  omega

/-- The addresses that the listing of a unit shows as labels. -/
theorem filterMap_listing (size : Code.blockSize body = u.code.length) :
    (u.preamble catalog ++ [Text.leftBrace] ++ Code.blockLines (u.names catalog) (u.labels body) 1 0 body ++
      (u.endLabel? body).toList ++ [Text.rightBrace]).filterMap labelLine? =
      (Code.blockStops 0 body).filter fun a => (u.labels body).any fun l => l.toNat == a := by
  have front : (u.preamble catalog).filterMap labelLine? = [] :=
    List.filterMap_eq_nil_iff.mpr fun line mem => Source.labelLine?_of_isWordy (isWordy_preamble mem)
  have left : [Text.leftBrace].filterMap labelLine? = [] := by decide
  have right : [Text.rightBrace].filterMap labelLine? = [] := by decide
  have outside : (Code.blockStarts 0 body).contains u.code.length = false := by
    rw [List.contains_eq_mem, decide_eq_false_iff_not]
    exact stop_notMem_starts size
  have end_ : (u.endLabel? body).toList.filterMap labelLine? =
      [u.code.length].filter fun a => (u.labels body).any fun l => l.toNat == a := by
    rw [ScriptUnit.endLabel?, outside, Bool.not_false, Bool.and_true, List.filter_cons, List.filter_nil]
    split
    · rw [Option.toList_some, List.filterMap_cons, Source.labelLine?_label, List.filterMap_nil]
    · rfl
  simp only [List.filterMap_append, front, left, right, end_, Code.filterMap_blockLines, Code.blockStops, Nat.zero_add,
    size, List.filter_append, List.nil_append, List.append_nil]

/-- A text shows the labels of a unit whose statements begin at `starts`. -/
structure ScriptUnit.LabelsShown (u : ScriptUnit) (starts : List Nat) (text : List String) : Prop where
  /-- There is one line for each label, and no other line for one. -/
  lines : ∀ n, n ∈ text.filterMap labelLine? ↔ ∃ l, u.Mentions starts l ∧ l.toNat = n
  /-- No two lines are for the same label. -/
  once : (text.filterMap labelLine?).Nodup
  /-- The label of the end stands in front of the last brace. -/
  last : (∃ l, u.Mentions starts l ∧ l.toNat = u.code.length) →
    ∃ front, text = front ++ [Code.margin 1 ++ "#" ++ Text.decimal u.code.length ++ ":", Text.rightBrace]

theorem labelsShown_of_decode (decoded : (Code.decode u.strings.length u.code).result = .ok body)
    (known : ∀ l, u.Mentions (Code.blockStarts 0 body) l →
      l.toNat ∈ Code.blockStarts 0 body ∨ l.toNat = u.code.length) :
    ∃ text, (u.listing catalog).result = .ok text ∧ u.LabelsShown (Code.blockStarts 0 body) text := by
  have size : Code.blockSize body = u.code.length := by
    obtain ⟨-, rewritten⟩ := Code.decode_spec decoded
    rw [← Code.length_encodeBlock id, rewritten.length_eq]
  have statements : (u.statements catalog).result = .ok body :=
    statements_eq_ok.mpr ⟨decoded, fun l mem => known l ((mem_labels_iff decoded).mp mem)⟩
  refine ⟨_, listing_eq_ok.mpr ⟨body, statements, rfl⟩, ?_, ?_, ?_⟩
  · intro n
    rw [filterMap_listing size, List.mem_filter, any_labels_iff decoded, and_iff_right_iff_imp]
    rintro ⟨l, mentioned, rfl⟩
    rw [Code.blockStops, Nat.zero_add, size, List.mem_append, List.mem_singleton]
    exact known l mentioned
  · rw [filterMap_listing size]
    exact ((Code.pairwise_blockStops 0 body).filter _).imp Nat.ne_of_lt
  · rintro ⟨l, mentioned, last⟩
    have shown : (u.endLabel? body).isSome = true :=
      endLabel?_isSome.mpr ⟨⟨l, (mem_labels_iff decoded).mpr mentioned, last⟩, stop_notMem_starts size⟩
    rw [toList_endLabel? shown, List.append_assoc]
    exact ⟨_, rfl⟩

/-- A unit can be listed exactly if each label that its bytes name is the address of a statement or the end of the
code. Then the instructions at labels are marked, and the listing has one line for each label and no other. -/
theorem label_lines_exact (catalog : Catalog) {u : ScriptUnit} {body : List Code.Statement}
    (decoded : (Code.decode u.strings.length u.code).result = .ok body) :
    ((∃ is, (u.instructions catalog).result = .ok is) ↔ ∀ l, u.Mentions (Code.blockStarts 0 body) l →
      l.toNat ∈ Code.blockStarts 0 body ∨ l.toNat = u.code.length) ∧
    ∀ is, (u.instructions catalog).result = .ok is →
      is.map Code.Instruction.address = Code.blockStarts 0 body ∧
      (∀ i ∈ is, i.isLabel = true ↔ ∃ l, u.Mentions (Code.blockStarts 0 body) l ∧ l.toNat = i.address) ∧
      ∃ text, (u.listing catalog).result = .ok text ∧ u.LabelsShown (Code.blockStarts 0 body) text := by
  refine ⟨?_, fun is shown => ?_⟩
  · constructor
    · rintro ⟨is, shown⟩
      exact ((instructions_iff decoded).mp shown).1
    · intro known
      exact ⟨_, (instructions_iff decoded).mpr ⟨known, rfl⟩⟩
  · obtain ⟨known, rfl⟩ := (instructions_iff decoded).mp shown
    refine ⟨Code.address_blockInstructions body 1 0, fun i mem => ?_, labelsShown_of_decode decoded known⟩
    rw [Code.isLabel_blockInstructions _ _ body 1 0 i mem, any_labels_iff decoded]

theorem label_lines_exact_patrolUnit : ∃ body,
    (Code.decode patrolUnit.strings.length patrolUnit.code).result = .ok body ∧
      (∀ i ∈ patrolInstructions, i.isLabel = true ↔
        ∃ l, patrolUnit.Mentions (Code.blockStarts 0 body) l ∧ l.toNat = i.address) ∧
      patrolUnit.LabelsShown (Code.blockStarts 0 body) patrolListing := by
  obtain ⟨body, statements, -⟩ := instructions_eq_ok.mp instructions_patrolUnit
  obtain ⟨decoded, -⟩ := statements_eq_ok.mp statements
  obtain ⟨-, marks, text, listed, shown⟩ := (label_lines_exact .village decoded).2 _ instructions_patrolUnit
  cases listing_patrolUnit.symm.trans listed
  exact ⟨body, decoded, marks, shown⟩

end EventScript
