import EventScript.Proofs.Jumps
import EventScript.Proofs.ReadingBounds

/-!
# Instructions that cover the code

The instructions of a unit divide its code among themselves (`instructions_partition`): the bytes from the address of
an instruction to that of the next one are read as the statement that the instruction shows, together with the length
of the block that may follow. Indentation shows the blocks: the instructions after a guard that are indented further
take just as many bytes as the length in front of them says.
-/

namespace EventScript.Code

open Reader

/-- Reads a statement up to its block, and the length of the block. -/
def readFront (strings n : Nat) : Reader (Head × Nat) := do
  match ← readHead strings n with
  | .action a => return (.action a, 0)
  | .guard guard =>
    let size ← long
    return (.guard guard, size.toNat)

/-- The text of a statement up to its block. -/
def Head.text (names : Names) : Head → String
  | .action a => a.text names
  | .guard g => g.text names

/-- The dialogue texts that a statement refers to in front of its block. -/
def Head.remarks (names : Names) : Head → List String
  | .action a => a.remarks names
  | .guard g => g.remarks names

/-- The address of the first instruction, or that of the end if there is none. -/
def firstAddress (stop : Nat) (is : List Instruction) : Nat := (is.head?.map Instruction.address).getD stop

/-- The instruction shows what the code holds at its address, in front of what the instructions after it show. -/
structure Instruction.Shows (names : Names) (code : Bytes) (i : Instruction) (after : List Instruction) (head : Head)
    (size : Nat) : Prop where
  /-- The bytes up to the address of the next instruction are read as a statement and the length of its block. -/
  reads : Yields (readFront names.strings.length (depth code)) (cursorAt code i.address) (head, size)
    (cursorAt code (firstAddress code.length after))
  text : i.text = head.text names
  remark : i.remark = remarkOf (head.remarks names)
  /-- Only a guard has a block. -/
  guard : 0 < size → ∃ guard, head = .guard guard
  /-- What comes next is indented further, by one, exactly if there is a block that is not empty. -/
  indent : ∀ j ∈ after.head?, j.indent ≤ i.indent + 1 ∧ (i.indent < j.indent ↔ 0 < size)
  /-- What is indented further takes as many bytes as the length of the block says. -/
  block : firstAddress code.length (after.dropWhile fun j => i.indent < j.indent) =
    firstAddress code.length after + size

/-- Each of the instructions shows what the code holds at its address. -/
def Tiled (names : Names) (code : Bytes) : List Instruction → Prop
  | [] => True
  | i :: after => (∃ head size, i.Shows names code after head size) ∧ Tiled names code after

/-- The instructions divide the code among themselves. -/
structure Partition (names : Names) (code : Bytes) (is : List Instruction) : Prop where
  empty : is = [] ↔ code = []
  first : ∀ i ∈ is.head?, i.address = 0 ∧ i.indent = 1
  indented : ∀ i ∈ is, 1 ≤ i.indent
  ascending : (is.map Instruction.address).Pairwise (· < ·)
  shows : ∀ before i after, is = before ++ i :: after → ∃ head size, i.Shows names code after head size

variable {names : Names} {labels : List UInt32} {code : Bytes}

theorem Tiled.shows {is : List Instruction} (h : Tiled names code is) {before after : List Instruction}
    {i : Instruction} (cut : is = before ++ i :: after) : ∃ head size, i.Shows names code after head size := by
  induction before generalizing is with
  | nil =>
    subst cut
    exact h.1
  | cons j before ih =>
    subst cut
    exact ih h.2 rfl

/-! ### Instructions of a block -/

/-- Only a block without instructions takes no bytes. -/
theorem blockInstructions_cases (indent : Nat) : ∀ (ss : List Statement) (p : Nat),
    blockInstructions names labels indent p ss = [] ∧ blockSize ss = 0 ∨
      ∃ i is, blockInstructions names labels indent p ss = i :: is ∧ i.address = p ∧ i.indent = indent ∧
        0 < blockSize ss
  | [], _ => .inl ⟨rfl, rfl⟩
  | .action a :: ss, p => .inr ⟨_, _, rfl, rfl, rfl, Nat.add_pos_left a.size_pos _⟩
  | .block guard body :: ss, p =>
    .inr ⟨_, _, rfl, rfl, rfl, Nat.add_pos_left (Nat.add_pos_left (Nat.succ_pos _) _) _⟩
  | .mark _ :: ss, p => by
    rw [blockSize, Statement.size, Nat.zero_add]
    exact blockInstructions_cases indent ss p

/-- The first instruction of a block stands where the block begins. -/
theorem firstAddress_block {stop : Nat} {later : List Instruction} (indent : Nat) {ss : List Statement} {p : Nat}
    (next : firstAddress stop later = p + blockSize ss) :
    firstAddress stop (blockInstructions names labels indent p ss ++ later) = p := by
  rcases blockInstructions_cases indent ss p with ⟨none_, zero⟩ | ⟨i, is, some_, address, -, -⟩
  · rw [none_, List.nil_append, next, zero, Nat.add_zero]
  · rw [some_]
    exact address

/-- The first instruction of a block is indented like the block. -/
theorem head?_block_indent {indent : Nat} {later : List Instruction} (outer : ∀ j ∈ later.head?, j.indent < indent)
    (ss : List Statement) (p : Nat) :
    ∀ j ∈ (blockInstructions names labels indent p ss ++ later).head?, j.indent ≤ indent := by
  intro j first
  rcases blockInstructions_cases indent ss p with ⟨none_, -⟩ | ⟨i, is, some_, -, same, -⟩
  · rw [none_] at first
    exact Nat.le_of_lt (outer j first)
  · rw [some_] at first
    cases first
    exact Nat.le_of_eq same

mutual

theorem Statement.indent_le : ∀ (s : Statement) (indent p : Nat), ∀ j ∈ s.instructions names labels indent p,
    indent ≤ j.indent
  | .action _, indent, p, j, mem => by
    rw [List.mem_singleton.mp mem]
    exact Nat.le_refl _
  | .block guard body, indent, p, j, mem => by
    rcases List.mem_cons.mp mem with rfl | mem
    · exact Nat.le_refl _
    · exact Nat.le_of_succ_le (blockInstructions_indent_le body (indent + 1) _ j mem)
  | .mark _, _, _, _, mem => by cases mem

/-- No instruction of a block is indented less than the block. -/
theorem blockInstructions_indent_le : ∀ (ss : List Statement) (indent p : Nat),
    ∀ j ∈ blockInstructions names labels indent p ss, indent ≤ j.indent
  | [], _, _, _, mem => by cases mem
  | s :: ss, indent, p, j, mem => by
    rcases List.mem_append.mp mem with mem | mem
    · exact s.indent_le indent p j mem
    · exact blockInstructions_indent_le ss indent _ j mem

end

mutual

theorem Statement.address_instructions : ∀ (s : Statement) (indent p : Nat),
    (s.instructions names labels indent p).map Instruction.address = s.starts p
  | .action _, _, _ => rfl
  | .block guard body, indent, p =>
    congrArg (p :: ·) (address_blockInstructions body (indent + 1) (p + guard.size))
  | .mark _, _, _ => rfl

/-- Instructions stand where their statements begin. -/
theorem address_blockInstructions : ∀ (ss : List Statement) (indent p : Nat),
    (blockInstructions names labels indent p ss).map Instruction.address = blockStarts p ss
  | [], _, _ => rfl
  | s :: ss, indent, p => by
    rw [blockInstructions, List.map_append, s.address_instructions, address_blockInstructions ss, blockStarts]

end

theorem dropWhile_of_head {α : Type} {P : α → Bool} {xs ys : List α} (all : ∀ x ∈ xs, P x = true)
    (none_ : ∀ y ∈ ys.head?, P y = false) : (xs ++ ys).dropWhile P = ys := by
  rw [List.dropWhile_append_of_pos all]
  cases ys with
  | nil => rfl
  | cons y ys => exact List.dropWhile_cons_of_neg (by simp [none_ y rfl])

/-! ### Reading -/

variable {strings n p : Nat}

/-- How many bytes a statement takes in front of the length of its block. -/
def Head.size : Head → Nat
  | .action a => a.size
  | .guard g => g.encode.length

theorem readHead_at {head : Head} {t : Cursor} (inside : p ≤ code.length)
    (run : Yields (readHead strings n) (cursorAt code p) head t) :
    t = cursorAt code (p + head.size) ∧ p + head.size ≤ code.length := by
  obtain ⟨bytes, taken, position, front⟩ := readHead_consumes n _ head t run
  have size : bytes.length = head.size := by
    cases head with
    | action a => rw [← front.2.length_eq, a.length_encode, Head.size]
    | guard g => rw [← front.2.length_eq, Head.size]
  rw [← size]
  exact eq_cursorAt inside taken position

theorem readStop_at {stop : Nat} {t : Cursor} (inside : p ≤ code.length)
    (run : Yields readStop (cursorAt code p) stop t) :
    ∃ w, Yields long (cursorAt code p) w (cursorAt code (p + 4)) ∧ t = cursorAt code (p + 4) ∧
      stop = p + 4 + w.toNat ∧ p + 4 ≤ code.length := by
  obtain ⟨w, t', here, rest⟩ := yields_bind.mp run
  obtain ⟨bytes, taken, position, rfl⟩ := consumes_long _ w t' here
  obtain ⟨rfl, inside'⟩ := eq_cursorAt inside taken position
  rw [length_bytes32] at here rest inside'
  simp only [Yields] at rest
  split at rest
  · cases rest
    exact ⟨w, here, rfl, rfl, inside'⟩
  · cases rest

/-- A block is read up to its end. -/
theorem readBlock_at {stop : Nat} {ss : List Statement} {t : Cursor} (inside : p ≤ code.length)
    (run : Yields (readBlock strings n stop) (cursorAt code p) ss t) :
    t = cursorAt code stop ∧ stop = p + blockSize ss ∧ stop ≤ code.length := by
  obtain ⟨rfl, bytes, taken, position, -, rewritten⟩ := readBlock_consumes n stop _ ss t run
  have size : bytes.length = blockSize ss := by rw [← rewritten.length_eq, length_encodeBlock]
  obtain ⟨here, inside'⟩ := eq_cursorAt inside taken position
  rw [position, ← size]
  exact ⟨here, rfl, inside'⟩

/-- What is read at some depth is read at that of the code. -/
theorem readHead_depth {head : Head} {t : Cursor} (inside : p ≤ code.length) (enough : 4 * (code.length - p) ≤ n)
    (deep : n ≤ depth code) (run : Yields (readHead strings n) (cursorAt code p) head t) :
    Yields (readHead strings (depth code)) (cursorAt code p) head t := by
  have alike : ∀ k, n ≤ k → Alike strings code p (readHead strings k) (readHead strings (k + 1)) :=
    fun k le => readHead_alike inside (Nat.le_trans enough le)
  rw [Yields, same_of_alike alike deep]
  exact run

theorem shows_action {a : Action} {indent : Nat} {after : List Instruction}
    (reads : Yields (readHead names.strings.length (depth code)) (cursorAt code p) (.action a)
      (cursorAt code (p + a.size)))
    (next : firstAddress code.length after = p + a.size) (outer : ∀ j ∈ after.head?, j.indent ≤ indent) :
    (a.instruction names labels indent p).Shows names code after (.action a) 0 where
  reads := by
    rw [next]
    exact yields_bind.mpr ⟨_, _, reads, rfl⟩
  text := rfl
  remark := rfl
  guard h := absurd h (Nat.lt_irrefl 0)
  indent j first := by
    have low : j.indent ≤ indent := outer j first
    show j.indent ≤ indent + 1 ∧ (indent < j.indent ↔ 0 < 0)
    omega
  block := by
    have none_ : ([] ++ after).dropWhile (fun j => indent < j.indent) = after :=
      dropWhile_of_head nofun fun j first => decide_eq_false (Nat.not_lt_of_le (outer j first))
    exact congrArg (firstAddress code.length) none_

theorem shows_guard {g : Guard} {body : List Statement} {w : UInt32} {indent : Nat} {after : List Instruction}
    (reads : Yields (readHead names.strings.length (depth code)) (cursorAt code p) (.guard g)
      (cursorAt code (p + g.encode.length)))
    (length : Yields long (cursorAt code (p + g.encode.length)) w (cursorAt code (p + g.size)))
    (size : w.toNat = blockSize body) (next : firstAddress code.length after = p + g.size + blockSize body)
    (outer : ∀ j ∈ after.head?, j.indent ≤ indent) :
    (g.instruction names labels indent p).Shows names code
      (blockInstructions names labels (indent + 1) (p + g.size) body ++ after) (.guard g) w.toNat where
  reads := by
    rw [firstAddress_block (indent + 1) next]
    exact yields_bind.mpr ⟨_, _, reads, yields_bind.mpr ⟨w, _, length, rfl⟩⟩
  text := rfl
  remark := rfl
  guard _ := ⟨g, rfl⟩
  indent j first := by
    show j.indent ≤ indent + 1 ∧ (indent < j.indent ↔ 0 < w.toNat)
    rw [size]
    rcases blockInstructions_cases (indent + 1) body (p + g.size) with ⟨none_, zero⟩ | ⟨i, is, some_, -, same, pos⟩
    · rw [none_] at first
      have low := outer j first
      omega
    · rw [some_] at first
      cases first
      omega
  block := by
    have inner : ∀ j ∈ blockInstructions names labels (indent + 1) (p + g.size) body,
        decide (indent < j.indent) = true :=
      fun j mem => decide_eq_true (blockInstructions_indent_le body _ _ j mem)
    have rest := dropWhile_of_head inner fun j first => decide_eq_false (Nat.not_lt_of_le (outer j first))
    rw [firstAddress_block (indent + 1) next, size, ← next]
    exact congrArg (firstAddress code.length) rest

/-- Instructions that may stand behind those of a block with the given indentation, which ends at `stop`. -/
structure Behind (names : Names) (code : Bytes) (indent stop : Nat) (later : List Instruction) : Prop where
  next : firstAddress code.length later = stop
  outer : ∀ j ∈ later.head?, j.indent < indent
  tiled : Tiled names code later

/-- The instructions of a block that was read show what the code holds, and stand behind a block that is indented
further. -/
theorem Behind.block : ∀ (n : Nat) {stop p indent : Nat} {ss : List Statement} {t : Cursor} {later : List Instruction},
    Behind names code indent stop later → p ≤ code.length → 4 * (code.length - p) + 1 ≤ n → n ≤ depth code →
      Yields (readBlock names.strings.length n stop) (cursorAt code p) ss t →
        Behind names code (indent + 1) p (blockInstructions names labels indent p ss ++ later)
  | 0, _, _, _, _, _, _, _, _, enough, _, _ => absurd enough (Nat.not_succ_le_zero _)
  | n + 1, stop, p, indent, ss, t, later, behind, inside, enough, deep, run => by
    obtain ⟨-, end_, -⟩ := readBlock_at inside run
    refine ⟨firstAddress_block indent (behind.next.trans end_),
      fun j first => Nat.lt_succ_of_le (head?_block_indent behind.outer ss p j first), ?_⟩
    rw [readBlock] at run
    obtain ⟨here, c, ⟨⟩, run⟩ := yields_bind.mp run
    split at run
    · obtain ⟨head, c, first, run⟩ := yields_bind.mp run
      have front := readHead_depth inside (by omega) (by omega) first
      obtain ⟨rfl, inside'⟩ := readHead_at inside first
      cases head with
      | action a =>
        obtain ⟨rest, c, others, ⟨⟩⟩ := yields_bind.mp run
        have pos := a.size_pos
        have inside' : p + a.size ≤ code.length := inside'
        have after : Behind names code (indent + 1) (p + a.size)
            (blockInstructions names labels indent (p + a.size) rest ++ later) :=
          behind.block n inside' (by omega) (by omega) others
        refine ⟨⟨_, _, shows_action front after.next fun j first => ?_⟩, after.tiled⟩
        exact Nat.le_of_lt_succ (after.outer j first)
      | guard g =>
        obtain ⟨inner, c, stopped, run⟩ := yields_bind.mp run
        obtain ⟨w, length, rfl, rfl, inside₁⟩ := readStop_at inside' stopped
        have ahead : p + (Head.guard g).size + 4 = p + g.size := Nat.add_assoc ..
        rw [ahead] at length inside₁ run
        obtain ⟨body, c, block, run⟩ := yields_bind.mp run
        obtain ⟨rfl, size, inside₂⟩ := readBlock_at inside₁ block
        obtain ⟨rest, c, others, ⟨⟩⟩ := yields_bind.mp run
        have pos : 0 < g.size := Nat.succ_pos _
        have same : p + (Statement.block g body).size = p + g.size + w.toNat := by
          rw [Statement.size]
          omega
        have after : Behind names code (indent + 1) (p + g.size + w.toNat)
            (blockInstructions names labels indent (p + (Statement.block g body).size) rest ++ later) := by
          rw [same]
          exact behind.block n inside₂ (by omega) (by omega) others
        have within : Behind names code (indent + 2) (p + g.size)
            (blockInstructions names labels (indent + 1) (p + g.size) body ++
              (blockInstructions names labels indent (p + (Statement.block g body).size) rest ++ later)) :=
          after.block n inside₁ (by omega) (by omega) block
        rw [blockInstructions, Statement.instructions, List.append_assoc]
        refine ⟨⟨_, _, shows_guard front length (by omega) ?_ fun j first => ?_⟩, within.tiled⟩
        · exact after.next.trans (by omega)
        · exact Nat.le_of_lt_succ (after.outer j first)
    split at run
    · cases run
      exact behind.tiled
    · cases run

/-- The instructions of decoded code divide it among themselves. -/
theorem partition_of_decode {body : List Statement} (decoded : (decode names.strings.length code).result = .ok body) :
    Partition names code (blockInstructions names labels 1 0 body) := by
  obtain ⟨⟨ss, t⟩, run, last⟩ := Traced.result_bind_eq_ok.mp decoded
  cases last
  have enough : 4 * (code.length - 0) + 1 ≤ depth code := by
    rw [depth]
    omega
  have nothing : Behind names code 1 code.length [] := ⟨rfl, by simp, trivial⟩
  have tiled : Tiled names code (blockInstructions names labels 1 0 _ ++ []) :=
    (nothing.block (depth code) (Nat.zero_le _) enough (Nat.le_refl _) run).tiled
  rw [List.append_nil] at tiled
  obtain ⟨-, size, -⟩ := readBlock_at (p := 0) (Nat.zero_le _) run
  rw [Nat.zero_add] at size
  refine ⟨?_, ?_, blockInstructions_indent_le _ 1 0, ?_, fun before i after => tiled.shows⟩
  · rw [← List.length_eq_zero_iff, ← List.length_eq_zero_iff, size]
    rcases blockInstructions_cases 1 body 0 with ⟨none_, zero⟩ | ⟨i, is, some_, -, -, pos⟩
    · rw [none_, zero]
      rfl
    · rw [some_, List.length_cons]
      omega
  · intro i first
    rcases blockInstructions_cases 1 body 0 with ⟨none_, -⟩ | ⟨i', is, some_, address, indent, -⟩
    · rw [none_] at first
      cases first
    · rw [some_] at first
      cases first
      exact ⟨address, indent⟩
  · rw [address_blockInstructions]
    exact pairwise_blockStarts _ 0

end EventScript.Code

namespace EventScript

theorem instructions_eq_ok {catalog : Catalog} {u : ScriptUnit} {is : List Code.Instruction} :
    (u.instructions catalog).result = .ok is ↔ ∃ body, (u.statements catalog).result = .ok body ∧
      is = Code.blockInstructions (u.names catalog) (u.labels body) 1 0 body := by
  rw [ScriptUnit.instructions, Traced.result_bind_eq_ok]
  constructor
  · rintro ⟨body, statements, ⟨⟩⟩
    exact ⟨body, statements, rfl⟩
  · rintro ⟨body, statements, rfl⟩
    exact ⟨body, statements, rfl⟩

theorem genuine_of_instructions {catalog : Catalog} {u : ScriptUnit} {e : Fault}
    (failed : (u.instructions catalog).result = .error e) :
    ∃ f, e = .code u.header.name f ∧ (f.Genuine u.strings.length u.code ∨ ∃ l, f = .strayLabel l) := by
  rcases Traced.result_bind_eq_error.mp failed with failed | ⟨_, -, ⟨⟩⟩
  rcases Traced.result_bind_eq_error.mp failed with failed | ⟨body, -, failed⟩
  · obtain ⟨f, decoded, rfl⟩ := mapError_eq_error.mp failed
    exact ⟨f, rfl, .inl (Code.genuine_of_decode decoded)⟩
  · rcases Traced.result_bind_eq_error.mp failed with stray | ⟨_, -, ⟨⟩⟩
    have check : u.checkLabels body = .error e := stray
    rw [ScriptUnit.checkLabels] at check
    split at check
    · next l _ =>
      cases check
      exact ⟨_, rfl, .inr ⟨l, rfl⟩⟩
    · cases check

/-- Reading a unit ends, at whatever bytes: no depth above that of `decode` makes a difference, and a fault is one
that the code has, or a label that no statement stands at. The instructions of a unit divide its code. -/
theorem instructions_partition (catalog : Catalog) (u : ScriptUnit) :
    (∀ n, Code.depth u.code ≤ n → Code.readBlock u.strings.length n u.code.length ⟨0, u.code⟩ =
      Code.readBlock u.strings.length (Code.depth u.code) u.code.length ⟨0, u.code⟩) ∧
    (∀ e, (u.instructions catalog).result = .error e →
      ∃ f, e = .code u.header.name f ∧ (f.Genuine u.strings.length u.code ∨ ∃ l, f = .strayLabel l)) ∧
    ∀ is, (u.instructions catalog).result = .ok is → Code.Partition (u.names catalog) u.code is := by
  refine ⟨fun n deep => Code.decode_deeper _ _ deep, fun e failed => genuine_of_instructions failed, fun is shown => ?_⟩
  obtain ⟨body, statements, rfl⟩ := instructions_eq_ok.mp shown
  exact Code.partition_of_decode (statements_eq_ok.mp statements).1

/-- The instructions of a unit with a block. -/
def patrolInstructions : List Code.Instruction :=
  [⟨0, 1, "gosub #40", none, true⟩, ⟨5, 1, "if GateOpen = 0", none, false⟩, ⟨20, 2, "@pause #0", none, false⟩,
    ⟨25, 2, "goto #30", none, false⟩, ⟨30, 1, "goto #40", none, true⟩, ⟨35, 1, "end", none, false⟩]

theorem instructions_patrolUnit : (patrolUnit.instructions .village).result = .ok patrolInstructions :=
  eq_ok_of_toOption (by decide +kernel)

theorem instructions_partition_patrolUnit : (patrolUnit.instructions .village).result = .ok patrolInstructions ∧
    Code.Partition (patrolUnit.names .village) patrolUnit.code patrolInstructions :=
  ⟨instructions_patrolUnit, (instructions_partition .village patrolUnit).2.2 _ instructions_patrolUnit⟩

end EventScript
