import EventScript.Proofs.Jumps
import EventScript.Proofs.PreambleSettings
import EventScript.Proofs.UnitTexts

/-!
# Addresses in the places of labels

The code of a body is cut into pieces, one for each statement and each guard (`blockPieces`). The piece of a statement
that names a label has a slot of four bytes for its address. What labels stand for changes these slots and no other
byte (`Patched`). From this follows what becomes of the labels of a text (`labels_resolved`).
-/

namespace EventScript

open Source (BodyLine JumpWord LabelAfter labelsOf statementsOf)

/-- The opcode of a statement that names a label. -/
def Source.JumpWord.opcode : JumpWord → Code.Opcode
  | .goto => .goto
  | .stop => .stop
  | .gosub => .gosub
  | .pause => .pause

namespace Code

/-! ### Pieces of code -/

mutual

/-- The code of a statement, cut in front of each statement of its block. -/
def Statement.pieces (f : UInt32 → UInt32) : Statement → List Bytes
  | .action a => [a.encode f]
  | .block guard body =>
    (guard.encode ++ bytes32 (UInt32.ofNat (encodeBlock f body).length)) :: blockPieces f body
  | .mark _ => []

/-- The code of a block, cut in front of each statement. -/
def blockPieces (f : UInt32 → UInt32) : List Statement → List Bytes
  | [] => []
  | s :: ss => s.pieces f ++ blockPieces f ss

end

mutual

theorem Statement.flatten_pieces (f : UInt32 → UInt32) : ∀ s : Statement, (s.pieces f).flatten = s.encode f
  | .action a => List.append_nil _
  | .block guard body => by
    rw [Statement.pieces, List.flatten_cons, flatten_blockPieces f body, Statement.encode]
  | .mark _ => rfl

/-- The pieces make up the code. -/
theorem flatten_blockPieces (f : UInt32 → UInt32) : ∀ ss : List Statement,
    (blockPieces f ss).flatten = encodeBlock f ss
  | [] => rfl
  | s :: ss => by
    rw [blockPieces, List.flatten_append, s.flatten_pieces f, flatten_blockPieces f ss, encodeBlock]

end

/-- Where a piece begins. -/
def offset (pieces : List Bytes) (n : Nat) : Nat := (pieces.take n).flatten.length

@[simp] theorem offset_zero (pieces : List Bytes) : offset pieces 0 = 0 := rfl

@[simp] theorem offset_succ (piece : Bytes) (pieces : List Bytes) (n : Nat) :
    offset (piece :: pieces) (n + 1) = piece.length + offset pieces n := by
  rw [offset, List.take_succ_cons, List.flatten_cons, List.length_append, offset]

/-- Where pieces begin that stand one after the other from an address on. -/
def beginnings (address : Nat) : List Bytes → List Nat
  | [] => []
  | piece :: pieces => address :: beginnings (address + piece.length) pieces

theorem beginnings_append (address : Nat) (as bs : List Bytes) :
    beginnings address (as ++ bs) = beginnings address as ++ beginnings (address + as.flatten.length) bs := by
  induction as generalizing address with
  | nil => rfl
  | cons a as ih =>
    rw [List.cons_append, beginnings, ih, beginnings, List.flatten_cons, List.length_append, Nat.add_assoc,
      List.cons_append]

mutual

theorem Statement.beginnings_pieces (f : UInt32 → UInt32) : ∀ (s : Statement) (address : Nat),
    beginnings address (s.pieces f) = s.starts address
  | .action _, _ => rfl
  | .block guard body, address => by
    have size : (guard.encode ++ bytes32 (UInt32.ofNat (encodeBlock f body).length)).length = guard.size := by
      rw [List.length_append, length_bytes32, Guard.size]
    rw [Statement.pieces, beginnings, size, beginnings_blockPieces f body, Statement.starts]
  | .mark _, _ => rfl

/-- Pieces begin where statements do. -/
theorem beginnings_blockPieces (f : UInt32 → UInt32) : ∀ (ss : List Statement) (address : Nat),
    beginnings address (blockPieces f ss) = blockStarts address ss
  | [], _ => rfl
  | s :: ss, address => by
    rw [blockPieces, beginnings_append, s.beginnings_pieces f, s.flatten_pieces, s.length_encode,
      beginnings_blockPieces f ss, blockStarts]

end

theorem getElem?_beginnings {pieces : List Bytes} {n a address : Nat}
    (h : (beginnings address pieces ++ [address + pieces.flatten.length])[n]? = some a) :
    a = address + offset pieces n := by
  induction pieces generalizing n address with
  | nil =>
    cases n with
    | zero =>
      cases h
      rfl
    | succ n => cases h
  | cons piece pieces ih =>
    cases n with
    | zero =>
      cases h
      rfl
    | succ n =>
      rw [List.flatten_cons, List.length_append, ← Nat.add_assoc] at h
      rw [offset_succ, ← Nat.add_assoc]
      exact ih h

/-- The address after `n` statements is the length of as many pieces. -/
theorem eq_offset_of_stop (f : UInt32 → UInt32) {ss : List Statement} {n a : Nat}
    (h : (blockStops 0 ss)[n]? = some a) : a = offset (blockPieces f ss) n := by
  rw [blockStops, ← beginnings_blockPieces f, ← length_encodeBlock f, ← flatten_blockPieces] at h
  exact (getElem?_beginnings h).trans (Nat.zero_add _)

/-! ### Slots -/

/-- Pieces of code that differ in what the labels of jumps stand for. -/
inductive Patched (f g : UInt32 → UInt32) :
    List (Option (JumpWord × Option UInt32)) → List Bytes → List Bytes → Prop where
  | nil : Patched f g [] [] []
  | slot {jumps : List (Option (JumpWord × Option UInt32))} {as bs : List Bytes} (word : JumpWord) (l : UInt32)
      (rest : Patched f g jumps as bs) : Patched f g (some (word, some l) :: jumps)
        ((word.opcode.code :: bytes32 (f l)) :: as) ((word.opcode.code :: bytes32 (g l)) :: bs)
  | same {jump : Option (JumpWord × Option UInt32)} {jumps : List (Option (JumpWord × Option UInt32))}
      {as bs : List Bytes} (piece : Bytes) (bare : ∀ word l, jump ≠ some (word, some l))
      (rest : Patched f g jumps as bs) : Patched f g (jump :: jumps) (piece :: as) (piece :: bs)

variable {f g : UInt32 → UInt32}

theorem Patched.append {jumps jumps' : List (Option (JumpWord × Option UInt32))} {as as' bs bs' : List Bytes}
    (h : Patched f g jumps as bs) (h' : Patched f g jumps' as' bs') :
    Patched f g (jumps ++ jumps') (as ++ as') (bs ++ bs') := by
  induction h with
  | nil => exact h'
  | slot word l rest ih => exact .slot word l ih
  | same piece bare rest ih => exact .same piece bare ih

theorem Action.patched (a : Action) : Patched f g [a.jump?] [a.encode f] [a.encode g] := by
  cases a with
  | goto target =>
    cases target with
    | none => exact .same _ nofun .nil
    | some l => exact .slot .goto l .nil
  | stop target =>
    cases target with
    | none => exact .same _ nofun .nil
    | some l => exact .slot .stop l .nil
  | gosub l => exact .slot .gosub l .nil
  | pause l => exact .slot .pause l .nil
  | _ => exact .same _ nofun .nil

mutual

theorem Statement.patched : ∀ s : Statement, Patched f g (statementsOf s.outline) (s.pieces f) (s.pieces g)
  | .action a => a.patched
  | .block guard body => by
    have length : (encodeBlock f body).length = (encodeBlock g body).length := by
      rw [length_encodeBlock, length_encodeBlock]
    rw [Statement.pieces, Statement.pieces, length]
    exact .same _ nofun (patched_block body)
  | .mark _ => .nil

/-- The pieces of a block differ only in the slots of its jumps. -/
theorem patched_block : ∀ ss : List Statement,
    Patched f g (statementsOf (blockOutline ss)) (blockPieces f ss) (blockPieces g ss)
  | [] => .nil
  | s :: ss => by
    rw [blockOutline, Source.statementsOf_append]
    exact s.patched.append (patched_block ss)

end

variable {jumps : List (Option (JumpWord × Option UInt32))} {as bs : List Bytes}

theorem Patched.offset_eq (h : Patched f g jumps as bs) (n : Nat) : offset as n = offset bs n := by
  induction h generalizing n with
  | nil => rfl
  | slot word l rest ih =>
    cases n with
    | zero => rfl
    | succ n => rw [offset_succ, offset_succ, ih, List.length_cons, List.length_cons, length_bytes32, length_bytes32]
  | same piece bare rest ih =>
    cases n with
    | zero => rfl
    | succ n => rw [offset_succ, offset_succ, ih]

theorem Patched.length_eq (h : Patched f g jumps as bs) : as.flatten.length = bs.flatten.length := by
  induction h with
  | nil => rfl
  | slot word l rest ih => simp [ih]
  | same piece bare rest ih => simp [ih]

/-- The slot of a jump holds what its label stands for. -/
theorem Patched.slot_eq (h : Patched f g jumps as bs) {n : Nat} {word : JumpWord} {l : UInt32}
    (jump : jumps[n]? = some (some (word, some l))) :
    (as.flatten.drop (offset as n + 1)).take 4 = bytes32 (f l) := by
  induction h generalizing n with
  | nil => cases jump
  | slot word l rest ih =>
    cases n with
    | zero =>
      cases jump
      rfl
    | succ n =>
      rw [offset_succ, List.flatten_cons, Nat.add_assoc, ← List.drop_drop, List.drop_left]
      exact ih jump
  | same piece bare rest ih =>
    cases n with
    | zero =>
      cases jump
      exact absurd rfl (bare word l)
    | succ n =>
      rw [offset_succ, List.flatten_cons, Nat.add_assoc, ← List.drop_drop, List.drop_left]
      exact ih jump

theorem getElem?_append_congr {a b x y : Bytes} {i : Nat} (length : a.length = b.length)
    (front : i < a.length → a[i]? = b[i]?) (back : a.length ≤ i → x[i - a.length]? = y[i - a.length]?) :
    (a ++ x)[i]? = (b ++ y)[i]? := by
  by_cases inside : i < a.length
  · rw [List.getElem?_append_left inside, List.getElem?_append_left (length ▸ inside), front inside]
  · have le := Nat.le_of_not_lt inside
    rw [List.getElem?_append_right le, List.getElem?_append_right (length ▸ le), back le, length]

/-- What labels stand for changes no byte outside of the slots. -/
theorem Patched.getElem?_eq (h : Patched f g jumps as bs) {i : Nat}
    (outside : ∀ n word l, jumps[n]? = some (some (word, some l)) →
      i < offset as n + 1 ∨ offset as n + 5 ≤ i) : as.flatten[i]? = bs.flatten[i]? := by
  induction h generalizing i with
  | nil => rfl
  | slot word l rest ih =>
    refine getElem?_append_congr rfl (fun inside => ?_) fun le => ih fun n word l jump => ?_
    · have here := outside 0 word l rfl
      rw [offset_zero] at here
      rw [List.length_cons, length_bytes32] at inside
      obtain rfl : i = 0 := by omega
      rfl
    · have there := outside (n + 1) word l jump
      rw [offset_succ] at there
      omega
  | same piece bare rest ih =>
    refine getElem?_append_congr rfl (fun _ => rfl) fun le => ih fun n word l jump => ?_
    have there := outside (n + 1) word l jump
    rw [offset_succ] at there
    omega

/-- The four bytes of the low half of an address. -/
theorem bytes32_low (a : Nat) : bytes32 (UInt32.ofNat (a % 65536)) =
    [0, 0, UInt8.ofNat (a % 65536 / 256), UInt8.ofNat (a % 65536 % 256)] := by
  have low : a % 65536 < 65536 := Nat.mod_lt _ (by decide)
  have word : (UInt32.ofNat (a % 65536)).toNat = a % 65536 :=
    UInt32.toNat_ofNat_of_lt' (Nat.lt_trans low (by decide))
  have high : a % 65536 / 16777216 = 0 ∧ a % 65536 / 65536 = 0 := by omega
  have last : UInt8.ofNat (a % 65536) = UInt8.ofNat (a % 65536 % 256) := by
    apply UInt8.toNat_inj.mp
    rw [UInt8.toNat_ofNat', UInt8.toNat_ofNat', Nat.mod_mod]
  rw [bytes32, word, high.1, high.2, last]
  rfl

theorem Action.exists_jump {a : Action} {l : UInt32} (h : a.target? = some l) :
    ∃ word, a.jump? = some (word, some l) := by
  cases a with
  | goto target => exact ⟨.goto, congrArg (fun target => some (JumpWord.goto, target)) h⟩
  | stop target => exact ⟨.stop, congrArg (fun target => some (JumpWord.stop, target)) h⟩
  | gosub target => exact ⟨.gosub, congrArg (fun target => some (JumpWord.gosub, target)) h⟩
  | pause target => exact ⟨.pause, congrArg (fun target => some (JumpWord.pause, target)) h⟩
  | _ => cases h

mutual

theorem Statement.exists_jump {l : UInt32} : ∀ s : Statement, l ∈ s.targets →
    ∃ word, some (word, some l) ∈ statementsOf s.outline
  | .action a, mem => by
    obtain ⟨word, jump⟩ := a.exists_jump (Option.mem_toList.mp mem)
    exact ⟨word, List.mem_singleton.mpr jump.symm⟩
  | .block _ body, mem => by
    obtain ⟨word, jump⟩ := exists_jump_of_target body mem
    exact ⟨word, List.mem_cons_of_mem _ jump⟩
  | .mark _, mem => by cases mem

/-- A target is the label of a jump. -/
theorem exists_jump_of_target {l : UInt32} : ∀ ss : List Statement, l ∈ blockTargets ss →
    ∃ word, some (word, some l) ∈ statementsOf (blockOutline ss)
  | [], mem => by cases mem
  | s :: ss, mem => by
    rw [blockOutline, Source.statementsOf_append]
    rcases List.mem_append.mp mem with mem | mem
    · obtain ⟨word, jump⟩ := s.exists_jump mem
      exact ⟨word, List.mem_append_left _ jump⟩
    · obtain ⟨word, jump⟩ := exists_jump_of_target ss mem
      exact ⟨word, List.mem_append_right _ jump⟩

end

end Code

namespace Assembly

open Code (Statement)

variable {catalog : Catalog} {map name : String} {p : Preamble} {strings : List String}

/-! ### Units -/

theorem isSome_address?_iff {ss : List Statement} {x : UInt32} :
    (address? (Code.blockMarks 0 ss) x).isSome = true ↔ x ∈ labelsOf (Code.blockOutline ss) := by
  rw [Code.labelsOf_blockOutline ss 0, List.mem_map, address?, List.lookup_isSome_iff]
  simp only [beq_iff_eq]
  exact exists_congr fun _ => and_congr_right fun _ => eq_comm

/-- A label without an address is the only fault that labels can have. -/
theorem checkLabels_eq_error {marks : List (UInt32 × Nat)} {ls : List UInt32} {e : Fault}
    (h : (checkLabels map name marks ls).result = .error e) :
    ∃ x ∈ ls, address? marks x = none ∧ e = .unresolvedLabel map name x := by
  induction ls with
  | nil => cases h
  | cons l ls ih =>
    rcases Traced.result_bind_eq_error.mp h with failed | ⟨_, -, failed⟩
    · rw [checkLabel] at failed
      split at failed
      · next none_ =>
        cases failed
        exact ⟨l, List.mem_cons_self .., none_, rfl⟩
      · rw [Traced.result_noteIf] at failed
        cases failed
    · obtain ⟨x, mem, rest⟩ := ih failed
      exact ⟨x, List.mem_cons_of_mem _ mem, rest⟩

theorem entryOf_eq_error {marks : List (UInt32 × Nat)} {e : Fault} (h : entryOf map name marks p = .error e) :
    ∃ x, p.entryLabel = some x ∧ address? marks x = none ∧ e = .unresolvedLabel map name x := by
  rw [entryOf] at h
  split at h
  · next x label =>
    split at h
    · cases h
    · next none_ =>
      cases h
      exact ⟨x, label, none_, rfl⟩
  · cases h

theorem isSome_of_entryOf {marks : List (UInt32 × Nat)} {entry : UInt32} (h : entryOf map name marks p = .ok entry)
    {x : UInt32} (label : p.entryLabel = some x) : (address? marks x).isSome = true := by
  rw [entryOf, label] at h
  cases found : address? marks x with
  | some a => rfl
  | none =>
    simp only [found] at h
    cases h

variable (t : UnitText catalog)

/-- What the lines of the body say, as far as labels are concerned. -/
def UnitText.outline : List BodyLine := t.body.map Source.Line.entry

/-- The label that the entry is given last. -/
def UnitText.entryLabel : Option UInt32 :=
  (t.settings.filterMap fun l => entryLabel? (Source.tokensOf l.text)).getLast?

/-- A statement names the label, or it is that of the entry. -/
def UnitText.Uses (x : UInt32) : Prop :=
  (∃ word, some (word, some x) ∈ statementsOf t.outline) ∨ t.entryLabel = some x

/-- The code of each statement and guard in turn, with zeros for labels. -/
def UnitText.pieces : List Bytes := Code.blockPieces (fun _ => 0) t.statements

/-- The label stands for the address of the first statement after its line, or that of the end. -/
def UnitText.Address (x : UInt32) (a : Nat) : Prop :=
  ∃ n, LabelAfter t.outline x n ∧ a = Code.offset t.pieces n

/-- The byte is none of those for the label of a jump. -/
def UnitText.Outside (i : Nat) : Prop :=
  ∀ n word x, (statementsOf t.outline)[n]? = some (some (word, some x)) →
    i < Code.offset t.pieces n + 1 ∨ Code.offset t.pieces n + 5 ≤ i

/-- The unit is the text with addresses in the places of labels. -/
structure UnitText.Resolved (u : ScriptUnit) : Prop where
  length : u.code.length = t.pieces.flatten.length
  slots : ∀ n word x, (statementsOf t.outline)[n]? = some (some (word, some x)) → ∃ a, t.Address x a ∧
    (u.code.drop (Code.offset t.pieces n + 1)).take 4 =
      [0, 0, UInt8.ofNat (a % 65536 / 256), UInt8.ofNat (a % 65536 % 256)]
  others : ∀ i, t.Outside i → u.code[i]? = t.pieces.flatten[i]?
  entry : ∀ x, t.entryLabel = some x → ∃ a, t.Address x a ∧ u.header.entry = UInt32.ofNat a

variable {t}

theorem entryLabel_eq : t.preamble.entryLabel = t.entryLabel := by
  rw [entryLabel_of_settings t.set, Option.or_none]
  rfl

theorem outline_eq : Code.blockOutline t.statements = Source.unbraced t.outline := t.composed.outline

theorem labelsOf_statements : labelsOf (Code.blockOutline t.statements) = labelsOf t.outline := by
  rw [outline_eq, Source.labelsOf_unbraced]

theorem statementsOf_statements : statementsOf (Code.blockOutline t.statements) = statementsOf t.outline := by
  rw [outline_eq, Source.statementsOf_unbraced]

/-- A label that stands on one line has the address of the statement after it. -/
theorem exists_address (nodup : (labelsOf t.outline).Nodup) {x : UInt32} (mem : x ∈ labelsOf t.outline) :
    ∃ a, t.Address x a ∧ address? (Code.blockMarks 0 t.statements) x = some a := by
  obtain ⟨e, found, label⟩ := List.mem_filterMap.mp mem
  obtain ⟨before, after, cut⟩ := List.append_of_mem found
  cases e with
  | label y =>
    cases label
    have outline : Code.blockOutline t.statements = Source.unbraced before ++ .label x :: Source.unbraced after := by
      rw [outline_eq, cut, Source.unbraced_append]
      rfl
    obtain ⟨a, marked, stop⟩ := Code.mark_of_outline t.statements 0 outline
    rw [Source.statementsOf_unbraced] at stop
    rw [← labelsOf_statements, Code.labelsOf_blockOutline t.statements 0] at nodup
    exact ⟨a, ⟨_, ⟨before, after, cut, rfl⟩, Code.eq_offset_of_stop _ stop⟩, Code.address?_of_mem nodup marked⟩
  | statement jump => cases label
  | brace => cases label

theorem resolved_builtUnit (nodup : (labelsOf t.outline).Nodup) (known : ∀ x, t.Uses x → x ∈ labelsOf t.outline)
    {entry : UInt32} (started : entryOf map t.name (Code.blockMarks 0 t.statements) t.preamble = .ok entry) :
    t.Resolved (builtUnit t.name t.preamble t.strings t.statements entry) := by
  have patched : Code.Patched (lowAddress (Code.blockMarks 0 t.statements)) (fun _ => 0)
      (statementsOf (Code.blockOutline t.statements)) _ _ := Code.patched_block t.statements
  have code : (builtUnit t.name t.preamble t.strings t.statements entry).code = _ :=
    (Code.flatten_blockPieces _ t.statements).symm
  rw [statementsOf_statements] at patched
  refine ⟨?_, ?_, ?_, ?_⟩
  · rw [code, patched.length_eq]
    rfl
  · intro n word x jump
    obtain ⟨a, address, found⟩ := exists_address nodup (known x (.inl ⟨word, List.mem_of_getElem? jump⟩))
    refine ⟨a, address, ?_⟩
    rw [code, UnitText.pieces, ← patched.offset_eq, patched.slot_eq jump, lowAddress, found, ← Code.bytes32_low]
    rfl
  · intro i outside
    rw [code, UnitText.pieces]
    refine patched.getElem?_eq fun n word x jump => ?_
    rw [patched.offset_eq]
    exact outside n word x jump
  · intro x label
    obtain ⟨a, address, found⟩ := exists_address nodup (known x (.inr label))
    rw [← entryLabel_eq] at label
    rw [entryOf, label] at started
    simp only [found] at started
    cases started
    exact ⟨a, address, rfl⟩

/-- If no label is marked twice, a unit is put together unless a label that is used stands nowhere. -/
theorem unitOf_cases (nodup : (labelsOf t.outline).Nodup) (map : String) :
    (∃ x, t.Uses x ∧ x ∉ labelsOf t.outline ∧
      (unitOf map t.name t.preamble t.strings t.statements).result = .error (.unresolvedLabel map t.name x)) ∨
    (∀ x, t.Uses x → x ∈ labelsOf t.outline) ∧ ∃ u,
      (unitOf map t.name t.preamble t.strings t.statements).result = .ok u ∧ t.Resolved u := by
  have used : ∀ x, x ∈ Code.blockTargets t.statements ↔ ∃ word, some (word, some x) ∈ statementsOf t.outline := by
    intro x
    rw [← statementsOf_statements]
    exact ⟨Code.exists_jump_of_target _, fun ⟨_, jump⟩ => Code.mem_targets_of_outline _ jump⟩
  have unmarked : ∀ x, address? (Code.blockMarks 0 t.statements) x = none → x ∉ labelsOf t.outline := by
    intro x none_ mem
    rw [← labelsOf_statements, ← isSome_address?_iff, none_] at mem
    cases mem
  rw [result_unitOf]
  cases checked : (checkLabels map t.name (Code.blockMarks 0 t.statements) (Code.ascending
      (Code.blockTargets t.statements ++ (Code.blockMarks 0 t.statements).map Prod.fst))).result with
  | error e =>
    obtain ⟨x, mem, none_, rfl⟩ := checkLabels_eq_error checked
    rcases List.mem_append.mp (Code.mem_ascending.mp mem) with target | marked
    · exact .inl ⟨x, .inl ((used x).mp target), unmarked x none_, rfl⟩
    · rw [← Code.labelsOf_blockOutline, labelsOf_statements] at marked
      exact absurd marked (unmarked x none_)
  | ok _ =>
    have targets := checkLabels_eq_ok.mp checked
    cases started : entryOf map t.name (Code.blockMarks 0 t.statements) t.preamble with
    | error e =>
      obtain ⟨x, label, none_, rfl⟩ := entryOf_eq_error started
      exact .inl ⟨x, .inr (entryLabel_eq.symm.trans label), unmarked x none_, rfl⟩
    | ok entry =>
      have known : ∀ x, t.Uses x → x ∈ labelsOf t.outline := by
        rintro x (jump | label)
        · rw [← labelsOf_statements, ← isSome_address?_iff]
          exact targets x (Code.mem_ascending.mpr (List.mem_append_left _ ((used x).mpr jump)))
        · rw [← labelsOf_statements, ← isSome_address?_iff]
          exact isSome_of_entryOf started (entryLabel_eq.trans label)
      exact .inr ⟨known, _, rfl, resolved_builtUnit nodup known started⟩

/-- The labels of a text whose lines can be read. If a label is marked twice, that is a fault of the second line.
Otherwise it is a fault if a label is used that stands nowhere, and if there is none, the text becomes a unit with
addresses in the places of labels. -/
theorem labels_resolved (t : UnitText catalog) {lines : List String} (map : String)
    (prepared : Source.preparedFrom catalog 1 lines = .ok t.lines) :
    (¬ (labelsOf t.outline).Nodup → ∃ before l after x, t.body = before ++ l :: after ∧ (labelsIn before).Nodup ∧
      l.entry = .label x ∧ x ∈ labelsIn before ∧
        (assemble catalog map lines).result = .error (.line map l.number (.labelTwice x))) ∧
    ((∃ x, (assemble catalog map lines).result = .error (.unresolvedLabel map t.name x)) ↔
      (labelsOf t.outline).Nodup ∧ ∃ x, t.Uses x ∧ x ∉ labelsOf t.outline) ∧
    ((labelsOf t.outline).Nodup → (∀ x, t.Uses x → x ∈ labelsOf t.outline) →
      ∃ u, (assemble catalog map lines).result = .ok [u] ∧ t.Resolved u) := by
  rw [assemble_unitText t map prepared]
  by_cases nodup : (labelsOf t.outline).Nodup
  · rw [foldlM_mark nodup fun _ _ => List.not_mem_nil, ok_bind]
    obtain ⟨x, uses, nowhere, failed⟩ | ⟨known, u, built, resolved⟩ := unitOf_cases nodup map
    · rw [failed]
      exact ⟨fun twice => absurd nodup twice, ⟨fun _ => ⟨nodup, x, uses, nowhere⟩, fun _ => ⟨x, rfl⟩⟩,
        fun _ known => absurd (known x uses) nowhere⟩
    · rw [built]
      refine ⟨fun twice => absurd nodup twice, ⟨?_, ?_⟩, fun _ _ => ⟨u, rfl, resolved⟩⟩
      · rintro ⟨x, ⟨⟩⟩
      · rintro ⟨-, x, uses, nowhere⟩
        exact absurd (known x uses) nowhere
  · obtain ⟨before, l, after, x, cut, once, label, mem⟩ := exists_twice nodup
    rw [cut, foldlM_mark_twice once label mem]
    refine ⟨fun _ => ⟨before, l, after, x, rfl, once, label, mem, rfl⟩, ⟨?_, ?_⟩, fun h => absurd h nodup⟩
    · rintro ⟨x, ⟨⟩⟩
    · rintro ⟨h, -⟩
      exact absurd h nodup

/-- A script that jumps into and out of a block, and starts at its end. -/
def relayText : List String :=
  ["unit \"Relay\"", "entry = #2", Text.leftBrace, "#1:", "gosub #2", "if var1 = 0", Text.leftBrace, "goto #1",
    Text.rightBrace, "#2:", Text.rightBrace]

/-- The parts of the text. -/
def relay : UnitText .village where
  head := ⟨1, "unit \"Relay\"".toList⟩
  name := "Relay"
  settings := [⟨2, "entry = #2".toList⟩]
  preamble := { entryLabel := some 2 }
  left := ⟨3, ['{']⟩
  body := [⟨4, "#1:".toList⟩, ⟨5, "gosub #2".toList⟩, ⟨6, "if var1 = 0".toList⟩, ⟨7, ['{']⟩, ⟨8, "goto #1".toList⟩,
    ⟨9, ['}']⟩, ⟨10, "#2:".toList⟩]
  statements := [.mark 1, .action (.gosub 2),
    .block (.condition (.last ⟨.last (.var 1), .equal, .last (.literal 0)⟩)) [.action (.goto (some 1))], .mark 2]
  strings := []
  right := ⟨11, ['}']⟩
  named := eq_ok_of_toOption (by decide +kernel)
  set := eq_ok_of_toOption (by decide +kernel)
  opening := rfl
  composed :=
    .plain ⟨[.label 1, .sym .colon], eq_ok_of_toOption (by decide +kernel), rfl⟩ <|
    .plain ⟨[.ident "gosub", .label 2], eq_ok_of_toOption (by decide +kernel), rfl⟩ <|
    .block ⟨[.ident "if", .ident "var1", .sym .equal, .int 0], eq_ok_of_toOption (by decide +kernel), rfl⟩ rfl
      (.plain ⟨[.ident "goto", .label 1], eq_ok_of_toOption (by decide +kernel), rfl⟩ .nil) (by decide +kernel) rfl <|
    .plain ⟨[.label 2, .sym .colon], eq_ok_of_toOption (by decide +kernel), rfl⟩ .nil
  closing := rfl

theorem prepared_relayText : Source.preparedFrom .village 1 relayText = .ok relay.lines :=
  eq_ok_of_toOption (by decide +kernel)

theorem labels_resolved_relay : Source.preparedFrom .village 1 relayText = .ok relay.lines ∧
    (labelsOf relay.outline).Nodup ∧ (∀ x, relay.Uses x → x ∈ labelsOf relay.outline) ∧
      ∃ u, (assemble .village "field" relayText).result = .ok [u] ∧ relay.Resolved u := by
  have labels : labelsOf relay.outline = [1, 2] := by decide +kernel
  have jumps : statementsOf relay.outline = [some (.gosub, some 2), none, some (.goto, some 1)] := by decide +kernel
  have entry : relay.entryLabel = some 2 := by decide +kernel
  have nodup : (labelsOf relay.outline).Nodup := by
    rw [labels]
    decide
  have known : ∀ x, relay.Uses x → x ∈ labelsOf relay.outline := by
    rw [labels]
    rintro x (⟨word, jump⟩ | label)
    · rw [jumps] at jump
      simp only [List.mem_cons, List.not_mem_nil, or_false, Option.some.injEq, Prod.mk.injEq, reduceCtorEq,
        false_or] at jump
      rcases jump with ⟨-, rfl⟩ | ⟨-, rfl⟩ <;> decide
    · cases entry.symm.trans label
      decide
  exact ⟨prepared_relayText, nodup, known, (labels_resolved relay "field" prepared_relayText).2.2 nodup known⟩

end Assembly

end EventScript
