import EventScript.Proofs.Decoded

/-!
# Reading within the code

Reading ends, whatever the bytes are, and looks at nothing but them. The depth that `decode` starts with is never
used up, so that a larger one changes nothing (`decode_deeper`), and a fault is always one that the code has
(`genuine_of_decode`): bytes are said to be missing only where the code ends before them, and an opcode is said to be
unknown only at the address where it stands. Both follow from `Alike`, which compares readers of two depths.
-/

namespace EventScript.Code

open Reader

/-- The cursor at an address of the code. -/
def cursorAt (code : Bytes) (p : Nat) : Cursor := ⟨p, code.drop p⟩

/-- The fault tells what is so in code that uses a table of `strings` strings. -/
def Fault.Genuine (strings : Nat) (code : Bytes) : Fault → Prop
  | .truncated want position length => length = code.length ∧ position ≤ length ∧ length < position + want
  | .unknownOpcode offset opcode => code[offset]? = some opcode
  | .crossesEnd stop => stop < code.length
  | .longBlock size position length => length = code.length ∧ position ≤ length ∧ length < position + size
  | .noString index count => count = strings ∧ count ≤ index.toNat
  | .strayLabel _ => False

/-- From an address, two readers end alike: with the same value or the same fault, which is genuine. -/
structure Alike {α : Type} (strings : Nat) (code : Bytes) (p : Nat) (m m' : Reader α) : Prop where
  same : m' (cursorAt code p) = m (cursorAt code p)
  genuine : ∀ e, (m (cursorAt code p)).result = .error e → e.Genuine strings code

variable {strings : Nat} {code : Bytes} {p : Nat}

/-- Bytes that were taken at an address lead to the address behind them. -/
theorem eq_cursorAt {bytes : Bytes} {c : Cursor} (inside : p ≤ code.length)
    (taken : (cursorAt code p).rest = bytes ++ c.rest) (position : c.position = p + bytes.length) :
    c = cursorAt code (p + bytes.length) ∧ p + bytes.length ≤ code.length := by
  have rest : code.drop p = bytes ++ c.rest := taken
  have lengths := congrArg List.length rest
  rw [List.length_drop, List.length_append] at lengths
  have behind : c.rest = code.drop (p + bytes.length) := by
    rw [← List.drop_drop, rest, List.drop_left]
  refine ⟨?_, by omega⟩
  obtain ⟨position', rest'⟩ := c
  cases position
  cases behind
  rfl

section

variable {α β : Type} {m m' : Reader α} {f f' : α → Reader β} {Q : α → Bytes → Prop}

theorem alike_pure (a : α) : Alike strings code p (pure a) (pure a) := ⟨rfl, by rintro e ⟨⟩⟩

theorem alike_fail {e : Fault} (h : e.Genuine strings code) :
    Alike strings code p (fail e : Reader α) (fail e) := by
  refine ⟨rfl, ?_⟩
  rintro e' ⟨⟩
  exact h

/-- Too few bytes are left. -/
theorem genuine_short {want : Nat} (inside : p ≤ code.length) (few : (code.drop p).length < want) :
    (Fault.truncated want p (cursorAt code p).length).Genuine strings code := by
  rw [List.length_drop] at few
  have length : (cursorAt code p).length = code.length := by
    show p + (code.drop p).length = code.length
    rw [List.length_drop]
    omega
  exact ⟨length, by omega, by omega⟩

theorem Alike.bind (first : Alike strings code p m m') (inside : p ≤ code.length) (takes : Consumes m Q)
    (next : ∀ a bytes, Q a bytes → bytes <+: code.drop p → p + bytes.length ≤ code.length →
      Alike strings code (p + bytes.length) (f a) (f' a)) : Alike strings code p (m >>= f) (m' >>= f') := by
  have same : m' (cursorAt code p) = m (cursorAt code p) := first.same
  have run : (m >>= f) (cursorAt code p) = m (cursorAt code p) >>= fun r => f r.1 r.2 := rfl
  have run' : (m' >>= f') (cursorAt code p) = m' (cursorAt code p) >>= fun r => f' r.1 r.2 := rfl
  rcases outcome : m (cursorAt code p) with ⟨notices, e | ⟨a, c⟩⟩
  · refine ⟨by rw [run, run', same, outcome]; rfl, fun e' failed => ?_⟩
    rw [run, outcome] at failed
    cases failed
    exact first.genuine e (by rw [outcome])
  · obtain ⟨bytes, taken, position, holds⟩ := takes _ a c (by rw [Yields, outcome])
    have front : bytes <+: code.drop p := ⟨c.rest, taken.symm⟩
    obtain ⟨rfl, inside'⟩ := eq_cursorAt inside taken position
    have later := next a bytes holds front inside'
    refine ⟨?_, fun e' failed => later.genuine e' ?_⟩
    · rw [run, run', same, outcome]
      show Traced.mk _ _ = Traced.mk _ _
      simp only [later.same]
    · rw [run, outcome] at failed
      exact failed

theorem Alike.map (h : Alike strings code p m m') (g : α → β) :
    Alike strings code p (m >>= fun a => pure (g a)) (m' >>= fun a => pure (g a)) := by
  have run : ∀ m : Reader α, (m >>= fun a => pure (g a)) (cursorAt code p) =
      m (cursorAt code p) >>= fun r => pure (g r.1, r.2) := fun _ => rfl
  refine ⟨by rw [run, run, h.same], fun e failed => h.genuine e ?_⟩
  rw [run] at failed
  rcases outcome : m (cursorAt code p) with ⟨notices, e' | r⟩
  · rw [outcome] at failed
    cases failed
    rfl
  · rw [outcome] at failed
    cases failed

theorem alike_position {f f' : Nat → Reader β} (h : Alike strings code p (f p) (f' p)) :
    Alike strings code p (position >>= f) (position >>= f') := ⟨h.same, h.genuine⟩

theorem alike_peek {f f' : Option UInt8 → Reader β} (h : ∀ b, Alike strings code p (f b) (f' b)) :
    Alike strings code p (peek? >>= f) (peek? >>= f') := ⟨(h _).same, (h _).genuine⟩

theorem alike_note (site : CallSite) {f f' : Unit → Reader β} (inside : p ≤ code.length)
    (h : Alike strings code p (f ()) (f' ())) :
    Alike strings code p (note site >>= f) (note site >>= f') := by
  have silent : Alike strings code p (note site) (note site) := ⟨rfl, by rintro e ⟨⟩⟩
  have nothing : Consumes (note site) fun _ bytes => bytes = [] := by
    rintro c _ _ ⟨⟩
    exact ⟨[], rfl, rfl, rfl⟩
  refine silent.bind inside nothing ?_
  rintro _ _ rfl - -
  exact h

/-- Bytes of a known number are there or are missing. -/
theorem alike_word (inside : p ≤ code.length) : Alike strings code p word word := by
  refine ⟨rfl, fun e failed => ?_⟩
  rw [word] at failed
  split at failed
  · cases failed
  · next none_ =>
    cases failed
    refine genuine_short inside ?_
    show (code.drop p).length < 2
    rcases rest : code.drop p with _ | ⟨a, _ | ⟨b, tail⟩⟩
    · exact Nat.zero_lt_two
    · exact Nat.one_lt_two
    · exact absurd rest (none_ a b tail)

theorem alike_long (inside : p ≤ code.length) : Alike strings code p long long := by
  refine ⟨rfl, fun e failed => ?_⟩
  rw [long] at failed
  split at failed
  · cases failed
  · next none_ =>
    cases failed
    refine genuine_short inside ?_
    show (code.drop p).length < 4
    rcases rest : code.drop p with _ | ⟨a₁, _ | ⟨a₂, _ | ⟨a₃, _ | ⟨a₄, tail⟩⟩⟩⟩
    · simp
    · simp
    · simp
    · simp
    · exact absurd rest (none_ a₁ a₂ a₃ a₄ tail)

theorem alike_skip (inside : p ≤ code.length) (n : Nat) : Alike strings code p (skip n) (skip n) := by
  refine ⟨rfl, fun e failed => ?_⟩
  rw [skip] at failed
  split at failed
  · cases failed
  · next few =>
    cases failed
    exact genuine_short inside (Nat.lt_of_not_le few)

/-- The next byte is that at the address. -/
theorem alike_byte {f f' : UInt8 → Reader β} (inside : p ≤ code.length)
    (h : ∀ b, code[p]? = some b → p + 1 ≤ code.length → Alike strings code (p + 1) (f b) (f' b)) :
    Alike strings code p (byte >>= f) (byte >>= f') := by
  have one : Alike strings code p byte byte := by
    refine ⟨rfl, fun e failed => ?_⟩
    rw [byte] at failed
    split at failed
    · cases failed
    · next none_ =>
      cases failed
      refine genuine_short inside ?_
      show (code.drop p).length < 1
      rcases rest : code.drop p with _ | ⟨a, tail⟩
      · decide
      · exact absurd rest (none_ a tail)
  refine one.bind inside consumes_byte ?_
  rintro b _ rfl ⟨tail, rest⟩ inside'
  refine h b ?_ inside'
  rw [← List.head?_drop, ← rest]
  rfl

theorem alike_stringIndex (inside : p ≤ code.length) :
    Alike strings code p (stringIndex strings) (stringIndex strings) := by
  refine (alike_long inside).bind inside consumes_long ?_
  rintro index _ rfl - -
  split
  · exact alike_pure index
  · next bound => exact alike_fail ⟨rfl, Nat.le_of_not_lt bound⟩

theorem alike_mode (inside : p ≤ code.length) : Alike strings code p readMode readMode := by
  refine alike_position (alike_byte inside fun op there _ => ?_)
  split
  · exact alike_pure _
  · exact alike_fail there

end

/-! ### Operands -/

mutual

/-- A depth of four for each byte that is left, and one more, is enough. -/
theorem readOperand_alike : ∀ (n : Nat) (layout : Layout) (p : Nat), p ≤ code.length →
    4 * (code.length - p) + 1 ≤ n →
      Alike strings code p (readOperand strings n layout) (readOperand strings (n + 1) layout)
  | 0, _, _, _, enough => absurd enough (Nat.not_succ_le_zero _)
  | n + 1, layout, p, inside, enough => by
    simp only [readOperand]
    refine alike_position (alike_byte inside fun op there inside' => ?_)
    have object := readObject_alike n (p + 1) inside' (by omega)
    generalize Opcode.ofCode? op = opcode
    cases opcode with
    | none => exact alike_fail there
    | some opcode =>
      cases opcode with
      | flag =>
        refine (alike_word inside').bind inside' consumes_word ?_
        intro ordinal bytes _ _ inside''
        exact (alike_skip inside'' _).map _
      | var =>
        refine alike_byte inside' fun slot _ inside'' => ?_
        exact (alike_skip inside'' _).map _
      | field =>
        refine object.bind inside' (readObject_consumes n) ?_
        intro object bytes _ _ inside''
        exact (alike_word inside'').map _
      | literal =>
        exact (alike_long inside').map _
      | flexible =>
        exact (alike_long inside').map _
      | string =>
        exact (alike_stringIndex inside').map _
      | call mode =>
        cases mode with
        | function =>
          exact (readCall_alike n (p + 1) inside' (by omega)).map _
        | task => exact alike_fail there
        | async => exact alike_fail there
      | objectCall =>
        refine object.bind inside' (readObject_consumes n) ?_
        intro object bytes _ _ inside₁
        refine (alike_mode inside₁).bind inside₁ consumes_mode ?_
        intro mode bytes' _ _ inside₂
        exact (readCall_alike n _ inside₂ (by omega)).map _
      | _ => exact alike_fail there

theorem readObject_alike : ∀ (n p : Nat), p ≤ code.length → 4 * (code.length - p) + 1 ≤ n →
    Alike strings code p (readObject strings n) (readObject strings (n + 1))
  | 0, _, _, enough => absurd enough (Nat.not_succ_le_zero _)
  | n + 1, p, inside, enough => by
    simp only [readObject]
    refine alike_position (alike_byte inside fun selector there inside' => ?_)
    split
    · refine alike_byte inside' fun code there' inside'' => ?_
      refine (alike_skip inside'' _).bind inside'' (consumes_skip _) ?_
      intro _ _ _ _ _
      split
      · exact alike_pure _
      · exact alike_fail there'
    split
    · exact (alike_stringIndex inside').map _
    split
    · exact (readOperand_alike n .packed (p + 1) inside' (by omega)).map _
    · exact alike_fail there

theorem readCall_alike : ∀ (n p : Nat), p ≤ code.length → 4 * (code.length - p) + 1 ≤ n →
    Alike strings code p (readCall strings n) (readCall strings (n + 1))
  | 0, _, _, enough => absurd enough (Nat.not_succ_le_zero _)
  | n + 1, p, inside, enough => by
    simp only [readCall]
    refine (alike_word inside).bind inside consumes_word ?_
    rintro routine _ rfl - inside'
    rw [length_bytes16] at inside' ⊢
    split
    · exact alike_pure _
    · refine alike_byte inside' fun count _ inside'' => alike_note _ inside'' ?_
      exact (readArguments_alike n _ _ inside'' (by omega)).map _

theorem readArguments_alike : ∀ (n count p : Nat), p ≤ code.length → 4 * (code.length - p) + 2 ≤ n →
    Alike strings code p (readArguments strings n count) (readArguments strings (n + 1) count)
  | 0, _, _, _, enough => absurd enough (Nat.not_succ_le_zero _)
  | n + 1, 0, _, _, _ => by
    simp only [readArguments]
    exact alike_pure _
  | n + 1, count + 1, p, inside, enough => by
    simp only [readArguments]
    refine (readOperand_alike n .padded p inside (by omega)).bind inside (readOperand_consumes n _) ?_
    rintro o bytes ⟨-, rewritten⟩ - inside'
    -- An argument takes at least one byte.
    have pos := o.length_encode_pos .padded
    rw [rewritten.length_eq] at pos
    exact (readArguments_alike n count _ inside' (by omega)).map _

end

/-! ### Statements -/

theorem readFormula_alike : ∀ (n p : Nat), p ≤ code.length → 4 * (code.length - p) + 2 ≤ n →
    Alike strings code p (readFormula strings n) (readFormula strings (n + 1))
  | 0, _, _, enough => absurd enough (Nat.not_succ_le_zero _)
  | n + 1, p, inside, enough => by
    simp only [readFormula]
    refine (readOperand_alike n .packed p inside (by omega)).bind inside (readOperand_consumes n _) ?_
    intro o bytes _ _ inside'
    refine alike_peek fun next => ?_
    split
    · refine (alike_skip inside' 1).bind inside' (consumes_skip 1) ?_
      rintro _ skipped one - inside''
      exact (readFormula_alike n _ inside'' (by omega)).map _
    · exact alike_pure _

theorem readComparison_alike {n p : Nat} (inside : p ≤ code.length) (enough : 4 * (code.length - p) + 2 ≤ n) :
    Alike strings code p (readComparison strings n) (readComparison strings (n + 1)) := by
  refine (readFormula_alike n p inside enough).bind inside (readFormula_consumes n) ?_
  intro left bytes _ _ inside'
  refine alike_position (alike_byte inside' fun op there inside'' => ?_)
  split
  · exact (readFormula_alike n _ inside'' (by omega)).map _
  · exact alike_fail there

theorem readCondition_alike : ∀ (n p : Nat), p ≤ code.length → 4 * (code.length - p) + 3 ≤ n →
    Alike strings code p (readCondition strings n) (readCondition strings (n + 1))
  | 0, _, _, enough => absurd enough (Nat.not_succ_le_zero _)
  | n + 1, p, inside, enough => by
    simp only [readCondition]
    refine (readComparison_alike inside (by omega)).bind inside (readComparison_consumes n) ?_
    intro comparison bytes _ _ inside'
    refine alike_position (alike_byte inside' fun op there inside'' => ?_)
    split
    · exact alike_pure _
    split
    · exact (readCondition_alike n _ inside'' (by omega)).map _
    · exact alike_fail there

theorem readAssignment_alike {n : Nat} {m m' : Reader Place} {Q : Place → Bytes → Prop}
    (place : Alike strings code p m m') (inside : p ≤ code.length) (takes : Consumes m Q)
    (enough : 4 * (code.length - p) + 2 ≤ n) :
    Alike strings code p (readAssignment strings n m) (readAssignment strings (n + 1) m') := by
  refine place.bind inside takes ?_
  intro place bytes _ _ inside'
  exact (readFormula_alike n _ inside' (by omega)).map _

theorem readHead_alike {n : Nat} (inside : p ≤ code.length) (enough : 4 * (code.length - p) ≤ n) :
    Alike strings code p (readHead strings n) (readHead strings (n + 1)) := by
  simp only [readHead]
  refine alike_position (alike_byte inside fun op there inside' => ?_)
  have object : Alike strings code (p + 1) (readObject strings n) (readObject strings (n + 1)) :=
    readObject_alike n (p + 1) inside' (by omega)
  generalize Opcode.ofCode? op = opcode
  cases opcode with
  | none => exact alike_fail there
  | some opcode =>
    cases opcode with
    | call mode => exact (readCall_alike n (p + 1) inside' (by omega)).map _
    | objectCall =>
      refine object.bind inside' (readObject_consumes n) ?_
      intro object bytes _ _ inside₁
      refine (alike_mode inside₁).bind inside₁ consumes_mode ?_
      intro mode bytes' _ _ inside₂
      exact (readCall_alike n _ inside₂ (by omega)).map _
    | condition => exact (readCondition_alike n (p + 1) inside' (by omega)).map _
    | result => exact alike_byte inside' fun _ _ _ => alike_pure _
    | goto => exact (alike_long inside').map _
    | stop => exact (alike_long inside').map _
    | gosub => exact (alike_long inside').map _
    | pause => exact (alike_long inside').map _
    | anchor => exact alike_byte inside' fun _ _ _ => alike_pure _
    | leave => exact alike_pure _
    | leaveInterrupt => exact alike_pure _
    | flag =>
      have place : Consumes (word >>= fun w => pure (Place.flag w)) fun _ _ => True :=
        consumes_word.bind fun _ _ _ => consumes_pure trivial
      exact (readAssignment_alike ((alike_word inside').map _) inside' place (by omega)).map _
    | var =>
      have place : Consumes (byte >>= fun b => pure (Place.var b)) fun _ _ => True :=
        consumes_byte.bind fun _ _ _ => consumes_pure trivial
      exact (readAssignment_alike (alike_byte inside' fun _ _ _ => alike_pure _) inside' place (by omega)).map _
    | field =>
      have place : Consumes (readObject strings n >>= fun object => word >>= fun reference =>
          pure (Place.field object (UInt8.ofNat reference.toNat))) fun _ _ => True :=
        (readObject_consumes n).bind fun _ _ _ => consumes_word.bind fun _ _ _ => consumes_pure trivial
      refine (readAssignment_alike (object.bind inside' (readObject_consumes n) ?_) inside' place (by omega)).map _
      intro object bytes _ _ inside''
      exact (alike_word inside'').map _
    | _ => exact alike_fail there

theorem alike_stop (inside : p ≤ code.length) : Alike strings code p readStop readStop := by
  refine (alike_long inside).bind inside consumes_long ?_
  rintro size _ rfl - inside'
  refine ⟨rfl, fun e failed => ?_⟩
  have length : (cursorAt code (p + (bytes32 size).length)).length = code.length := by
    show p + (bytes32 size).length + (code.drop _).length = code.length
    rw [List.length_drop]
    omega
  simp only at failed
  split at failed
  · cases failed
  · next long =>
    cases failed
    exact ⟨length, length ▸ inside', Nat.lt_of_not_le long⟩

/-- What comes before a block takes at least one byte. -/
theorem Head.length_pos {head : Head} {bytes : Bytes} (h : head.Rewritten strings bytes) : 0 < bytes.length := by
  cases head with
  | action a =>
    rw [← h.2.length_eq, a.length_encode]
    exact a.size_pos
  | guard g =>
    rw [← h.2.length_eq]
    cases g <;> exact Nat.succ_pos _

theorem consumes_stop : Consumes readStop fun _ bytes => bytes.length = 4 := by
  intro c stop c' run
  obtain ⟨w, taken, position, -⟩ := readStop_consumes run
  exact ⟨bytes32 w, taken, by rw [position, length_bytes32], length_bytes32 w⟩

theorem consumes_block (n stop : Nat) : Consumes (readBlock strings n stop) fun _ _ => True := by
  intro c ss c' run
  obtain ⟨-, bytes, taken, position, -⟩ := readBlock_consumes n stop c ss c' run
  exact ⟨bytes, taken, position, trivial⟩

theorem readBlock_alike : ∀ (n stop p : Nat), p ≤ code.length → 4 * (code.length - p) + 1 ≤ n →
    Alike strings code p (readBlock strings n stop) (readBlock strings (n + 1) stop)
  | 0, _, _, _, enough => absurd enough (Nat.not_succ_le_zero _)
  | n + 1, stop, p, inside, enough => by
    rw [readBlock, readBlock]
    refine alike_position ?_
    split
    · refine (readHead_alike inside (by omega)).bind inside (readHead_consumes n) ?_
      intro head bytes front _ inside'
      have pos := Head.length_pos front
      cases head with
      | action a => exact (readBlock_alike n stop _ inside' (by omega)).map _
      | guard guard =>
        refine (alike_stop inside').bind inside' consumes_stop ?_
        intro inner bytes₁ _ _ inside₁
        refine (readBlock_alike n inner _ inside₁ (by omega)).bind inside₁ (consumes_block n inner) ?_
        intro body bytes₂ _ _ inside₂
        exact (readBlock_alike n stop _ inside₂ (by omega)).map _
    split
    · exact alike_pure _
    · next before after =>
      refine alike_fail ?_
      show stop < code.length
      omega

/-! ### Code -/

/-- A larger depth changes nothing. -/
theorem same_of_alike {α : Type} {m : Nat → Reader α} {n : Nat}
    (h : ∀ k, n ≤ k → Alike strings code p (m k) (m (k + 1))) {k : Nat} (le : n ≤ k) :
    m k (cursorAt code p) = m n (cursorAt code p) := by
  induction le with
  | refl => rfl
  | step le ih => rw [(h _ le).same, ih]

/-- Reading code never uses up the depth. -/
theorem decode_deeper (strings : Nat) (code : Bytes) {n : Nat} (deep : depth code ≤ n) :
    readBlock strings n code.length ⟨0, code⟩ = readBlock strings (depth code) code.length ⟨0, code⟩ := by
  have alike : ∀ k, depth code ≤ k →
      Alike strings code 0 (readBlock strings k code.length) (readBlock strings (k + 1) code.length) := by
    intro k le
    rw [depth] at le
    exact readBlock_alike k _ 0 (Nat.zero_le _) (by omega)
  exact same_of_alike alike deep

/-- A fault in code is one that the code has. -/
theorem genuine_of_decode {e : Fault} (h : (decode strings code).result = .error e) : e.Genuine strings code := by
  have enough : 4 * (code.length - 0) + 1 ≤ depth code := by
    rw [depth]
    omega
  refine (readBlock_alike (depth code) code.length 0 (Nat.zero_le _) enough).genuine e ?_
  rw [decode, Traced.result_bind] at h
  cases outcome : (readBlock strings (depth code) code.length ⟨0, code⟩).result with
  | error e' =>
    rw [outcome] at h
    cases h
    exact outcome
  | ok r =>
    rw [outcome] at h
    cases h

end EventScript.Code
