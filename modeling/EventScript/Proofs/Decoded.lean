import EventScript.Proofs.Codec
import EventScript.Proofs.Roles

/-!
# Bytes that were read as code

Reading takes whole pieces of code: whatever the bytes are, the code that they are read as can be written
down in as many bytes, which differ from them only where nothing is read (`decode_spec`). `Consumes m Q` says
that the bytes a reader takes and the value it ends with satisfy `Q`.
-/

namespace EventScript

theorem Operator.eq_code {b : UInt8} {o : Operator} (h : ofCode? b = some o) : b = o.code := by
  unfold ofCode? at h
  repeat' split at h
  all_goals cases h
  all_goals assumption

theorem Comparator.eq_code {b : UInt8} {c : Comparator} (h : ofCode? b = some c) : b = c.code := by
  unfold ofCode? at h
  repeat' split at h
  all_goals cases h
  all_goals assumption

theorem Conjunction.eq_code {b : UInt8} {c : Conjunction} (h : ofCode? b = some c) : b = c.code := by
  unfold ofCode? at h
  repeat' split at h
  all_goals cases h
  all_goals assumption

theorem CallMode.eq_code {b : UInt8} {m : CallMode} (h : ofCode? b = some m) : b = m.code := by
  unfold ofCode? at h
  repeat' split at h
  all_goals cases h
  all_goals assumption

theorem Builtin.eq_code {b : UInt8} {which : Builtin} (h : ofCode? b = some which) : b = which.code := by
  unfold ofCode? at h
  repeat' split at h
  all_goals cases h
  all_goals assumption

namespace Code

theorem Opcode.eq_code {b : UInt8} {o : Opcode} (h : ofCode? b = some o) : b = o.code := by
  obtain ⟨bound, same⟩ := List.getElem?_eq_some_iff.mp h
  have codes : ∀ i : Fin all.length, (all.get i).code.toNat = i := by decide
  have code := codes ⟨b.toNat, bound⟩
  rw [List.get_eq_getElem, same] at code
  exact UInt8.toNat_inj.mp code.symm

open Reader

/-- Whenever the reader ends with a value, the value and the bytes that it has taken satisfy `Q`. -/
def Consumes {α : Type} (m : Reader α) (Q : α → Bytes → Prop) : Prop :=
  ∀ c a c', Yields m c a c' →
    ∃ bytes, c.rest = bytes ++ c'.rest ∧ c'.position = c.position + bytes.length ∧ Q a bytes

section

variable {α β : Type} {m : Reader α} {f : α → Reader β} {P : α → Bytes → Prop} {Q : β → Bytes → Prop}

theorem consumes_pure {b : β} (h : Q b []) : Consumes (pure b) Q := by
  intro c b' c' run
  obtain ⟨rfl, rfl⟩ := yields_pure.mp run
  exact ⟨[], rfl, rfl, h⟩

theorem Consumes.bind (first : Consumes m P)
    (rest : ∀ a bytes, P a bytes → Consumes (f a) fun b more => Q b (bytes ++ more)) : Consumes (m >>= f) Q := by
  intro c b c' run
  obtain ⟨a, t, here, there⟩ := yields_bind.mp run
  obtain ⟨bytes, taken, position, holds⟩ := first c a t here
  obtain ⟨more, taken', position', holds'⟩ := rest a bytes holds t b c' there
  refine ⟨bytes ++ more, ?_, ?_, holds'⟩
  · rw [taken, taken', List.append_assoc]
  · rw [position', position, List.length_append, Nat.add_assoc]

theorem consumes_fail (e : Fault) : Consumes (fail e) P := by
  rintro c a c' ⟨⟩

theorem consumes_short (want : Nat) : Consumes (short want) P := by
  rintro c a c' ⟨⟩

theorem consumes_position {f : Nat → Reader β} (h : ∀ start, Consumes (f start) Q) :
    Consumes (position >>= f) Q := by
  intro c b c' run
  obtain ⟨start, t, ⟨⟩, rest⟩ := yields_bind.mp run
  exact h _ _ _ _ rest

theorem consumes_note {f : Unit → Reader β} (site : CallSite) (h : Consumes (f ()) Q) :
    Consumes (note site >>= f) Q := by
  intro c b c' run
  obtain ⟨_, t, ⟨⟩, rest⟩ := yields_bind.mp run
  exact h _ _ _ rest

theorem consumes_byte : Consumes byte fun b bytes => bytes = [b] := by
  intro c b c' run
  unfold Yields byte at run
  split at run
  · next rest =>
    cases run
    exact ⟨[b], rest, rfl, rfl⟩
  · cases run

theorem consumes_word : Consumes word fun w bytes => bytes = bytes16 w := by
  intro c w c' run
  unfold Yields word at run
  split at run
  · next a b tail rest =>
    cases run
    exact ⟨[a, b], rest, rfl, (bytes16_word16 a b).symm⟩
  · cases run

theorem consumes_long : Consumes long fun w bytes => bytes = bytes32 w := by
  intro c w c' run
  unfold Yields long at run
  split at run
  · next a₁ a₂ a₃ a₄ tail rest =>
    cases run
    exact ⟨[a₁, a₂, a₃, a₄], rest, rfl, (bytes32_word32 a₁ a₂ a₃ a₄).symm⟩
  · cases run

theorem consumes_skip (n : Nat) : Consumes (skip n) fun _ bytes => bytes.length = n := by
  intro c _ c' run
  unfold Yields skip at run
  split at run
  · next enough =>
    cases run
    refine ⟨c.rest.take n, (List.take_append_drop n c.rest).symm, ?_, List.length_take_of_le enough⟩
    rw [List.length_take_of_le enough]
  · cases run

theorem consumes_stringIndex (count : Nat) :
    Consumes (stringIndex count) fun index bytes => index.toNat < count ∧ bytes = bytes32 index := by
  refine consumes_long.bind ?_
  rintro index _ rfl
  split
  · next bound => exact consumes_pure ⟨bound, List.append_nil _⟩
  · exact consumes_fail _

theorem consumes_mode : Consumes readMode fun mode bytes => bytes = [mode.code] := by
  refine consumes_position fun start => consumes_byte.bind ?_
  rintro op _ rfl
  split
  · next mode found =>
    refine consumes_pure ?_
    rw [CallMode.eq_code found]
    rfl
  · exact consumes_fail _

end

/-! ### Operands -/

/-- What the bytes that were read as code with some roles look like when the code is written down. -/
abbrev Rewritten (roles : List Role) (bytes code : Bytes) : Prop := Bytewise Role.Written roles bytes code

theorem rewritten_kept (bytes : Bytes) : Rewritten (List.replicate bytes.length .kept) bytes bytes :=
  bytewise_kept (fun _ => rfl) bytes

theorem rewritten_spare (bytes : Bytes) :
    Rewritten (List.replicate bytes.length .spare) bytes (List.replicate bytes.length 0) :=
  bytewise_spare (fun _ => rfl) bytes

theorem rewritten_constant {op : UInt8} (w : UInt32) :
    Rewritten (.constant :: List.replicate 4 .kept) (op :: bytes32 w) (op :: bytes32 w) :=
  .cons rfl (rewritten_kept (bytes32 w))

/-- The first byte of the word for a reference means nothing. -/
theorem rewritten_reference (w : UInt16) :
    Rewritten [.spare, .kept] (bytes16 w) [0, UInt8.ofNat w.toNat] :=
  .cons rfl (.cons rfl .nil)

/-- The bytes after the opcode of a call. -/
def RewrittenCall (strings : Nat) (call : UInt16 × List Operand) (bytes : Bytes) : Prop :=
  (CallFits call.1 call.2.length ∧ argumentsFit strings call.2) ∧
    Rewritten (List.replicate (callHead call.1 call.2.length).length .kept ++ argumentRoles call.2) bytes
      (callHead call.1 call.2.length ++ encodeArguments call.2)

variable {strings : Nat}

/-- What follows the opcode of a call, from what the arguments are read as. -/
theorem consumes_call {n : Nat}
    (inner : ∀ count, Consumes (readArguments strings n count) fun as bytes =>
      as.length = count ∧ argumentsFit strings as ∧ Rewritten (argumentRoles as) bytes (encodeArguments as)) :
    Consumes (readCall strings (n + 1)) (RewrittenCall strings) := by
  rw [readCall]
  refine consumes_word.bind ?_
  rintro routine _ rfl
  split
  · next zero =>
    subst zero
    refine consumes_pure ⟨⟨⟨fun _ => rfl, Nat.zero_le _⟩, trivial⟩, ?_⟩
    exact (rewritten_kept (bytes16 0)).append .nil
  · next nonzero =>
    refine consumes_byte.bind ?_
    rintro count _ rfl
    refine consumes_note _ ((inner count.toNat).bind ?_)
    rintro as bytes ⟨length, fits, rewritten⟩
    have few : as.length ≤ 255 := by
      have := count.toNat_lt
      omega
    refine consumes_pure ⟨⟨⟨fun zero => absurd zero nonzero, few⟩, fits⟩, ?_⟩
    have head : callHead routine as.length = bytes16 routine ++ [count] := by
      rw [callHead, if_neg nonzero, length, UInt8.ofNat_toNat]
    rw [head, List.append_nil, ← List.append_assoc]
    exact (rewritten_kept _).append rewritten

mutual

/-- An operand that was read can be written down in the bytes that were taken. -/
theorem readOperand_consumes : ∀ (n : Nat) (layout : Layout),
    Consumes (readOperand strings n layout) fun o bytes =>
      o.Fits strings ∧ Rewritten (o.roles layout) bytes (o.encode layout)
  | 0, _ => by
    rw [readOperand]
    exact consumes_short 1
  | n + 1, layout => by
    rw [readOperand]
    refine consumes_position fun start => consumes_byte.bind ?_
    rintro op _ rfl
    split
    · next found =>
      obtain rfl := Opcode.eq_code found
      refine consumes_word.bind ?_
      rintro ordinal _ rfl
      refine (consumes_skip _).bind ?_
      intro _ pad length
      refine consumes_pure ⟨trivial, ?_⟩
      rw [List.append_nil, Operand.roles, Operand.encode, ← length]
      exact (rewritten_kept (Opcode.flag.code :: bytes16 ordinal)).append (rewritten_spare pad)
    · next found =>
      obtain rfl := Opcode.eq_code found
      refine consumes_byte.bind ?_
      rintro slot _ rfl
      refine (consumes_skip _).bind ?_
      intro _ pad length
      refine consumes_pure ⟨trivial, ?_⟩
      rw [List.append_nil, Operand.roles, Operand.encode, ← length]
      exact (rewritten_kept [Opcode.var.code, slot]).append (rewritten_spare pad)
    · next found =>
      obtain rfl := Opcode.eq_code found
      refine (readObject_consumes n).bind ?_
      rintro object bytes ⟨fits, rewritten⟩
      refine consumes_word.bind ?_
      rintro reference _ rfl
      refine consumes_pure ⟨fits, ?_⟩
      rw [List.append_nil]
      exact .cons rfl (rewritten.append (rewritten_reference reference))
    · next found =>
      obtain rfl := Opcode.eq_code found
      refine consumes_long.bind ?_
      rintro value _ rfl
      exact consumes_pure ⟨trivial, rewritten_constant value⟩
    · next found =>
      obtain rfl := Opcode.eq_code found
      refine consumes_long.bind ?_
      rintro value _ rfl
      exact consumes_pure ⟨trivial, rewritten_constant value⟩
    · next found =>
      obtain rfl := Opcode.eq_code found
      refine (consumes_stringIndex strings).bind ?_
      rintro index _ ⟨bound, rfl⟩
      exact consumes_pure ⟨bound, rewritten_constant index⟩
    · next found =>
      obtain rfl := Opcode.eq_code found
      refine (readCall_consumes n).bind ?_
      rintro ⟨routine, arguments⟩ bytes ⟨fits, rewritten⟩
      refine consumes_pure ⟨fits, ?_⟩
      rw [List.append_nil]
      exact .cons rfl rewritten
    · next found =>
      obtain rfl := Opcode.eq_code found
      refine (readObject_consumes n).bind ?_
      rintro object bytes ⟨objectFits, rewritten⟩
      refine consumes_mode.bind ?_
      rintro mode _ rfl
      refine (readCall_consumes n).bind ?_
      rintro ⟨routine, arguments⟩ bytes' ⟨fits, rewritten'⟩
      refine consumes_pure ⟨⟨objectFits, fits⟩, ?_⟩
      rw [List.append_nil, Operand.roles, Operand.encode, List.append_assoc, List.append_assoc]
      exact .cons rfl (rewritten.append (.cons rfl rewritten'))
    · exact consumes_fail _

/-- An object that was read can be written down in the bytes that were taken. -/
theorem readObject_consumes : ∀ n : Nat, Consumes (readObject strings n) fun o bytes =>
    o.Fits strings ∧ Rewritten o.roles bytes o.encode
  | 0 => by
    rw [readObject]
    exact consumes_short 1
  | n + 1 => by
    rw [readObject]
    refine consumes_position fun start => consumes_byte.bind ?_
    rintro selector _ rfl
    split
    · next builtin =>
      subst builtin
      refine consumes_byte.bind ?_
      rintro code _ rfl
      refine (consumes_skip 1).bind ?_
      intro _ pad length
      obtain ⟨spare, rfl⟩ := List.length_eq_one_iff.mp length
      split
      · next which found =>
        obtain rfl := Builtin.eq_code found
        exact consumes_pure ⟨trivial, .cons rfl (.cons rfl (.cons rfl .nil))⟩
      · exact consumes_fail _
    split
    · next named =>
      subst named
      refine (consumes_stringIndex strings).bind ?_
      rintro index _ ⟨bound, rfl⟩
      exact consumes_pure ⟨bound, rewritten_kept (1 :: bytes32 index)⟩
    split
    · next dynamic =>
      subst dynamic
      refine (readOperand_consumes n .packed).bind ?_
      rintro value bytes ⟨fits, rewritten⟩
      refine consumes_pure ⟨fits, ?_⟩
      rw [List.append_nil]
      exact .cons rfl rewritten
    · exact consumes_fail _

theorem readCall_consumes : ∀ n : Nat, Consumes (readCall strings n) (RewrittenCall strings)
  | 0 => by
    rw [readCall]
    exact consumes_short 1
  | n + 1 => consumes_call fun count => readArguments_consumes n count

theorem readArguments_consumes : ∀ n count : Nat, Consumes (readArguments strings n count) fun as bytes =>
    as.length = count ∧ argumentsFit strings as ∧ Rewritten (argumentRoles as) bytes (encodeArguments as)
  | 0, _ => by
    rw [readArguments]
    exact consumes_short 1
  | _ + 1, 0 => by
    rw [readArguments]
    exact consumes_pure ⟨rfl, trivial, .nil⟩
  | n + 1, count + 1 => by
    rw [readArguments]
    refine (readOperand_consumes n .padded).bind ?_
    rintro a bytes ⟨fits, rewritten⟩
    refine (readArguments_consumes n count).bind ?_
    rintro as bytes' ⟨length, fits', rewritten'⟩
    refine consumes_pure ⟨by rw [List.length_cons, length], ⟨fits, fits'⟩, ?_⟩
    rw [List.append_nil]
    exact rewritten.append rewritten'

end

/-! ### Statements -/

/-- The operator of a formula is looked at before it is passed over. -/
theorem readFormula_consumes : ∀ n : Nat, Consumes (readFormula strings n) fun f bytes =>
    f.Fits strings ∧ Rewritten f.roles bytes f.encode
  | 0 => by
    rw [readFormula]
    exact consumes_short 1
  | n + 1 => by
    rw [readFormula]
    refine (readOperand_consumes n .packed).bind ?_
    rintro operand bytes ⟨fits, rewritten⟩
    intro c f c' run
    obtain ⟨next, t, ⟨⟩, run⟩ := yields_bind.mp run
    cases found : c.rest.head?.bind Operator.ofCode? with
    | none =>
      simp only [found] at run
      obtain ⟨rfl, rfl⟩ := yields_pure.mp run
      refine ⟨[], rfl, rfl, fits, ?_⟩
      rw [List.append_nil]
      exact rewritten
    | some operator =>
      simp only [found] at run
      obtain ⟨b, head, code⟩ := Option.bind_eq_some_iff.mp found
      obtain rfl := Operator.eq_code code
      have more : Consumes (skip 1 >>= fun _ => readFormula strings n >>= fun rest =>
          pure (Formula.more operand operator rest)) fun f taken => ∃ rest skipped more, f = .more operand operator rest ∧
            taken = skipped ++ more ∧ skipped.length = 1 ∧ rest.Fits strings ∧ Rewritten rest.roles more rest.encode := by
        refine (consumes_skip 1).bind fun _ skipped length => (readFormula_consumes n).bind ?_
        rintro rest more ⟨restFits, rewritten'⟩
        exact consumes_pure ⟨rest, skipped, more, rfl, by rw [List.append_nil], length, restFits, rewritten'⟩
      obtain ⟨taken, same, position, rest, skipped, more, rfl, rfl, length, restFits, rewritten'⟩ := more c f c' run
      -- The byte that is passed over is the one that was looked at.
      obtain ⟨skippedByte, rfl⟩ := List.length_eq_one_iff.mp length
      obtain rfl : skippedByte = operator.code := by
        rw [same] at head
        exact Option.some.inj head
      exact ⟨_, same, position, ⟨fits, restFits⟩, rewritten.append (.cons rfl rewritten')⟩

theorem readComparison_consumes (n : Nat) : Consumes (readComparison strings n) fun c bytes =>
    c.Fits strings ∧ Rewritten c.roles bytes c.encode := by
  rw [readComparison]
  refine (readFormula_consumes n).bind ?_
  rintro left bytes ⟨fits, rewritten⟩
  refine consumes_position fun start => consumes_byte.bind ?_
  rintro code _ rfl
  split
  · next comparator found =>
    obtain rfl := Comparator.eq_code found
    refine (readFormula_consumes n).bind ?_
    rintro right bytes' ⟨fits', rewritten'⟩
    refine consumes_pure ⟨⟨fits, fits'⟩, ?_⟩
    rw [List.append_nil]
    exact rewritten.append (.cons rfl rewritten')
  · exact consumes_fail _

theorem readCondition_consumes : ∀ n : Nat, Consumes (readCondition strings n) fun c bytes =>
    c.Fits strings ∧ Rewritten c.roles bytes c.encode
  | 0 => by
    rw [readCondition]
    exact consumes_short 1
  | n + 1 => by
    rw [readCondition]
    refine (readComparison_consumes n).bind ?_
    rintro comparison bytes ⟨fits, rewritten⟩
    refine consumes_position fun start => consumes_byte.bind ?_
    rintro code _ rfl
    split
    · next zero =>
      subst zero
      exact consumes_pure ⟨fits, rewritten.append (.cons rfl .nil)⟩
    split
    · next conjunction found =>
      obtain rfl := Conjunction.eq_code found
      refine (readCondition_consumes n).bind ?_
      rintro rest bytes' ⟨fits', rewritten'⟩
      refine consumes_pure ⟨⟨fits, fits'⟩, ?_⟩
      rw [List.append_nil]
      exact rewritten.append (.cons rfl rewritten')
    · exact consumes_fail _

/-- What comes before a block, and the bytes that it was read from. -/
def Head.Rewritten (strings : Nat) : Head → Bytes → Prop
  | .action a, bytes => a.Fits strings ∧ Code.Rewritten a.roles bytes (a.encode id)
  | .guard g, bytes => g.Fits strings ∧ Code.Rewritten g.roles bytes g.encode

theorem encodeTarget_targetOf (w : UInt32) : encodeTarget id (targetOf w) = bytes32 w := by
  rw [targetOf]
  split
  · next zero => rw [zero, encodeTarget]
  · rfl

theorem targetOf_ne_zero (w : UInt32) : targetOf w ≠ some 0 := by
  rw [targetOf]
  split
  · rintro ⟨⟩
  · next nonzero => exact fun same => nonzero (Option.some.inj same)

/-- A jump that need not have a target. -/
theorem consumes_target {op : Opcode} (jump : Option UInt32 → Action)
    (fits : ∀ target, target ≠ some 0 → (jump target).Fits strings)
    (code : ∀ target, (jump target).encode id = op.code :: encodeTarget id target)
    (roles : ∀ target, (jump target).roles = List.replicate 5 .kept) :
    Consumes (long >>= fun w => pure (Head.action (jump (targetOf w)))) fun head more =>
      head.Rewritten strings ([op.code] ++ more) := by
  refine consumes_long.bind ?_
  rintro w _ rfl
  refine consumes_pure ⟨fits _ (targetOf_ne_zero w), ?_⟩
  rw [List.append_nil, roles, code, encodeTarget_targetOf]
  exact rewritten_kept (op.code :: bytes32 w)

/-- An assignment, after the opcode of its place. -/
theorem consumes_assignment {op : Opcode} {n : Nat} {m : Reader Place}
    (place : Consumes m fun place bytes => place.operand.Fits strings ∧
      Rewritten (place.operand.roles .packed) (op.code :: bytes) (place.operand.encode .packed)) :
    Consumes (readAssignment strings n m >>= fun a => pure (Head.action a)) fun head more =>
      head.Rewritten strings ([op.code] ++ more) := by
  have inner : Consumes (readAssignment strings n m) fun a bytes =>
      a.Fits strings ∧ Rewritten a.roles (op.code :: bytes) (a.encode id) := by
    rw [readAssignment]
    refine place.bind ?_
    rintro place bytes ⟨fits, rewritten⟩
    refine (readFormula_consumes n).bind ?_
    rintro formula bytes' ⟨fits', rewritten'⟩
    refine consumes_pure ⟨⟨fits, fits'⟩, ?_⟩
    rw [List.append_nil]
    exact rewritten.append rewritten'
  refine inner.bind ?_
  rintro a bytes ⟨fits, rewritten⟩
  refine consumes_pure ⟨fits, ?_⟩
  rw [List.append_nil]
  exact rewritten

theorem readHead_consumes (n : Nat) : Consumes (readHead strings n) (Head.Rewritten strings) := by
  rw [readHead]
  refine consumes_position fun start => consumes_byte.bind ?_
  rintro op _ rfl
  split
  · next mode found =>
    obtain rfl := Opcode.eq_code found
    refine (readCall_consumes n).bind ?_
    rintro ⟨routine, arguments⟩ bytes ⟨fits, rewritten⟩
    refine consumes_pure ⟨fits, ?_⟩
    rw [List.append_nil]
    exact .cons rfl rewritten
  · next found =>
    obtain rfl := Opcode.eq_code found
    refine (readObject_consumes n).bind ?_
    rintro object bytes ⟨objectFits, rewritten⟩
    refine consumes_mode.bind ?_
    rintro mode _ rfl
    refine (readCall_consumes n).bind ?_
    rintro ⟨routine, arguments⟩ bytes' ⟨fits, rewritten'⟩
    refine consumes_pure ⟨⟨objectFits, fits⟩, ?_⟩
    rw [List.append_nil, Action.roles, Action.encode, Operand.encode, List.append_assoc, List.append_assoc]
    exact .cons rfl (rewritten.append (.cons rfl rewritten'))
  · next found =>
    obtain rfl := Opcode.eq_code found
    refine (readCondition_consumes n).bind ?_
    rintro c bytes ⟨fits, rewritten⟩
    refine consumes_pure ⟨fits, ?_⟩
    rw [List.append_nil]
    exact .cons rfl rewritten
  · next found =>
    obtain rfl := Opcode.eq_code found
    refine consumes_byte.bind ?_
    rintro value _ rfl
    exact consumes_pure ⟨trivial, rewritten_kept [Opcode.result.code, value]⟩
  · next found =>
    obtain rfl := Opcode.eq_code found
    exact consumes_target .goto (fun _ h => h) (fun _ => rfl) fun _ => rfl
  · next found =>
    obtain rfl := Opcode.eq_code found
    exact consumes_target .stop (fun _ h => h) (fun _ => rfl) fun _ => rfl
  · next found =>
    obtain rfl := Opcode.eq_code found
    refine consumes_long.bind ?_
    rintro target _ rfl
    exact consumes_pure ⟨trivial, rewritten_kept (Opcode.gosub.code :: bytes32 target)⟩
  · next found =>
    obtain rfl := Opcode.eq_code found
    refine consumes_long.bind ?_
    rintro target _ rfl
    exact consumes_pure ⟨trivial, rewritten_kept (Opcode.pause.code :: bytes32 target)⟩
  · next found =>
    obtain rfl := Opcode.eq_code found
    refine consumes_byte.bind ?_
    rintro value _ rfl
    exact consumes_pure ⟨trivial, rewritten_kept [Opcode.anchor.code, value]⟩
  · next found =>
    obtain rfl := Opcode.eq_code found
    exact consumes_pure ⟨trivial, rewritten_kept [Opcode.leave.code]⟩
  · next found =>
    obtain rfl := Opcode.eq_code found
    exact consumes_pure ⟨trivial, rewritten_kept [Opcode.leaveInterrupt.code]⟩
  · next found =>
    obtain rfl := Opcode.eq_code found
    refine consumes_assignment (consumes_word.bind ?_)
    rintro ordinal _ rfl
    exact consumes_pure ⟨trivial, rewritten_kept (Opcode.flag.code :: bytes16 ordinal)⟩
  · next found =>
    obtain rfl := Opcode.eq_code found
    refine consumes_assignment (consumes_byte.bind ?_)
    rintro slot _ rfl
    exact consumes_pure ⟨trivial, rewritten_kept [Opcode.var.code, slot]⟩
  · next found =>
    obtain rfl := Opcode.eq_code found
    refine consumes_assignment ((readObject_consumes n).bind ?_)
    rintro object bytes ⟨fits, rewritten⟩
    refine consumes_word.bind ?_
    rintro reference _ rfl
    refine consumes_pure ⟨fits, ?_⟩
    rw [List.append_nil]
    exact .cons rfl (rewritten.append (rewritten_reference reference))
  · exact consumes_fail _

theorem readStop_consumes {c c' : Cursor} {stop : Nat} (run : Yields readStop c stop c') :
    ∃ w, c.rest = bytes32 w ++ c'.rest ∧ c'.position = c.position + 4 ∧ stop = c'.position + w.toNat := by
  obtain ⟨w, t, here, rest⟩ := yields_bind.mp run
  obtain ⟨bytes, taken, position, rfl⟩ := consumes_long c w t here
  simp only [Yields] at rest
  split at rest
  · cases rest
    exact ⟨w, taken, position, rfl⟩
  · cases rest

/-- A block of a guard, from the bytes of the guard, the length and the statements. -/
theorem rewritten_block {guard : Guard} {body : List Statement} {head inner : Bytes} {w : UInt32}
    (front : (Head.guard guard).Rewritten strings head) (fits : blockFits strings body)
    (rewritten : Rewritten (blockRoles body) inner (encodeBlock id body)) (length : inner.length = w.toNat) :
    (Statement.block guard body).Fits strings ∧
      Rewritten (Statement.block guard body).roles (head ++ bytes32 w ++ inner)
        ((Statement.block guard body).encode id) := by
  have size : (encodeBlock id body).length = w.toNat := rewritten.length_eq.trans length
  have bound := w.toNat_lt
  refine ⟨⟨front.1, fits, ?_⟩, ?_⟩
  · rw [← length_encodeBlock id, size]
    omega
  · rw [Statement.encode, size, UInt32.ofNat_toNat]
    exact (front.2.append (rewritten_kept (bytes32 w))).append rewritten

/-- Reading a block takes the bytes up to its end, and the block can be written down in them. -/
theorem readBlock_consumes : ∀ (n stop : Nat) (c : Cursor) (ss : List Statement) (c' : Cursor),
    Yields (readBlock strings n stop) c ss c' → c'.position = stop ∧
      ∃ bytes, c.rest = bytes ++ c'.rest ∧ c'.position = c.position + bytes.length ∧
        blockFits strings ss ∧ Rewritten (blockRoles ss) bytes (encodeBlock id ss)
  | 0, _, _, _, _, run => by
    rw [readBlock] at run
    cases run
  | n + 1, stop, c, ss, c', run => by
    rw [readBlock] at run
    obtain ⟨here, t, ⟨⟩, run⟩ := yields_bind.mp run
    split at run
    · obtain ⟨head, t, first, run⟩ := yields_bind.mp run
      obtain ⟨bytes, taken, position, front⟩ := readHead_consumes n c head t first
      cases head with
      | action a =>
        obtain ⟨rest, t', later, last⟩ := yields_bind.mp run
        obtain ⟨rfl, rfl⟩ := yields_pure.mp last
        obtain ⟨stopped, more, taken', position', fits, rewritten⟩ := readBlock_consumes n stop t rest c' later
        refine ⟨stopped, bytes ++ more, ?_, ?_, ⟨front.1, fits⟩, front.2.append rewritten⟩
        · rw [taken, taken', List.append_assoc]
        · rw [position', position, List.length_append, Nat.add_assoc]
      | guard guard =>
        obtain ⟨inner, t₁, length, run⟩ := yields_bind.mp run
        obtain ⟨body, t₂, block, run⟩ := yields_bind.mp run
        obtain ⟨rest, t₃, later, last⟩ := yields_bind.mp run
        obtain ⟨rfl, rfl⟩ := yields_pure.mp last
        obtain ⟨w, taken₁, position₁, rfl⟩ := readStop_consumes length
        obtain ⟨stopped₂, more₂, taken₂, position₂, fits₂, rewritten₂⟩ := readBlock_consumes n _ t₁ body t₂ block
        obtain ⟨stopped₃, more₃, taken₃, position₃, fits₃, rewritten₃⟩ := readBlock_consumes n stop t₂ rest c' later
        have size : more₂.length = w.toNat := by omega
        obtain ⟨fits, rewritten⟩ := rewritten_block front fits₂ rewritten₂ size
        refine ⟨stopped₃, (bytes ++ bytes32 w ++ more₂) ++ more₃, ?_, ?_, ⟨fits, fits₃⟩, rewritten.append rewritten₃⟩
        · rw [taken, taken₁, taken₂, taken₃]
          simp only [List.append_assoc]
        · simp only [List.length_append, length_bytes32]
          omega
    split at run
    · next last =>
      obtain ⟨rfl, rfl⟩ := yields_pure.mp run
      exact ⟨last, [], rfl, rfl, trivial, .nil⟩
    · cases run

/-- Bytes that are read as code hold it in full: the code fits, and is written down in as many bytes, which
are the same except where nothing is read. -/
theorem decode_spec {code : Bytes} {body : List Statement} (h : (decode strings code).result = .ok body) :
    blockFits strings body ∧ Rewritten (blockRoles body) code (encodeBlock id body) := by
  obtain ⟨⟨ss, c'⟩, read, last⟩ := Traced.result_bind_eq_ok.mp h
  cases last
  obtain ⟨stopped, bytes, taken, position, fits, rewritten⟩ := readBlock_consumes _ _ _ _ _ read
  have rest : c'.rest = [] := by
    have lengths := congrArg List.length taken
    rw [List.length_append] at lengths
    simp only at lengths position
    exact List.length_eq_zero_iff.mp (by omega)
  rw [rest, List.append_nil] at taken
  obtain rfl : code = bytes := taken
  exact ⟨fits, rewritten⟩

end Code

end EventScript
