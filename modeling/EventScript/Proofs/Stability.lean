import EventScript.Proofs.Rewording
import EventScript.Proofs.RoundTrip

/-!
# Listings of listings

The listing of a text can always be assembled, and the result can be listed again. The second listing is
the first one exactly if every operand of the code is `Steady` (`second_listing_eq_iff`). This is so if the
text calls every routine by the name that listings show, or by a number if it has none; a routine with a
name that is called by its number may take a number where listings show a name or a dialogue label.
-/

namespace EventScript

namespace Code

open Assembly

variable {names : Names}

theorem Action.fits_normal (sound : names.catalog.Sound) (clean : names.catalog.Clean) {a : Action}
    (h : a.Fits names.strings.length) (textual : a.Textual)
    (short : ∀ part ∈ a.parts names, names.Short part) : (a.normal names).Fits names.strings.length := by
  -- Reading the line of the statement gives code that bytes can hold.
  have made : Piece.Resolved names (fun _ => True) names.strings.length (.statement (.action (a.normal names))) :=
    (readPiece_spec (fun _ _ => trivial) (Action.yields_normal sound clean h textual short)).2
  cases a with
  | call mode routine arguments => exact made.fits
  | objectCall object mode routine arguments => exact made.fits
  | assign place formula => exact made.fits
  | goto target => exact h
  | stop target => exact h
  | _ => trivial

theorem Guard.fits_normal (sound : names.catalog.Sound) (clean : names.catalog.Clean) {g : Guard}
    (h : g.Fits names.strings.length) (textual : g.Textual)
    (short : ∀ part ∈ g.parts names, names.Short part) : (g.normal names).Fits names.strings.length := by
  have made : Piece.Resolved names (fun _ => True) names.strings.length (.guard (g.normal names)) :=
    (readPiece_spec (fun _ _ => trivial) (Guard.yields_normal sound clean h textual short)).2
  exact made.fits

/-- Bytes can hold the normal form. -/
theorem blockFits_normal (sound : names.catalog.Sound) (clean : names.catalog.Clean) :
    ∀ ss : List Statement, Restorable names ss → blockFits names.strings.length (normalBlock names ss)
  | [], _ => trivial
  | .action _ :: ss, h =>
    ⟨Action.fits_normal sound clean h.fits.1 h.textual.1 (List.forall_mem_append.mp h.short).1,
      blockFits_normal sound clean ss h.tail⟩
  | .block guard body :: ss, h => by
    have parts := List.forall_mem_append.mp (List.forall_mem_append.mp h.short).1
    refine ⟨⟨Guard.fits_normal sound clean h.fits.1.1 h.textual.1.1 parts.1,
      blockFits_normal sound clean body h.body, ?_⟩, blockFits_normal sound clean ss h.tail⟩
    rw [blockSize_normal]
    exact h.fits.1.2.2
  | .mark _ :: _, h => h.fits.1.elim

theorem append_eq_append_iff_of_length {α : Type} {as bs as' bs' : List α} (h : as.length = as'.length) :
    as ++ bs = as' ++ bs' ↔ as = as' ∧ bs = bs' :=
  ⟨fun equal => List.append_inj equal h, fun both => by rw [both.1, both.2]⟩

theorem Instruction.length_lines (i : Instruction) : i.lines.length = (if i.isLabel then 1 else 0) + 1 := by
  rw [Instruction.lines, List.length_append]
  split <;> rfl

theorem isEmpty_normalBlock (ss : List Statement) : (normalBlock names ss).isEmpty = ss.isEmpty := by
  cases ss <;> rfl

mutual

/-- The lines of a block are as many as those of its normal form, and are the same exactly if its operands
are steady. -/
theorem Statement.lines_normal (labels : List UInt32) : ∀ (s : Statement), Restorable names [s] →
    ∀ indent address : Nat,
      ((s.normal names).lines names labels indent address).length = (s.lines names labels indent address).length ∧
      ((s.normal names).lines names labels indent address = s.lines names labels indent address ↔
        ∀ part ∈ s.parts names, names.Steady part)
  | .action a, h, indent, address => by
    refine ⟨?_, a.line_eq_iff h.fits.1 h.textual.1 (List.forall_mem_append.mp h.short).1 labels indent address⟩
    rw [Statement.normal, Statement.lines, Statement.lines, Instruction.length_lines, Instruction.length_lines]
    rfl
  | .block guard body, h, indent, address => by
    have parts := List.forall_mem_append.mp (List.forall_mem_append.mp h.short).1
    have front := guard.line_eq_iff h.fits.1.1 h.textual.1.1 parts.1 labels indent address
    obtain ⟨length, inner⟩ := blockLines_normal labels body h.body (indent + 1) (address + guard.size)
    have first : ((guard.normal names).instruction names labels indent address).lines.length =
        (guard.instruction names labels indent address).lines.length := by
      rw [Instruction.length_lines, Instruction.length_lines]
      rfl
    simp only [Statement.normal, Statement.lines, Statement.parts, Guard.size_normal, isEmpty_normalBlock]
    constructor
    · rw [List.length_append, List.length_append, first]
      split
      · rfl
      · simp only [List.length_append, length]
    · rw [append_eq_append_iff_of_length first, front, List.forall_mem_append, ← inner]
      split
      · next empty =>
        rw [List.isEmpty_iff.mp empty]
        exact Iff.rfl
      · rw [append_eq_append_iff_of_length (by rw [List.length_append, List.length_append, length]),
          List.append_right_inj]
        simp
  | .mark _, h, _, _ => h.fits.1.elim

theorem blockLines_normal (labels : List UInt32) : ∀ (ss : List Statement), Restorable names ss →
    ∀ indent address : Nat,
      (blockLines names labels indent address (normalBlock names ss)).length =
        (blockLines names labels indent address ss).length ∧
      (blockLines names labels indent address (normalBlock names ss) = blockLines names labels indent address ss ↔
        ∀ part ∈ blockParts names ss, names.Steady part)
  | [], _, _, _ => by
    refine ⟨rfl, fun _ => ?_, fun _ => rfl⟩
    rintro part ⟨⟩
  | s :: ss, h, indent, address => by
    have head : Restorable names [s] := by
      refine ⟨⟨h.fits.1, trivial⟩, ⟨h.textual.1, trivial⟩, ?_⟩
      rw [blockParts, blockParts, List.append_nil]
      exact (List.forall_mem_append.mp h.short).1
    obtain ⟨length, here⟩ := s.lines_normal labels head indent address
    obtain ⟨lengths, later⟩ := blockLines_normal labels ss h.tail indent (address + s.size)
    rw [normalBlock, blockLines, blockLines, Statement.size_normal, blockParts]
    constructor
    · rw [List.length_append, List.length_append, length, lengths]
    · rw [append_eq_append_iff_of_length length, here, later, List.forall_mem_append]

end

/-- What assembly settled is steady. -/
theorem Settled.steady {part : Option ArgumentKind × Operand} (h : Settled part) : names.Steady part := by
  obtain ⟨kind, o⟩ := part
  cases o with
  | literal value =>
    obtain rfl : kind = none := h
    exact ⟨rfl, trivial⟩
  | string index => exact ⟨trivial, fun dialogue => absurd dialogue h⟩
  | _ => exact ⟨trivial, trivial⟩

end Code

open Assembly

variable {catalog : Catalog}

/-- Every operand of the unit's code is steady. -/
def ScriptUnit.Steady (catalog : Catalog) (u : ScriptUnit) : Prop :=
  ∀ part ∈ Code.blockParts (u.names catalog) (u.body catalog), (u.names catalog).Steady part

/-- The statements of a restored unit are the normal forms of those that were listed. -/
theorem statements_restored (sound : catalog.Sound) (clean : catalog.Clean) {u : ScriptUnit}
    {body : List Code.Statement} (h : u.Restorable catalog body) (offset : Nat) :
    ((u.restored catalog body offset).statements catalog).result =
      .ok (Code.normalBlock (u.names catalog) body) := by
  obtain ⟨-, labels⟩ := statements_eq_ok.mp h.statements
  have fits := Code.blockFits_normal sound clean body h.block
  have length : (Code.encodeBlock id (Code.normalBlock (u.names catalog) body)).length = u.code.length := by
    rw [Code.length_encodeBlock, Code.blockSize_normal, h.size]
  refine statements_eq_ok.mpr ⟨Code.decode_encodeBlock fits, fun l mem => ?_⟩
  rw [Code.blockStarts_normal, ScriptUnit.restored, length]
  refine labels l ?_
  rwa [ScriptUnit.labels, Code.blockTargets_normal] at mem

/-- The listing of a restored unit is as long as the first one, and is the same exactly if the unit is
steady. -/
theorem listing_restored (sound : catalog.Sound) (clean : catalog.Clean) {u : ScriptUnit}
    (h : u.Restorable catalog (u.body catalog)) (offset : Nat) {lines : List String}
    (listed : (u.listing catalog).result = .ok lines) :
    ∃ lines', ((u.restored catalog (u.body catalog) offset).listing catalog).result = .ok lines' ∧
      lines'.length = lines.length ∧ (lines' = lines ↔ u.Steady catalog) := by
  obtain ⟨body, statements, rfl⟩ := listing_eq_ok.mp listed
  obtain rfl : u.body catalog = body := body_of_statements statements
  refine ⟨_, listing_eq_ok.mpr ⟨_, statements_restored sound clean h offset, rfl⟩, ?_⟩
  have length : (Code.encodeBlock id (Code.normalBlock (u.names catalog) (u.body catalog))).length =
      u.code.length := by
    rw [Code.length_encodeBlock, Code.blockSize_normal, h.size]
  have labels : (u.restored catalog (u.body catalog) offset).labels
      (Code.normalBlock (u.names catalog) (u.body catalog)) = u.labels (u.body catalog) := by
    rw [ScriptUnit.labels, Code.blockTargets_normal]
    rfl
  have last : (u.restored catalog (u.body catalog) offset).endLabel?
      (Code.normalBlock (u.names catalog) (u.body catalog)) = u.endLabel? (u.body catalog) := by
    rw [ScriptUnit.endLabel?, labels, Code.blockStarts_normal, ScriptUnit.restored, length]
    rfl
  have preamble : (u.restored catalog (u.body catalog) offset).preamble catalog = u.preamble catalog := rfl
  have names : (u.restored catalog (u.body catalog) offset).names catalog = u.names catalog := rfl
  obtain ⟨size, same⟩ := Code.blockLines_normal (u.labels (u.body catalog)) (u.body catalog) h.block 1 0
  rw [labels, last, preamble, names]
  constructor
  · simp only [List.length_append, size]
  · rw [List.append_left_inj, List.append_left_inj, List.append_right_inj, same, ScriptUnit.Steady]

/-- The listings of restored units are the first ones exactly if the units are steady. -/
theorem listings_restored (sound : catalog.Sound) (clean : catalog.Clean) : ∀ {us : List ScriptUnit},
    (∀ u ∈ us, u.Restorable catalog (u.body catalog)) → ∀ (offset : Nat) {text : List String},
    (ScriptUnit.listings catalog us).result = .ok text →
    ∃ text', (ScriptUnit.listings catalog (restoredUnits catalog offset us)).result = .ok text' ∧
      text'.length = text.length ∧ (text' = text ↔ ∀ u ∈ us, u.Steady catalog)
  | [], _, _, _, listed => by
    cases listed
    exact ⟨[], rfl, rfl, by simp⟩
  | [u], h, offset, text, listed => by
    obtain ⟨text', again, length, same⟩ :=
      listing_restored sound clean (h u (List.mem_singleton_self u)) offset listed
    exact ⟨text', again, length, by rw [same, List.forall_mem_singleton]⟩
  | u :: v :: us, h, offset, text, listed => by
    obtain ⟨first, here, rest⟩ := Traced.result_bind_eq_ok.mp listed
    obtain ⟨others, there, whole⟩ := Traced.result_bind_eq_ok.mp rest
    cases whole
    obtain ⟨hu, hs⟩ := List.forall_mem_cons.mp h
    obtain ⟨first', here', length, same⟩ := listing_restored sound clean hu offset here
    obtain ⟨others', there', lengths, sames⟩ := listings_restored sound clean hs (offset + u.code.length) there
    refine ⟨first' ++ "" :: others', ?_, ?_, ?_⟩
    · exact Traced.result_bind_eq_ok.mpr ⟨first', here', Traced.result_bind_eq_ok.mpr ⟨others', there', rfl⟩⟩
    · simp only [List.length_append, List.length_cons, length, lengths]
    · rw [Code.append_eq_append_iff_of_length length, List.cons_inj_right, same, sames,
        List.forall_mem_cons (a := u)]

/-- The listing of a text assembles, and is listed in the same way again exactly if the code is steady; this
is so if no routine with a name is called by its number. -/
theorem second_listing_eq_iff {sources : Catalog.Sources}
    (accepted : (Catalog.ofSources sources).result = .ok catalog) (clean : catalog.Clean) {map : String}
    {lines : List String} {us : List ScriptUnit} (assembled : (assemble catalog map lines).result = .ok us)
    (small : ∀ u ∈ us, u.code.length ≤ 65535) (few : ∀ u ∈ us, u.strings.length ≤ 2147483648)
    {text : List String} (listed : (ScriptUnit.listings catalog us).result = .ok text) :
    ∃ us' text', (∀ map', (assemble catalog map' text).result = .ok us') ∧
      (ScriptUnit.listings catalog us').result = .ok text' ∧
      (text' = text ↔ ∀ u ∈ us, u.Steady catalog) ∧
      ((∀ name ∈ Source.calledNames catalog lines, ¬ catalog.Aliases name) → text' = text) := by
  have sound := Catalog.sound_ofSources accepted
  obtain ⟨compiled, -, room⟩ := assemble_compiled (P := fun _ => True) assembled fun _ _ => trivial
  have statements := statements_of_listings listed
  have restorable : ∀ u ∈ us, u.Restorable catalog (u.body catalog) := by
    intro u hu
    obtain ⟨body, h⟩ := compiled u hu
    have same := h.eq_locatedBody (small u hu) (statements u hu)
    rw [same]
    exact h.restorable (small u hu) (same ▸ statements u hu)
      fun part _ => Code.Names.short_of_length (few u hu) part
  obtain ⟨text', again, -, same⟩ := listings_restored sound clean restorable 0 listed
  refine ⟨_, text', assemble_listings sound clean restorable listed (room small), again, same, fun called => ?_⟩
  obtain ⟨settled, -⟩ := assemble_compiled (P := catalog.KeepsKinds) assembled
    fun name mem => sound.keepsKinds (called name mem)
  refine same.mpr fun u hu part mem => ?_
  obtain ⟨body, h⟩ := settled u hu
  rw [h.eq_locatedBody (small u hu) (statements u hu)] at mem
  exact (h.settled (fun _ keeps => keeps) part mem).steady

/-- A script that calls a routine with a name by its number. -/
def signText : List String := ["unit \"Sign\"", "strings = \"hi\"", Text.leftBrace, "routine2(0)", Text.rightBrace]

/-- A unit whose code is one call of the routine 2, with a number that is stored after an opcode. -/
def signUnit (opcode : UInt8) : ScriptUnit where
  header := { name := "Sign", instances := 1, scriptLength := 9 }
  strings := ["hi"]
  vars := []
  code := [0, 0, 2, 1, opcode, 0, 0, 0, 0]
  attributes := List.replicate 256 0

/-- A listing of such a unit, with a statement. -/
def signListing (statement : String) : List String :=
  ["unit \"Sign\"", "instances = 1", "entry = 0", "strings = \"hi\"", "variables(0)", Text.leftBrace, statement,
    Text.rightBrace]

theorem assemble_signText : (assemble .village "field" signText).result = .ok [signUnit 7] :=
  eq_ok_of_toOption (by decide +kernel)

theorem listings_signUnit :
    (ScriptUnit.listings .village [signUnit 7]).result = .ok (signListing "    Message(0)") :=
  eq_ok_of_toOption (by decide +kernel)

theorem listings_signUnit_again :
    (ScriptUnit.listings .village [signUnit 8]).result = .ok (signListing "    Message(\"hi\") // Hello!") :=
  eq_ok_of_toOption (by decide +kernel)

theorem assemble_signListing :
    (assemble .village "field" (signListing "    Message(0)")).result = .ok [signUnit 8] :=
  eq_ok_of_toOption (by decide +kernel)

/-- The text of the listing changes, although it is a listing of what a text assembles to. -/
theorem second_listing_signText : ∃ us' text',
    (∀ map', (assemble .village map' (signListing "    Message(0)")).result = .ok us') ∧
      (ScriptUnit.listings .village us').result = .ok text' ∧ text' ≠ signListing "    Message(0)" := by
  obtain ⟨us', text', assembled, listed, -⟩ := second_listing_eq_iff Catalog.village_accepted
    Catalog.village_clean assemble_signText (by decide) (by decide) listings_signUnit
  have units : us' = [signUnit 8] := Except.ok.inj ((assembled "field").symm.trans assemble_signListing)
  refine ⟨us', text', assembled, listed, ?_⟩
  rintro rfl
  rw [units, listings_signUnit_again] at listed
  exact absurd (Except.ok.inj listed) (by decide)

end EventScript
