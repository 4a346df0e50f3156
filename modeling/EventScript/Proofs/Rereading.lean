import EventScript.Proofs.Layout
import EventScript.Proofs.Located

/-!
# Reading what was assembled

The units of a text that were put in a container and written are read again from the bytes, if none of them
starts behind its code (`decode_assembled`). Assembly itself sees to everything else that reading asks for.
It takes an address given as entry as it is, so that a text with too large a number is written to a map that
cannot be read.
-/

namespace EventScript

open Container

/-- Units that differ at most in the windows for strings, variables and attributes. -/
structure ScriptUnit.Agrees (u v : ScriptUnit) : Prop where
  name : v.header.name = u.header.name
  instances : v.header.instances = u.header.instances
  kind : v.header.kind = u.header.kind
  entry : v.header.entry = u.header.entry
  scriptLength : v.header.scriptLength = u.header.scriptLength
  scriptOffset : v.header.scriptOffset = u.header.scriptOffset
  strings : v.strings = u.strings
  vars : v.vars = u.vars
  code : v.code = u.code
  attributes : v.attributes = u.attributes

namespace Assembly

variable {catalog : Catalog} {map : String} {lines : List String} {us vs before : List ScriptUnit}
  {c c' : Container} {bytes : Bytes}

/-- What assembly says about sizes is what a layout makes of them. -/
theorem StoredUnits.agrees {P : String → Prop} (stored : StoredUnits before us vs)
    (compiled : ∀ u ∈ us, ∃ body, Compiled catalog P body u)
    (chained : Chained (sumBy (fun w => w.code.length) before) us) : List.Forall₂ ScriptUnit.Agrees us vs := by
  induction stored with
  | nil => exact .nil
  | @cons before us vs u v first _ ih =>
    obtain ⟨⟨body, h⟩, compiled⟩ := List.forall_mem_cons.mp compiled
    obtain ⟨place, chained⟩ := chained
    have length : v.header.scriptLength = u.header.scriptLength := by
      rw [h.header, ← first.scriptLength, UInt32.ofNat_toNat]
    refine .cons ?_ (ih compiled ?_)
    · exact {
        name := first.name
        instances := first.instances
        kind := first.kind
        entry := first.entry
        scriptLength := length
        scriptOffset := by rw [place, ← first.scriptOffset, UInt32.ofNat_toNat]
        strings := first.strings
        vars := first.vars
        code := first.code
        attributes := by
          rw [first.attributes, fullAttributes_of_length (Nat.le_of_eq h.attributes), h.attributes, Nat.sub_self]
          exact List.append_nil _ }
    · rwa [sumBy_snoc, ← first.scriptLength, length]

/-- The units of a text are read again from the bytes of a container exactly if none starts behind its
code, and then agree with those of the text. -/
theorem decode_assembled (assembled : (assemble catalog map lines).result = .ok us)
    (replaced : c.replaceUnits us = .ok c') (encoded : c'.encode = .ok bytes) :
    ∃ d, Container.decode bytes = .ok d ∧ (c.Proper →
      ((∃ vs, d.units = .ok vs) ↔ ∀ u ∈ us, u.header.entry.toNat ≤ u.code.length) ∧
        ∀ vs, d.units = .ok vs → List.Forall₂ ScriptUnit.Agrees us vs) := by
  obtain ⟨d, decoded⟩ := exists_decode_encode encoded
  refine ⟨d, decoded, fun proper => ?_⟩
  obtain rfl : d = c' := by
    rw [decode_encode (proper.replaceUnits replaced) encoded] at decoded
    exact (Except.ok.inj decoded).symm
  obtain ⟨compiled, chained, -⟩ := assemble_compiled (P := fun _ => True) assembled fun _ _ => trivial
  refine ⟨⟨?_, exists_units_replaceUnits replaced⟩, fun vs read => ?_⟩
  · rintro ⟨vs, read⟩
    exact (storedUnits_replaceUnits replaced read).1
  · exact StoredUnits.agrees (storedUnits_replaceUnits replaced read).2 compiled chained

/-- Two units, the first of which starts at a label. -/
def keeperText : List String :=
  ["unit \"Keeper\"", "entry = #1", "strings = \"hi\"", "variables(2) = 0, -5", "Solid = 1", Text.leftBrace,
    "Message(\"hi\")", "#1:", "return", Text.rightBrace, "", "unit \"Sign\"", "entry = 1", Text.leftBrace, "return", Text.rightBrace]

/-- The units of the text. -/
def keeperUnits : List ScriptUnit :=
  [{ header := { name := "Keeper", instances := 1, scriptLength := 10, entry := 9 }
     strings := ["hi"]
     vars := [0, -5]
     code := [0, 0, 2, 1, 8, 0, 0, 0, 0, 13]
     attributes := 1 :: List.replicate 255 0 },
   { header := { name := "Sign", instances := 1, scriptLength := 1, scriptOffset := 10, entry := 1 }
     strings := []
     vars := []
     code := [13]
     attributes := List.replicate 256 0 }]

/-- A unit that starts at an address behind its code. -/
def lateText : List String := ["unit \"Keeper\"", "entry = 9", Text.leftBrace, "return", Text.rightBrace]

/-- The unit of the text. -/
def lateUnits : List ScriptUnit :=
  [{ header := { name := "Keeper", instances := 1, scriptLength := 1, entry := 9 }
     strings := []
     vars := []
     code := [13]
     attributes := List.replicate 256 0 }]

theorem assemble_keeperText : (assemble .village "field" keeperText).result = .ok keeperUnits :=
  eq_ok_of_toOption (by decide +kernel)

theorem assemble_lateText : (assemble .village "field" lateText).result = .ok lateUnits :=
  eq_ok_of_toOption (by decide +kernel)

/-- The first text is written to a map that can be read, and the second to one that cannot. -/
theorem decode_keeper_and_late :
    (∃ c' bytes d vs, crowded.replaceUnits keeperUnits = .ok c' ∧ c'.encode = .ok bytes ∧
      Container.decode bytes = .ok d ∧ d.units = .ok vs ∧ List.Forall₂ ScriptUnit.Agrees keeperUnits vs) ∧
    (∃ c' bytes d, crowded.replaceUnits lateUnits = .ok c' ∧ c'.encode = .ok bytes ∧
      Container.decode bytes = .ok d ∧ ¬ ∃ vs, d.units = .ok vs) := by
  constructor
  · obtain ⟨bytes, written⟩ : ∃ bytes, crowded.replaceUnits keeperUnits >>= Container.encode = .ok bytes :=
      exists_eq_ok_of_toOption (by decide +kernel)
    obtain ⟨c', replaced, encoded⟩ := bind_eq_ok.mp written
    obtain ⟨d, decoded, h⟩ := decode_assembled assemble_keeperText replaced encoded
    obtain ⟨readable, agrees⟩ := h (by decide)
    obtain ⟨vs, read⟩ := readable.mpr (by decide)
    exact ⟨c', bytes, d, vs, replaced, encoded, decoded, read, agrees vs read⟩
  · obtain ⟨bytes, written⟩ : ∃ bytes, crowded.replaceUnits lateUnits >>= Container.encode = .ok bytes :=
      exists_eq_ok_of_toOption (by decide +kernel)
    obtain ⟨c', replaced, encoded⟩ := bind_eq_ok.mp written
    obtain ⟨d, decoded, h⟩ := decode_assembled assemble_lateText replaced encoded
    refine ⟨c', bytes, d, replaced, encoded, decoded, fun readable => ?_⟩
    have inside := (h (by decide)).1.mp readable
    revert inside
    decide

end Assembly

end EventScript
