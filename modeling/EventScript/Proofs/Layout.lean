import EventScript.Proofs.Windows

/-!
# The layout of units

`Stored before u v` says that `v` is the unit `u` as it is read from chunks in which the units of `before`
come first: its windows begin at the sizes of those units. Units that were put in a container are read
that way exactly if none of them starts behind its code (`units_replaceUnits`).
-/

namespace EventScript.Container

open Shared

/-- A unit as it is read from chunks in which other units come first. -/
structure Stored (before : List ScriptUnit) (u v : ScriptUnit) : Prop where
  name : v.header.name = u.header.name
  instances : v.header.instances = u.header.instances
  kind : v.header.kind = u.header.kind
  entry : v.header.entry = u.header.entry
  strings : v.strings = u.strings
  vars : v.vars = u.vars
  code : v.code = u.code
  attributes : v.attributes = fullAttributes u.attributes
  stringCount : v.header.stringCount.toNat = u.strings.length
  stringIndex : v.header.stringIndex.toNat = sumBy (fun w => w.strings.length) before
  variableCount : v.header.variableCount.toNat = u.vars.length
  variableOffset : v.header.variableOffset.toNat = 4 * sumBy (fun w => w.vars.length) before
  scriptLength : v.header.scriptLength.toNat = u.code.length
  scriptOffset : v.header.scriptOffset.toNat = sumBy (fun w => w.code.length) before
  attributeOffset : v.header.attributeOffset.toNat = attributeCount * before.length

/-- Units as they are read one after the other. -/
inductive StoredUnits : List ScriptUnit → List ScriptUnit → List ScriptUnit → Prop where
  | nil {before : List ScriptUnit} : StoredUnits before [] []
  | cons {before us vs : List ScriptUnit} {u v : ScriptUnit} (first : Stored before u v)
      (rest : StoredUnits (before ++ [u]) us vs) : StoredUnits before (u :: us) (v :: vs)

theorem StoredUnits.length_eq {before us vs : List ScriptUnit} (h : StoredUnits before us vs) :
    vs.length = us.length := by
  induction h with
  | nil => rfl
  | cons _ _ ih => rw [List.length_cons, List.length_cons, ih]

theorem StoredUnits.get {before us vs : List ScriptUnit} (h : StoredUnits before us vs) {i : Nat}
    {u v : ScriptUnit} (given : us[i]? = some u) (read : vs[i]? = some v) : Stored (before ++ us.take i) u v := by
  induction h generalizing i with
  | nil => cases given
  | cons first _ ih =>
    cases i with
    | zero =>
      cases given
      cases read
      rwa [List.take_zero, List.append_nil]
    | succ i =>
      have later := ih (i := i) given read
      rwa [List.append_assoc, List.singleton_append] at later

/-- How much of each chunk some units take. -/
structure Laid (before : List ScriptUnit) (s : Shared) : Prop where
  records : s.records.length = before.length * recordSize
  offsets : s.offsets.length = sumBy (fun w => w.strings.length) before
  vars : s.vars.length = 4 * sumBy (fun w => w.vars.length) before
  code : s.code.length = sumBy (fun w => w.code.length) before
  attributes : s.attributes.length = attributeCount * before.length

variable {before us vs : List ScriptUnit} {s s' t : Shared} {u : ScriptUnit} {c c' : Container}

theorem laid_nil : Laid [] {} := ⟨rfl, rfl, rfl, rfl, rfl⟩

theorem sumBy_snoc (f : ScriptUnit → Nat) (us : List ScriptUnit) (u : ScriptUnit) :
    sumBy f (us ++ [u]) = sumBy f us + f u :=
  sumBy_append f us [u]

theorem Laid.addUnit (laid : Laid before s) (added : s.AddsUnit u s') : Laid (before ++ [u]) s' := by
  obtain ⟨record, stored, records⟩ := added.records
  obtain ⟨offsets, more, points⟩ := added.offsets
  constructor
  · rw [records, List.length_append, laid.records, Header.length_encode stored, List.length_append,
      List.length_singleton, Nat.succ_mul]
  · rw [more, List.length_append, laid.offsets, points.length_eq, sumBy_snoc]
  · rw [added.vars, List.length_append, laid.vars, length_flatMap_bytes32, List.length_map, sumBy_snoc,
      Nat.mul_add]
  · rw [added.code, List.length_append, laid.code, sumBy_snoc]
  · rw [added.attributes, List.length_append, laid.attributes, length_fullAttributes, List.length_append,
      List.length_singleton, Nat.mul_succ]

theorem Laid.addUnits (laid : Laid before s) (pooled : s.Pooled) (run : us.foldlM Shared.addUnit s = .ok t) :
    Laid (before ++ us) t := by
  refine (foldlM_follows (P := fun before s => Laid before s ∧ s.Pooled) ?_ before ⟨laid, pooled⟩ run).1
  intro before s u s' ⟨laid, pooled⟩ first
  have added := addUnit_adds pooled first
  exact ⟨laid.addUnit added, added.pooled⟩

theorem Laid.stored (laid : Laid before s) (room : s.Room u) : Stored before u (s.stored u) where
  name := rfl
  instances := rfl
  kind := rfl
  entry := rfl
  strings := rfl
  vars := rfl
  code := rfl
  attributes := rfl
  stringCount := toNat_ofNat room.stringCount
  stringIndex := (toNat_ofNat room.stringIndex).trans laid.offsets
  variableCount := toNat_ofNat room.variableCount
  variableOffset := (toNat_ofNat room.variableOffset).trans laid.vars
  scriptLength := toNat_ofNat room.scriptLength
  scriptOffset := (toNat_ofNat room.scriptOffset).trans laid.code
  attributeOffset := (toNat_ofNat room.attributeOffset).trans laid.attributes

/-- The unit that is read next, and where its code begins. -/
theorem unitsFrom_succ {index expected count : Nat} : c.unitsFrom index expected (count + 1) = .ok vs ↔
    ∃ v rest, c.unit index = .ok v ∧ v.header.scriptOffset.toNat = expected ∧
      c.unitsFrom (index + 1) (expected + v.header.scriptLength.toNat) count = .ok rest ∧ vs = v :: rest := by
  rw [unitsFrom, bind_eq_ok]
  constructor
  · rintro ⟨v, read, h⟩
    dsimp only at h
    split at h
    · cases h
    · next same =>
      obtain ⟨rest, others, last⟩ := bind_eq_ok.mp h
      cases last
      exact ⟨v, rest, read, Decidable.not_not.mp same, others, rfl⟩
  · rintro ⟨v, rest, read, same, others, rfl⟩
    refine ⟨v, read, ?_⟩
    dsimp only
    rw [if_neg (not_not_intro same)]
    exact bind_eq_ok.mpr ⟨rest, others, rfl⟩

/-- The units behind those of `before` are read one after the other, each in its own windows. -/
theorem unitsFrom_eq_ok (holds : c.Holds t) : ∀ {us before : List ScriptUnit} {s : Shared}, s.Pooled →
    Laid before s → us.foldlM Shared.addUnit s = .ok t →
      (∀ vs, c.unitsFrom before.length s.code.length us.length = .ok vs →
        (∀ u ∈ us, u.header.entry.toNat ≤ u.code.length) ∧ StoredUnits before us vs) ∧
      ((∀ u ∈ us, u.header.entry.toNat ≤ u.code.length) →
        ∃ vs, c.unitsFrom before.length s.code.length us.length = .ok vs) := by
  intro us
  induction us with
  | nil =>
    intro before s _ _ _
    refine ⟨fun vs ok => ?_, fun _ => ⟨[], rfl⟩⟩
    cases ok
    exact ⟨by simp, .nil⟩
  | cons u us ih =>
    intro before s pooled laid run
    rw [List.foldlM_cons] at run
    obtain ⟨m, first, rest⟩ := bind_eq_ok.mp run
    have added := addUnit_adds pooled first
    have later := before_addUnits added.pooled rest
    have read : ∀ {v}, c.unit before.length = .ok v ↔ _ := unit_eq_ok added holds later laid.records
    have stored := laid.stored added.room
    have next := laid.addUnit added
    -- the code of the next unit begins where that of this one ends
    have index : (before ++ [u]).length = before.length + 1 := by simp
    have place : m.code.length = s.code.length + (s.stored u).header.scriptLength.toNat := by
      rw [added.code, List.length_append, stored.scriptLength]
    have start : (s.stored u).header.scriptOffset.toNat = s.code.length := by
      rw [stored.scriptOffset, laid.code]
    rw [List.length_cons]
    constructor
    · intro vs ok
      obtain ⟨v, vs, one, -, others, rfl⟩ := unitsFrom_succ.mp ok
      obtain ⟨inside, rfl⟩ := read.mp one
      rw [← index, ← place] at others
      obtain ⟨all, units⟩ := (ih added.pooled next rest).1 vs others
      exact ⟨List.forall_mem_cons.mpr ⟨inside, all⟩, .cons stored units⟩
    · intro all
      obtain ⟨inside, all⟩ := List.forall_mem_cons.mp all
      obtain ⟨vs, others⟩ := (ih added.pooled next rest).2 all
      rw [index, place] at others
      exact ⟨_, unitsFrom_succ.mpr ⟨_, vs, read.mpr ⟨inside, rfl⟩, start, others, rfl⟩⟩

/-! ### Containers -/

theorem replaceUnits_eq_ok : c.replaceUnits us = .ok c' ↔
    ∃ t, us.foldlM Shared.addUnit {} = .ok t ∧ c' = c.setChunks t.chunks := by
  rw [replaceUnits, bind_eq_ok]
  constructor
  · rintro ⟨t, run, last⟩
    cases last
    exact ⟨t, run, rfl⟩
  · rintro ⟨t, run, rfl⟩
    exact ⟨t, run, rfl⟩

theorem tags_chunks (t : Shared) : t.chunks.map Chunk.tag =
    [.units, .code, .pool, .offsets, .vars, .attributes, .storage] := rfl

theorem chunk?_replaced (c : Container) (t : Shared) {k : Chunk} (mem : k ∈ t.chunks) :
    (c.setChunks t.chunks).chunk? k.tag = some k.data :=
  chunk?_setChunks (by rw [tags_chunks]; decide) mem

theorem holds_replaced (c : Container) (t : Shared) : (c.setChunks t.chunks).Holds t := by
  have found : ∀ k ∈ t.chunks, (c.setChunks t.chunks).chunk k.tag = k.data := fun k mem => by
    rw [chunk, chunk?_replaced c t mem]
    rfl
  simp only [Shared.chunks, List.forall_mem_cons] at found
  obtain ⟨units, code, pool, offsets, vars, attributes, -⟩ := found
  exact ⟨units, code, pool, offsets, vars, attributes⟩

theorem Proper.replaceUnits (proper : c.Proper) (replaced : c.replaceUnits us = .ok c') : c'.Proper := by
  obtain ⟨t, -, rfl⟩ := replaceUnits_eq_ok.mp replaced
  refine proper.setChunks fun k mem => ?_
  have tag := List.mem_map_of_mem (f := Chunk.tag) mem
  rw [tags_chunks] at tag
  rintro closes
  rw [closes] at tag
  revert tag
  decide

theorem pooled_nil : Pooled {} := by
  intro entry mem
  cases mem

/-- As many units are read as were put there. -/
theorem units_eq (replaced : us.foldlM Shared.addUnit {} = .ok t) (holds : c.Holds t) :
    c.units = c.unitsFrom 0 0 us.length := by
  have size : (c.chunk .units).length = us.length * recordSize := by
    rw [holds.units, (laid_nil.addUnits pooled_nil replaced).records, List.nil_append]
  have count : c.unitCount = .ok us.length := by
    rw [unitCount]
    simp only [size, Nat.mul_mod_left, if_true]
    rw [Nat.mul_div_cancel _ (by decide)]
  rw [units, count, ok_bind]

/-- The units of a container after they were replaced, if they can be read. -/
theorem storedUnits_replaceUnits (replaced : c.replaceUnits us = .ok c') (read : c'.units = .ok vs) :
    (∀ u ∈ us, u.header.entry.toNat ≤ u.code.length) ∧ StoredUnits [] us vs := by
  obtain ⟨t, run, rfl⟩ := replaceUnits_eq_ok.mp replaced
  have holds := holds_replaced c t
  rw [units_eq run holds] at read
  exact (unitsFrom_eq_ok holds pooled_nil laid_nil run).1 vs read

/-- They can be read if none starts behind its code. -/
theorem exists_units_replaceUnits (replaced : c.replaceUnits us = .ok c')
    (inside : ∀ u ∈ us, u.header.entry.toNat ≤ u.code.length) : ∃ vs, c'.units = .ok vs := by
  obtain ⟨t, run, rfl⟩ := replaceUnits_eq_ok.mp replaced
  have holds := holds_replaced c t
  rw [units_eq run holds]
  exact (unitsFrom_eq_ok holds pooled_nil laid_nil run).2 inside

theorem fullAttributes_of_length {attributes : Bytes} (short : attributes.length ≤ attributeCount) :
    fullAttributes attributes = attributes ++ List.replicate (attributeCount - attributes.length) 0 := by
  rw [fullAttributes, List.take_of_length_le short]

/-- Units that were put in a container are read again exactly if none of them starts behind its code, and
then they are the same, with attributes filled up with zeros and windows that follow one another. -/
theorem units_replaceUnits (replaced : c.replaceUnits us = .ok c')
    (short : ∀ u ∈ us, u.attributes.length ≤ attributeCount) :
    ((∃ vs, c'.units = .ok vs) ↔ ∀ u ∈ us, u.header.entry.toNat ≤ u.code.length) ∧
      ∀ vs, c'.units = .ok vs → vs.length = us.length ∧
        ∀ i u v, us[i]? = some u → vs[i]? = some v → Stored (us.take i) u v ∧
          v.attributes = u.attributes ++ List.replicate (attributeCount - u.attributes.length) 0 := by
  refine ⟨⟨?_, exists_units_replaceUnits replaced⟩, fun vs read => ?_⟩
  · rintro ⟨vs, read⟩
    exact (storedUnits_replaceUnits replaced read).1
  · have stored := (storedUnits_replaceUnits replaced read).2
    refine ⟨stored.length_eq, fun i u v given found => ?_⟩
    have unit := stored.get given found
    refine ⟨unit, ?_⟩
    rw [unit.attributes, fullAttributes_of_length (short u (List.mem_of_getElem? given))]

/-- A container with a chunk of its own, and with two for the records of units. -/
def crowded : Container :=
  ⟨[⟨.units, [1, 2]⟩, ⟨⟨0x4D, 0x45, 0x54, 0x41⟩, [7]⟩, ⟨.units, [3]⟩], [9]⟩

/-- Two units that share strings, the second of which starts at the end of its code. -/
def neighbours : List ScriptUnit :=
  [{ header := { name := "Gate", instances := 2, entry := 1, kind := 3, stringIndex := 40 }
     strings := ["x", "é"]
     vars := [1, 0, -3]
     code := [0x0D, 0x0D]
     attributes := [7] },
   { header := { name := "Bo", entry := 1, scriptLength := 12 }
     strings := ["é", "", "x"]
     vars := []
     code := [0x0E]
     attributes := [] }]

theorem units_replaceUnits_neighbours : ∃ c' vs, crowded.replaceUnits neighbours = .ok c' ∧ c'.units = .ok vs ∧
    vs.length = 2 ∧ ∀ i u v, neighbours[i]? = some u → vs[i]? = some v → Stored (neighbours.take i) u v ∧
      v.attributes = u.attributes ++ List.replicate (attributeCount - u.attributes.length) 0 := by
  obtain ⟨c', replaced⟩ : ∃ c', crowded.replaceUnits neighbours = .ok c' :=
    exists_eq_ok_of_toOption (by decide +kernel)
  obtain ⟨readable, equal⟩ := units_replaceUnits replaced (by decide)
  obtain ⟨vs, read⟩ := readable.mpr (by decide)
  exact ⟨c', vs, replaced, read, equal vs read⟩

end EventScript.Container
