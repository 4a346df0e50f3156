import EventScript.Container.Units
import EventScript.Proofs.Chunks
import EventScript.Proofs.Records
import Mathlib.Data.List.Forall2

/-!
# Units in their windows

Units that were laid out by `replaceUnits` are read again through the windows in their records. `AddsUnit`
says what one more unit does to the shared data: it puts its own part after what is there. So the data in
front stays where it is (`Before`), and a unit is found at the sizes of the units in front of it, which
`Laid` counts. The pool is the exception: there, a string may be far in front of the unit that uses it,
and `Points` follows it.
-/

namespace EventScript

theorem length_flatMap_bytes32 (ws : List UInt32) : (ws.flatMap bytes32).length = 4 * ws.length := by
  induction ws with
  | nil => rfl
  | cons w ws ih =>
    rw [List.flatMap_cons, List.length_append, ih, length_bytes32, List.length_cons]
    omega

namespace Container

/-! ### Windows and strings -/

/-- The part of a chunk that comes after some data is a window. -/
theorem window_of_front {chunk front part : Bytes} (h : front ++ part <+: chunk) (what unit : String) :
    window chunk front.length part.length what unit = .ok part := by
  obtain ⟨rest, rfl⟩ := h
  rw [window, if_pos (by simp), List.append_assoc, List.drop_left, List.take_left]

/-- The pool has a text at an offset, and a zero after it. -/
def Points (pool : Bytes) (offset : Nat) (text : String) : Prop :=
  '\x00' ∉ text.toList ∧ ∃ front rest, pool = front ++ (Utf8.encode text ++ 0 :: rest) ∧ front.length = offset

theorem Points.mono {pool pool' : Bytes} {offset : Nat} {text : String} (points : Points pool offset text)
    (h : pool <+: pool') : Points pool' offset text := by
  obtain ⟨free, front, rest, rfl, length⟩ := points
  obtain ⟨more, rfl⟩ := h
  exact ⟨free, front, rest ++ more, by simp, length⟩

theorem poolString_of_points {pool : Bytes} {offset : Nat} {text : String} (points : Points pool offset text)
    (unit : String) : poolString pool unit offset = .ok text := by
  obtain ⟨free, front, rest, rfl, rfl⟩ := points
  have text_ : ∀ b ∈ Utf8.encode text, (b != 0) = true := by
    intro b mem
    simpa using fun zero : b = 0 => free (Utf8.zero_mem_encode.mp (zero ▸ mem))
  have stop : (Utf8.encode text ++ 0 :: rest).takeWhile (fun b => b != 0) = Utf8.encode text := by
    rw [List.takeWhile_append_of_pos text_, List.takeWhile_cons_of_neg (by simp), List.append_nil]
  have closed : (Utf8.encode text ++ 0 :: rest).contains 0 = true := by simp
  rw [poolString, if_pos (by simp)]
  simp only [List.drop_left, closed, if_true, stop, Utf8.decodeLossy_encode]

theorem poolStrings_of_points {pool : Bytes} {offsets : List UInt32} {texts : List String}
    (points : List.Forall₂ (fun offset text => Points pool offset.toNat text) offsets texts) (unit : String) :
    poolStrings pool unit offsets = .ok texts := by
  induction points with
  | nil => rfl
  | cons first _ ih =>
    rw [poolStrings, poolString_of_points first, ih]
    rfl

namespace Shared

variable {s s' s'' t : Shared} {u : ScriptUnit}

theorem wordFor_eq_ok {what : String} {n : Nat} {w : UInt32} :
    wordFor what n = .ok w ↔ n ≤ 4294967295 ∧ w = UInt32.ofNat n := by
  rw [wordFor]
  split
  · next small => exact ⟨fun ok => ⟨small, (Except.ok.inj ok).symm⟩, fun h => congrArg Except.ok h.2.symm⟩
  · next large =>
    constructor
    · intro ok
      cases ok
    · exact fun h => absurd h.1 large

theorem toNat_ofNat {n : Nat} (small : n ≤ 4294967295) : (UInt32.ofNat n).toNat = n := by
  rw [UInt32.toNat_ofNat', Nat.mod_eq_of_lt (by omega)]

/-! ### Adding strings -/

/-- The strings of the pool are where the table of their offsets says. -/
def Pooled (s : Shared) : Prop := ∀ entry ∈ s.poolOffsets, Points s.pool entry.2.toNat entry.1

/-- What happens when texts are added: the pool may grow, and there is one more offset for each text. -/
structure AddsStrings (s : Shared) (texts : List String) (s' : Shared) : Prop where
  pool : s.pool <+: s'.pool
  offsets : ∃ added, s'.offsets = s.offsets ++ added ∧
    List.Forall₂ (fun offset text => Points s'.pool offset.toNat text) added texts
  pooled : s'.Pooled

theorem AddsStrings.refl (pooled : s.Pooled) : AddsStrings s [] s :=
  ⟨List.prefix_rfl, ⟨[], (List.append_nil _).symm, .nil⟩, pooled⟩

theorem AddsStrings.trans {texts texts' : List String} (h : AddsStrings s texts s')
    (h' : AddsStrings s' texts' s'') : AddsStrings s (texts ++ texts') s'' := by
  obtain ⟨added, offsets, points⟩ := h.offsets
  obtain ⟨added', offsets', points'⟩ := h'.offsets
  refine ⟨h.pool.trans h'.pool, ⟨added ++ added', ?_, ?_⟩, h'.pooled⟩
  · rw [offsets', offsets, List.append_assoc]
  · exact List.rel_append (points.imp fun _ _ p => p.mono h'.pool) points'

theorem addString_adds {unit text : String} (pooled : s.Pooled) (h : addString unit s text = .ok s') :
    AddsStrings s [text] s' := by
  rw [addString] at h
  split at h
  · cases h
  · next zero =>
    have free : '\x00' ∉ text.toList := by simpa using zero
    split at h
    · next offset found =>
      cases h
      obtain ⟨front, back, entries, -⟩ := List.lookup_eq_some_iff.mp found
      have points : Points s.pool offset.toNat text :=
        pooled (text, offset) (entries ▸ List.mem_append_right _ (List.mem_cons_self ..))
      exact ⟨List.prefix_rfl, ⟨[offset], rfl, .cons points .nil⟩, pooled⟩
    · obtain ⟨offset, word, h⟩ := bind_eq_ok.mp h
      cases h
      obtain ⟨small, rfl⟩ := wordFor_eq_ok.mp word
      have grows : s.pool <+: s.pool ++ Utf8.encode text ++ [0] := by
        rw [List.append_assoc]
        exact List.prefix_append ..
      have points : Points (s.pool ++ Utf8.encode text ++ [0]) (UInt32.ofNat s.pool.length).toNat text :=
        ⟨free, s.pool, [], List.append_assoc .., (toNat_ofNat small).symm⟩
      refine ⟨grows, ⟨[_], rfl, .cons points .nil⟩, ?_⟩
      intro entry mem
      rcases List.mem_append.mp mem with old | new
      · exact (pooled entry old).mono grows
      · cases List.mem_singleton.mp new
        exact points

theorem addStrings_adds {unit : String} {texts : List String} (pooled : s.Pooled)
    (h : texts.foldlM (addString unit) s = .ok s') : AddsStrings s texts s' := by
  refine foldlM_follows (P := AddsStrings s) ?_ [] (.refl pooled) h
  intro before m text m' adds step
  exact adds.trans (addString_adds adds.pooled step)

/-- Strings change the pool and the offsets and nothing else. -/
theorem addString_frame {unit text : String} (h : addString unit s text = .ok s') :
    s' = { s with pool := s'.pool, poolOffsets := s'.poolOffsets, offsets := s'.offsets } := by
  rw [addString] at h
  split at h
  · cases h
  · split at h
    · cases h
      rfl
    · obtain ⟨offset, -, h⟩ := bind_eq_ok.mp h
      cases h
      rfl

theorem addStrings_frame {unit : String} {texts : List String} (h : texts.foldlM (addString unit) s = .ok s') :
    s' = { s with pool := s'.pool, poolOffsets := s'.poolOffsets, offsets := s'.offsets } := by
  refine foldlM_keeps (P := fun m : Shared => m = { s with
    pool := m.pool, poolOffsets := m.poolOffsets, offsets := m.offsets }) (fun m text m' same step => ?_) rfl h
  have frame := addString_frame step
  rw [same] at frame
  exact frame

/-! ### Adding units -/

/-- The header of a unit with the windows it gets after what is there. -/
def place (s : Shared) (u : ScriptUnit) : Header := { u.header with
  stringIndex := UInt32.ofNat s.offsets.length
  stringCount := UInt32.ofNat u.strings.length
  variableOffset := UInt32.ofNat s.vars.length
  variableCount := UInt32.ofNat u.vars.length
  scriptOffset := UInt32.ofNat s.code.length
  scriptLength := UInt32.ofNat u.code.length
  attributeOffset := UInt32.ofNat s.attributes.length }

/-- The numbers of the windows are words. -/
structure Room (s : Shared) (u : ScriptUnit) : Prop where
  stringIndex : s.offsets.length ≤ 4294967295
  stringCount : u.strings.length ≤ 4294967295
  variableOffset : s.vars.length ≤ 4294967295
  variableCount : u.vars.length ≤ 4294967295
  scriptOffset : s.code.length ≤ 4294967295
  scriptLength : u.code.length ≤ 4294967295
  attributeOffset : s.attributes.length ≤ 4294967295

/-- What happens when a unit is added. -/
structure AddsUnit (s : Shared) (u : ScriptUnit) (s' : Shared) : Prop where
  room : Room s u
  records : ∃ record, (s.place u).encode = .ok record ∧ s'.records = s.records ++ record
  code : s'.code = s.code ++ u.code
  pool : s.pool <+: s'.pool
  offsets : ∃ added, s'.offsets = s.offsets ++ added ∧
    List.Forall₂ (fun offset text => Points s'.pool offset.toNat text) added u.strings
  vars : s'.vars = s.vars ++ (u.vars.map Int32.toUInt32).flatMap bytes32
  attributes : s'.attributes = s.attributes ++ fullAttributes u.attributes
  pooled : s'.Pooled

/-- The data after a unit was added, its strings being in `m` already. -/
def behindStrings (s m : Shared) (u : ScriptUnit) (record : Bytes) : Shared := { m with
  records := s.records ++ record
  code := s.code ++ u.code
  vars := s.vars ++ (u.vars.map Int32.toUInt32).flatMap bytes32
  attributes := s.attributes ++ fullAttributes u.attributes
  slots := s.slots + u.header.instances.toNat * u.vars.length }

/-- A unit is added if there is room for its windows, its strings are added, and its header has a record. -/
theorem addUnit_eq_ok : s.addUnit u = .ok s' ↔ Room s u ∧ ∃ m record,
    u.strings.foldlM (addString u.header.name) s = .ok m ∧ (s.place u).encode = .ok record ∧
      s' = s.behindStrings m u record := by
  constructor
  · intro h
    obtain ⟨stringIndex, h₁, h⟩ := bind_eq_ok.mp h
    obtain ⟨stringCount, h₂, h⟩ := bind_eq_ok.mp h
    obtain ⟨m, strings, h⟩ := bind_eq_ok.mp h
    obtain ⟨variableOffset, h₃, h⟩ := bind_eq_ok.mp h
    obtain ⟨variableCount, h₄, h⟩ := bind_eq_ok.mp h
    obtain ⟨scriptOffset, h₅, h⟩ := bind_eq_ok.mp h
    obtain ⟨scriptLength, h₆, h⟩ := bind_eq_ok.mp h
    obtain ⟨attributeOffset, h₇, h⟩ := bind_eq_ok.mp h
    obtain ⟨record, stored, last⟩ := bind_eq_ok.mp h
    cases last
    have frame := addStrings_frame strings
    rw [frame] at h₃ h₅ h₇
    obtain ⟨room₁, rfl⟩ := wordFor_eq_ok.mp h₁
    obtain ⟨room₂, rfl⟩ := wordFor_eq_ok.mp h₂
    obtain ⟨room₃, rfl⟩ := wordFor_eq_ok.mp h₃
    obtain ⟨room₄, rfl⟩ := wordFor_eq_ok.mp h₄
    obtain ⟨room₅, rfl⟩ := wordFor_eq_ok.mp h₅
    obtain ⟨room₆, rfl⟩ := wordFor_eq_ok.mp h₆
    obtain ⟨room₇, rfl⟩ := wordFor_eq_ok.mp h₇
    refine ⟨⟨room₁, room₂, room₃, room₄, room₅, room₆, room₇⟩, m, record, strings, stored, ?_⟩
    rw [behindStrings, List.flatMap_map, frame]
  · rintro ⟨room, m, record, strings, stored, rfl⟩
    have frame := addStrings_frame strings
    rw [addUnit, wordFor_eq_ok.mpr ⟨room.stringIndex, rfl⟩, wordFor_eq_ok.mpr ⟨room.stringCount, rfl⟩, strings]
    simp only [ok_bind]
    rw [frame, behindStrings, List.flatMap_map]
    simp only [wordFor_eq_ok.mpr ⟨room.variableOffset, rfl⟩, wordFor_eq_ok.mpr ⟨room.variableCount, rfl⟩,
      wordFor_eq_ok.mpr ⟨room.scriptOffset, rfl⟩, wordFor_eq_ok.mpr ⟨room.scriptLength, rfl⟩,
      wordFor_eq_ok.mpr ⟨room.attributeOffset, rfl⟩, ok_bind]
    exact bind_eq_ok.mpr ⟨record, stored, rfl⟩

theorem addUnit_adds (pooled : s.Pooled) (h : s.addUnit u = .ok s') : AddsUnit s u s' := by
  obtain ⟨room, m, record, strings, stored, rfl⟩ := addUnit_eq_ok.mp h
  have added := addStrings_adds pooled strings
  exact {
    room
    records := ⟨record, stored, rfl⟩
    code := rfl
    pool := added.pool
    offsets := added.offsets
    vars := rfl
    attributes := rfl
    pooled := added.pooled }

/-- Everything in `s` comes first in `t`. -/
structure Before (s t : Shared) : Prop where
  records : s.records <+: t.records
  code : s.code <+: t.code
  pool : s.pool <+: t.pool
  offsets : s.offsets <+: t.offsets
  vars : s.vars <+: t.vars
  attributes : s.attributes <+: t.attributes

theorem Before.refl (s : Shared) : Before s s :=
  ⟨List.prefix_rfl, List.prefix_rfl, List.prefix_rfl, List.prefix_rfl, List.prefix_rfl, List.prefix_rfl⟩

theorem Before.trans (h : Before s s') (h' : Before s' t) : Before s t :=
  ⟨h.records.trans h'.records, h.code.trans h'.code, h.pool.trans h'.pool, h.offsets.trans h'.offsets,
    h.vars.trans h'.vars, h.attributes.trans h'.attributes⟩

theorem AddsUnit.before (h : AddsUnit s u s') : Before s s' := by
  obtain ⟨record, -, records⟩ := h.records
  obtain ⟨added, offsets, -⟩ := h.offsets
  exact ⟨⟨_, records.symm⟩, ⟨_, h.code.symm⟩, h.pool, ⟨_, offsets.symm⟩, ⟨_, h.vars.symm⟩, ⟨_, h.attributes.symm⟩⟩

theorem before_addUnits {us : List ScriptUnit} (pooled : s.Pooled) (h : us.foldlM addUnit s = .ok t) :
    Before s t := by
  refine (foldlM_keeps (P := fun t => Before s t ∧ t.Pooled) ?_ ⟨.refl s, pooled⟩ h).1
  intro m u m' ⟨before, pooled⟩ step
  have added := addUnit_adds pooled step
  exact ⟨before.trans added.before, added.pooled⟩

end Shared

/-! ### Reading one unit -/

/-- The chunks hold the shared data. -/
structure Holds (c : Container) (s : Shared) : Prop where
  units : c.chunk .units = s.records
  code : c.chunk .code = s.code
  pool : c.chunk .pool = s.pool
  offsets : c.chunk .offsets = s.offsets.flatMap bytes32
  vars : c.chunk .vars = s.vars
  attributes : c.chunk .attributes = s.attributes

variable {c c' : Container} {s s' t : Shared} {u v : ScriptUnit}

/-- A unit as it is read after it was added. -/
def Shared.stored (s : Shared) (u : ScriptUnit) : ScriptUnit :=
  ⟨s.place u, u.strings, u.vars, u.code, fullAttributes u.attributes⟩

theorem Shared.length_fullAttributes (attributes : Bytes) : (fullAttributes attributes).length = attributeCount := by
  rw [fullAttributes, List.length_append, List.length_take, List.length_replicate]
  omega

namespace Shared.AddsUnit

variable (h : AddsUnit s u s') (holds : c.Holds t) (before : s'.Before t)
include h holds before

/-- The record of a unit is at its place. -/
theorem record_window (unit : String) : ∃ record,
    window (c.chunk .units) s.records.length recordSize "header" unit = .ok record ∧
      Header.decode record = .ok (s.place u) := by
  obtain ⟨record, stored, records⟩ := h.records
  refine ⟨record, ?_, Header.decode_encode stored⟩
  rw [← Header.length_encode stored, holds.units]
  exact window_of_front (records ▸ before.records) ..

/-- The offsets of a unit's strings lead to them. -/
theorem offsets_window (unit : String) : ∃ offsets,
    window (c.chunk .offsets) ((s.place u).stringIndex.toNat * 4) ((s.place u).stringCount.toNat * 4)
      "string table" unit = .ok offsets ∧ poolStrings (c.chunk .pool) unit (words32 offsets) = .ok u.strings := by
  obtain ⟨added, offsets, points⟩ := h.offsets
  refine ⟨added.flatMap bytes32, ?_, ?_⟩
  · have front : (s.place u).stringIndex.toNat * 4 = (s.offsets.flatMap bytes32).length := by
      rw [length_flatMap_bytes32, place, toNat_ofNat h.room.stringIndex, Nat.mul_comm]
    have size : (s.place u).stringCount.toNat * 4 = (added.flatMap bytes32).length := by
      rw [length_flatMap_bytes32, place, toNat_ofNat h.room.stringCount, points.length_eq, Nat.mul_comm]
    rw [front, size, holds.offsets]
    refine window_of_front ?_ ..
    obtain ⟨rest, equal⟩ := before.offsets
    rw [← List.flatMap_append, ← offsets, ← equal, List.flatMap_append]
    exact List.prefix_append ..
  · rw [words32_flatMap_bytes32, holds.pool]
    exact poolStrings_of_points (points.imp fun _ _ p => p.mono before.pool) unit

theorem vars_window (unit : String) : ∃ vars,
    window (c.chunk .vars) (s.place u).variableOffset.toNat ((s.place u).variableCount.toNat * 4)
      "variable table" unit = .ok vars ∧ (words32 vars).map UInt32.toInt32 = u.vars := by
  refine ⟨(u.vars.map Int32.toUInt32).flatMap bytes32, ?_, ?_⟩
  · have size : (s.place u).variableCount.toNat * 4 = ((u.vars.map Int32.toUInt32).flatMap bytes32).length := by
      rw [length_flatMap_bytes32, place, toNat_ofNat h.room.variableCount, List.length_map, Nat.mul_comm]
    rw [size, holds.vars, place, toNat_ofNat h.room.variableOffset]
    exact window_of_front (h.vars ▸ before.vars) ..
  · rw [words32_flatMap_bytes32, List.map_map]
    exact (List.map_congr_left fun v _ => Int32.toInt32_toUInt32 v).trans (List.map_id _)

theorem code_window (unit : String) :
    window (c.chunk .code) (s.place u).scriptOffset.toNat (s.place u).scriptLength.toNat "bytecode" unit =
      .ok u.code := by
  rw [place, toNat_ofNat h.room.scriptOffset, toNat_ofNat h.room.scriptLength, holds.code]
  exact window_of_front (h.code ▸ before.code) ..

theorem attributes_window (unit : String) :
    window (c.chunk .attributes) (s.place u).attributeOffset.toNat attributeCount "attribute" unit =
      .ok (fullAttributes u.attributes) := by
  rw [place, toNat_ofNat h.room.attributeOffset, ← length_fullAttributes u.attributes, holds.attributes]
  exact window_of_front (h.attributes ▸ before.attributes) ..

end Shared.AddsUnit

/-- A unit that was added is read as it is, unless it starts behind its code. -/
theorem unit_eq_ok (added : s.AddsUnit u s') (holds : c.Holds t) (before : s'.Before t) {index : Nat}
    (place : s.records.length = index * recordSize) :
    c.unit index = .ok v ↔ u.header.entry.toNat ≤ u.code.length ∧ v = s.stored u := by
  obtain ⟨record, w₁, decoded⟩ := added.record_window holds before ("#" ++ Text.decimal index)
  obtain ⟨offsets, w₂, strings⟩ := added.offsets_window holds before (s.place u).name
  obtain ⟨vars, w₃, values⟩ := added.vars_window holds before (s.place u).name
  have w₄ := added.code_window holds before (s.place u).name
  have w₅ := added.attributes_window holds before (s.place u).name
  have past : (s.place u).scriptLength < (s.place u).entry ↔ u.code.length < u.header.entry.toNat := by
    rw [UInt32.lt_iff_toNat_lt]
    simp only [Shared.place, Shared.toNat_ofNat added.room.scriptLength]
  rw [unit, ← place]
  simp only [w₁, decoded, w₂, strings, w₃, w₄, w₅, values, past, ok_bind]
  by_cases late : u.code.length < u.header.entry.toNat
  · rw [if_pos late]
    constructor
    · intro ok
      cases ok
    · exact fun h => absurd h.1 (Nat.not_le_of_lt late)
  · rw [if_neg late]
    constructor
    · intro ok
      cases ok
      exact ⟨Nat.le_of_not_lt late, rfl⟩
    · rintro ⟨-, rfl⟩
      rfl

end Container

end EventScript
