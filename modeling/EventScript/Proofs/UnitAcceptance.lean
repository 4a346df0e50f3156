import EventScript.Proofs.Layout
import Mathlib.Data.List.TakeWhile

/-!
# Containers whose units can be read

The numbers in the records of units come from a file and can say anything. `Careful` reading goes through the same
steps as `units`, but takes every part of the data by its place and breaks off when it looks outside. It never does, and
ends like `units` (`Careful.units_eq`): each place was compared with the length of the data before. Units are read
exactly if their windows lie inside the chunks, their strings end, and their code follows without gaps (`Inside` and
`units_accepted_iff`).
-/

namespace EventScript.Container

/-! ### Windows -/

theorem window_eq_ok {chunk part : Bytes} {start size : Nat} {what unit : String} :
    window chunk start size what unit = .ok part ↔
      start + size ≤ chunk.length ∧ part = (chunk.drop start).take size := by
  rw [window]
  split
  · next within => exact ⟨fun ok => ⟨within, (Except.ok.inj ok).symm⟩, fun h => congrArg Except.ok h.2.symm⟩
  · next beyond =>
    constructor
    · intro ok
      cases ok
    · exact fun h => absurd h.1 beyond

theorem length_window {chunk part : Bytes} {start size : Nat} {what unit : String}
    (found : window chunk start size what unit = .ok part) : part.length = size := by
  obtain ⟨within, rfl⟩ := window_eq_ok.mp found
  rw [List.length_take, List.length_drop]
  omega

/-! ### Reading with a look at every place -/

/-- Reading that breaks off, with `none`, at a look outside the data. -/
abbrev Careful (α : Type) := ExceptT Fault Option α

namespace Careful

variable {α β : Type}

/-- Reading that has looked inside the data only. -/
def inside (x : Except Fault α) : Careful α := ExceptT.mk (some x)

/-- A look outside the data. -/
def outside : Careful α := ExceptT.mk none

/-- The bytes between two places. -/
def cut (bs : Bytes) (start stop : Nat) : Careful Bytes :=
  if start ≤ stop ∧ stop ≤ bs.length then return (bs.drop start).take (stop - start) else outside

/-- The byte at a place. -/
def byte (bs : Bytes) (i : Nat) : Careful UInt8 := ExceptT.mk (bs[i]?.map Except.ok)

/-- The word at a place. -/
def word (bs : Bytes) (i : Nat) : Careful UInt32 :=
  return word32 (← byte bs i) (← byte bs (i + 1)) (← byte bs (i + 2)) (← byte bs (i + 3))

/-- The words in pieces of four bytes, where a last piece of fewer bytes is looked at like the others. -/
def words (bs : Bytes) : Careful (List UInt32) := if bs.length % 4 = 0 then return words32 bs else outside

/-- A part of a chunk that a unit uses for `what`. -/
def window (chunk : Bytes) (start size : Nat) (what unit : String) : Careful Bytes :=
  if start + size ≤ chunk.length then cut chunk start (start + size)
  else throw (.bounds (.window unit what start (min (start + size) Text.maxWord64) chunk.length))

/-- The string of a pool that begins at an offset and ends before a zero. -/
def poolString (pool : Bytes) (unit : String) (offset : Nat) : Careful String :=
  if offset ≤ pool.length then do
    let tail ← cut pool offset pool.length
    if 0 ∈ tail then return Utf8.decodeLossy (← cut tail 0 (tail.idxOf 0))
    else throw (.bounds (.openString unit offset))
  else throw (.bounds (.stringOffset unit offset pool.length))

/-- The header that a record holds. -/
def header (record : Bytes) : Careful Header :=
  if record.length = recordSize then do
    let field ← cut record 0 nameSize
    return {
      name := Utf8.decodeLossy (← cut field 0 (field.idxOf 0))
      instances := ← word record 128
      stringCount := ← word record 132
      stringIndex := ← word record 136
      variableCount := ← word record 140
      variableOffset := ← word record 144
      scriptLength := ← word record 148
      scriptOffset := ← word record 152
      entry := ← word record 156
      attributeOffset := ← word record 160
      kind := ← byte record 164 }
  else throw (.bounds (.recordLength record.length))

/-- The unit with an index. -/
def unit (c : Container) (index : Nat) : Careful ScriptUnit := do
  let record ← window (c.chunk .units) (index * recordSize) recordSize "header" ("#" ++ Text.decimal index)
  let h ← header record
  let table ← window (c.chunk .offsets) (h.stringIndex.toNat * 4) (h.stringCount.toNat * 4) "string table" h.name
  let strings ← (← words table).mapM fun offset => poolString (c.chunk .pool) h.name offset.toNat
  let vars ← window (c.chunk .vars) h.variableOffset.toNat (h.variableCount.toNat * 4) "variable table" h.name
  let values ← words vars
  let code ← window (c.chunk .code) h.scriptOffset.toNat h.scriptLength.toNat "bytecode" h.name
  if h.scriptLength < h.entry then
    throw (.bounds (.entryPast h.name h.entry.toNat h.scriptLength.toNat))
  let attributes ← window (c.chunk .attributes) h.attributeOffset.toNat attributeCount "attribute" h.name
  return ⟨h, strings, values.map UInt32.toInt32, code, attributes⟩

/-- Reads `count` units from an index on, whose code begins at `expected`. -/
def unitsFrom (c : Container) (index expected : Nat) : (count : Nat) → Careful (List ScriptUnit)
  | 0 => return []
  | count + 1 => do
    let u ← unit c index
    if u.header.scriptOffset.toNat ≠ expected then
      throw (.bounds (.gap index u.header.name u.header.scriptOffset.toNat expected))
    return u :: (← unitsFrom c (index + 1) (expected + u.header.scriptLength.toNat) count)

/-- The units of a container. -/
def units (c : Container) : Careful (List ScriptUnit) := do
  let count ← inside c.unitCount
  unitsFrom c 0 0 count

/-- Reading goes on inside the data if it does so after each value. -/
theorem inside_bind {x : Except Fault α} {f : α → Careful β} {g : α → Except Fault β}
    (rest : ∀ a, x = .ok a → f a = inside (g a)) : inside x >>= f = inside (x >>= g) := by
  cases x with
  | error e => rfl
  | ok a => exact rest a rfl

theorem inside_ok_bind (a : α) (f : α → Careful β) : inside (.ok a) >>= f = f a := rfl

theorem cut_eq {bs : Bytes} {start stop : Nat} (ordered : start ≤ stop) (within : stop ≤ bs.length) :
    cut bs start stop = inside (.ok ((bs.drop start).take (stop - start))) :=
  if_pos ⟨ordered, within⟩

theorem words_eq {bs : Bytes} {n : Nat} (size : bs.length = n * 4) : words bs = inside (.ok (words32 bs)) :=
  if_pos (by rw [size, Nat.mul_mod_left])

theorem window_eq (chunk : Bytes) (start size : Nat) (what unit : String) :
    window chunk start size what unit = inside (Container.window chunk start size what unit) := by
  rw [window, Container.window]
  split
  · next within => rw [cut_eq (Nat.le_add_right _ _) within, Nat.add_sub_cancel_left]
  · rfl

theorem take_idxOf_zero (bs : Bytes) : bs.take (bs.idxOf 0) = bs.takeWhile fun b => b != 0 := by
  induction bs with
  | nil => rfl
  | cons b bs ih =>
    by_cases zero : b = 0
    · simp [zero]
    · simp [zero, List.idxOf_cons_ne, ih]

theorem poolString_eq (pool : Bytes) (unit : String) (offset : Nat) :
    poolString pool unit offset = inside (Container.poolString pool unit offset) := by
  rw [poolString, Container.poolString]
  split
  · next within =>
    have tail : (pool.drop offset).take (pool.length - offset) = pool.drop offset :=
      List.take_of_length_le (by rw [List.length_drop])
    rw [cut_eq within (Nat.le_refl _), tail, inside_ok_bind]
    simp only [List.contains_iff_mem]
    split
    · rw [cut_eq (Nat.zero_le _) List.idxOf_le_length, List.drop_zero, Nat.sub_zero, take_idxOf_zero]
      rfl
    · rfl
  · rfl

theorem poolStrings_eq (pool : Bytes) (unit : String) (offsets : List UInt32) :
    (offsets.mapM fun offset => poolString pool unit offset.toNat) = inside (poolStrings pool unit offsets) := by
  induction offsets with
  | nil => rfl
  | cons offset offsets ih =>
    rw [List.mapM_cons, poolString_eq, poolStrings, ih]
    exact inside_bind fun first _ => inside_bind fun rest _ => rfl

/-- The word between other bytes. -/
theorem word_eq (front rest : Bytes) (w : UInt32) :
    word (front ++ (bytes32 w ++ rest)) front.length = inside (.ok w) := by
  have bytes : ∀ i < 4, (front ++ (bytes32 w ++ rest))[front.length + i]? = (bytes32 w)[i]? := by
    intro i small
    rw [List.getElem?_append_right (Nat.le_add_right _ _), Nat.add_sub_cancel_left, List.getElem?_append_left small]
  have first := bytes 0 (by omega)
  rw [Nat.add_zero] at first
  rw [word, byte, byte, byte, byte, first, bytes 1 (by omega), bytes 2 (by omega), bytes 3 (by omega)]
  show inside (.ok (word32 _ _ _ _)) = _
  rw [word32_bytes]

theorem word_record {h : Header} {front : Bytes} (size : front.length = nameSize) {i : Nat} {w : UInt32}
    (field : h.words[i]? = some w) :
    word (front ++ h.words.flatMap bytes32 ++ [h.kind]) (nameSize + 4 * i) = inside (.ok w) := by
  have split : h.words = h.words.take i ++ w :: h.words.drop (i + 1) := by
    obtain ⟨small, rfl⟩ := List.getElem?_eq_some_iff.mp field
    rw [← List.drop_eq_getElem_cons small, List.take_append_drop]
  have place : nameSize + 4 * i = (front ++ (h.words.take i).flatMap bytes32).length := by
    have small := (List.getElem?_eq_some_iff.mp field).1
    rw [List.length_append, size, length_flatMap_bytes32, List.length_take, Nat.min_eq_left small.le]
  have parts : front ++ h.words.flatMap bytes32 ++ [h.kind] = front ++ (h.words.take i).flatMap bytes32 ++
      (bytes32 w ++ ((h.words.drop (i + 1)).flatMap bytes32 ++ [h.kind])) := by
    conv_lhs => rw [split]
    simp only [List.flatMap_append, List.flatMap_cons, List.append_assoc]
  rw [parts, place, word_eq]

theorem header_eq (record : Bytes) : header record = inside (Header.decode record) := by
  by_cases size : record.length = recordSize
  · obtain ⟨h, front, length, rfl⟩ := Header.exists_parts size
    have name : cut (front ++ h.words.flatMap bytes32 ++ [h.kind]) 0 nameSize = inside (.ok front) := by
      rw [cut_eq (Nat.zero_le _) (by rw [size]; decide), List.drop_zero, Nat.sub_zero, ← length, List.append_assoc,
        List.take_left]
    have text : cut front 0 (front.idxOf 0) = inside (.ok (front.takeWhile fun b => b != 0)) := by
      rw [cut_eq (Nat.zero_le _) List.idxOf_le_length, List.drop_zero, Nat.sub_zero, take_idxOf_zero]
    have kind : byte (front ++ h.words.flatMap bytes32 ++ [h.kind]) 164 = inside (.ok h.kind) := by
      have last : 164 = (front ++ h.words.flatMap bytes32).length := by
        rw [List.length_append, length, Header.length_words]
        rfl
      rw [byte, last, List.getElem?_concat_length]
      rfl
    have field {i : Nat} {w : UInt32} (at_ : h.words[i]? = some w) := word_record length at_
    rw [header, if_pos size, Header.decode_parts h length, name, inside_ok_bind, text, inside_ok_bind, kind]
    rw [show word _ 128 = _ from field (i := 0) rfl, show word _ 132 = _ from field (i := 1) rfl,
      show word _ 136 = _ from field (i := 2) rfl, show word _ 140 = _ from field (i := 3) rfl,
      show word _ 144 = _ from field (i := 4) rfl, show word _ 148 = _ from field (i := 5) rfl,
      show word _ 152 = _ from field (i := 6) rfl, show word _ 156 = _ from field (i := 7) rfl,
      show word _ 160 = _ from field (i := 8) rfl]
    rfl
  · rw [header, if_neg size, Header.decode, if_neg size]
    rfl

theorem unit_eq (c : Container) (index : Nat) : unit c index = inside (c.unit index) := by
  rw [unit, Container.unit, window_eq]
  refine inside_bind fun record _ => ?_
  rw [header_eq]
  refine inside_bind fun h _ => ?_
  rw [window_eq]
  refine inside_bind fun table found => ?_
  rw [words_eq (length_window found), inside_ok_bind, poolStrings_eq]
  refine inside_bind fun strings _ => ?_
  rw [window_eq]
  refine inside_bind fun vars found => ?_
  rw [words_eq (length_window found), inside_ok_bind, window_eq]
  refine inside_bind fun code _ => ?_
  split
  · rfl
  · rw [window_eq]
    exact inside_bind fun attributes _ => rfl

theorem unitsFrom_eq (c : Container) (index expected count : Nat) :
    unitsFrom c index expected count = inside (c.unitsFrom index expected count) := by
  induction count generalizing index expected with
  | zero => rfl
  | succ count ih =>
    rw [unitsFrom, Container.unitsFrom, unit_eq]
    refine inside_bind fun u _ => ?_
    dsimp only
    split
    · rfl
    · rw [ih]
      exact inside_bind fun rest _ => rfl

/-- Reading units never looks outside the data. -/
theorem units_eq (c : Container) : units c = inside c.units :=
  inside_bind fun count _ => unitsFrom_eq c 0 0 count

end Careful

/-! ### Records -/

variable {c : Container} {h : Header} {u : ScriptUnit} {us : List ScriptUnit} {hs : List Header}
  {index expected i : Nat}

/-- The bytes of the record with an index. -/
def record (c : Container) (index : Nat) : Bytes := ((c.chunk .units).drop (index * recordSize)).take recordSize

/-- The headers in the records of a container. -/
def headers (c : Container) : List Header :=
  (List.range ((c.chunk .units).length / recordSize)).filterMap fun index => (Header.decode (c.record index)).toOption

/-- The record with an index is all there, and holds a header. -/
structure HeaderAt (c : Container) (index : Nat) (h : Header) : Prop where
  within : index * recordSize + recordSize ≤ (c.chunk .units).length
  decoded : Header.decode (c.record index) = .ok h

theorem exists_headerAt (small : index < (c.chunk .units).length / recordSize) : ∃ h, c.HeaderAt index h := by
  have within : index * recordSize + recordSize ≤ (c.chunk .units).length := by
    rw [← Nat.succ_mul]
    exact Nat.le_trans (Nat.mul_le_mul_right _ small) (Nat.div_mul_le_self ..)
  have size : (c.record index).length = recordSize := by
    rw [record, List.length_take, List.length_drop]
    omega
  obtain ⟨h, front, length, parts⟩ := Header.exists_parts size
  exact ⟨_, within, by rw [parts, Header.decode_parts h length]⟩

/-- Every record holds a header. -/
theorem headers_eq (c : Container) : c.headers = (List.range ((c.chunk .units).length / recordSize)).map fun index =>
    (Header.decode (c.record index)).toOption.getD {} := by
  rw [headers, ← List.filterMap_eq_map]
  refine List.filterMap_congr fun index mem => ?_
  obtain ⟨h, -, decoded⟩ := exists_headerAt (List.mem_range.mp mem)
  rw [Function.comp, decoded]
  rfl

theorem length_headers (c : Container) : c.headers.length = (c.chunk .units).length / recordSize := by
  rw [headers_eq, List.length_map, List.length_range]

theorem headerAt_of_headers (found : c.headers[i]? = some h) : c.HeaderAt i h := by
  rw [headers_eq, List.getElem?_map, Option.map_eq_some_iff] at found
  obtain ⟨index, listed, same⟩ := found
  obtain ⟨small, rfl⟩ := List.getElem?_eq_some_iff.mp listed
  rw [List.length_range] at small
  obtain ⟨h', within, decoded⟩ := exists_headerAt small
  rw [List.getElem_range, decoded] at same
  cases same
  exact ⟨within, decoded⟩

/-! ### Units inside the chunks -/

/-- The words in the part of the table of offsets that a header points at. -/
def stringOffsets (c : Container) (h : Header) : List UInt32 :=
  words32 (((c.chunk .offsets).drop (h.stringIndex.toNat * 4)).take (h.stringCount.toNat * 4))

/-- The windows of a header lie inside the chunks, its strings end inside the pool, and its script starts inside its
code or at the end of it. -/
structure Inside (c : Container) (h : Header) : Prop where
  offsets : h.stringIndex.toNat * 4 + h.stringCount.toNat * 4 ≤ (c.chunk .offsets).length
  strings : ∀ offset ∈ c.stringOffsets h,
    offset.toNat ≤ (c.chunk .pool).length ∧ 0 ∈ (c.chunk .pool).drop offset.toNat
  vars : h.variableOffset.toNat + h.variableCount.toNat * 4 ≤ (c.chunk .vars).length
  code : h.scriptOffset.toNat + h.scriptLength.toNat ≤ (c.chunk .code).length
  entry : h.entry.toNat ≤ h.scriptLength.toNat
  attributes : h.attributeOffset.toNat + attributeCount ≤ (c.chunk .attributes).length

theorem exists_poolString {pool : Bytes} {unit : String} {offset : Nat} :
    (∃ text, poolString pool unit offset = .ok text) ↔ offset ≤ pool.length ∧ 0 ∈ pool.drop offset := by
  rw [poolString]
  by_cases within : offset ≤ pool.length
  · by_cases closed : 0 ∈ pool.drop offset
    · simp [within, closed]
    · simp [within, closed]
  · simp [within]

theorem exists_poolStrings {pool : Bytes} {unit : String} {offsets : List UInt32} :
    (∃ texts, poolStrings pool unit offsets = .ok texts) ↔
      ∀ offset ∈ offsets, offset.toNat ≤ pool.length ∧ 0 ∈ pool.drop offset.toNat := by
  induction offsets with
  | nil => exact ⟨fun _ => by simp, fun _ => ⟨[], rfl⟩⟩
  | cons offset offsets ih =>
    rw [List.forall_mem_cons, ← ih, ← @exists_poolString pool unit, poolStrings]
    simp only [bind_eq_ok]
    constructor
    · rintro ⟨_, first, one, rest, many, -⟩
      exact ⟨⟨first, one⟩, rest, many⟩
    · rintro ⟨⟨first, one⟩, rest, many⟩
      exact ⟨_, first, one, rest, many, rfl⟩

/-- The unit of a header is read if it lies inside the chunks. -/
theorem unit_eq_ok_of_header (at_ : c.HeaderAt index h) : c.unit index = .ok u ↔ c.Inside h ∧
    ∃ strings, poolStrings (c.chunk .pool) h.name (c.stringOffsets h) = .ok strings ∧
      u = ⟨h, strings, (words32 (((c.chunk .vars).drop h.variableOffset.toNat).take
          (h.variableCount.toNat * 4))).map UInt32.toInt32,
        ((c.chunk .code).drop h.scriptOffset.toNat).take h.scriptLength.toNat,
        ((c.chunk .attributes).drop h.attributeOffset.toNat).take attributeCount⟩ := by
  have record : ∀ unit, window (c.chunk .units) (index * recordSize) recordSize "header" unit =
      .ok (c.record index) := fun unit => window_eq_ok.mpr ⟨at_.within, rfl⟩
  rw [unit, record, ok_bind, at_.decoded, ok_bind]
  simp only [bind_eq_ok, window_eq_ok]
  constructor
  · rintro ⟨table, ⟨offsets, rfl⟩, strings, texts, vars, ⟨values, rfl⟩, code, ⟨script, rfl⟩, rest⟩
    split at rest
    · cases rest
    · next entry =>
      obtain ⟨attributes, part, last⟩ := bind_eq_ok.mp rest
      obtain ⟨attributes, rfl⟩ := window_eq_ok.mp part
      rw [UInt32.lt_iff_toNat_lt, Nat.not_lt] at entry
      exact ⟨⟨offsets, exists_poolStrings.mp ⟨strings, texts⟩, values, script, entry, attributes⟩, strings, texts,
        (Except.ok.inj last).symm⟩
  · rintro ⟨within, strings, texts, rfl⟩
    refine ⟨_, ⟨within.offsets, rfl⟩, strings, texts, _, ⟨within.vars, rfl⟩, _, ⟨within.code, rfl⟩, ?_⟩
    rw [if_neg (by rw [UInt32.lt_iff_toNat_lt]; exact Nat.not_lt.mpr within.entry)]
    exact bind_eq_ok.mpr ⟨_, window_eq_ok.mpr ⟨within.attributes, rfl⟩, rfl⟩

theorem exists_unit (at_ : c.HeaderAt index h) : (∃ u, c.unit index = .ok u) ↔ c.Inside h := by
  constructor
  · rintro ⟨u, read⟩
    exact ((unit_eq_ok_of_header at_).mp read).1
  · intro within
    obtain ⟨strings, texts⟩ := exists_poolStrings.mpr within.strings
    exact ⟨_, (unit_eq_ok_of_header at_).mpr ⟨within, strings, texts, rfl⟩⟩

/-! ### Units one after the other -/

/-- How long the code of some headers is. -/
def scriptLengths (hs : List Header) : Nat := sumBy (fun h => h.scriptLength.toNat) hs

theorem scriptLengths_cons (h : Header) (hs : List Header) :
    scriptLengths (h :: hs) = h.scriptLength.toNat + scriptLengths hs := rfl

theorem headerAt_tail (records : ∀ i h', (h :: hs)[i]? = some h' → c.HeaderAt (index + i) h') :
    ∀ i h', hs[i]? = some h' → c.HeaderAt (index + 1 + i) h' := by
  intro i h' found
  rw [Nat.add_assoc, Nat.add_comm 1]
  exact records (i + 1) h' found

/-- Units are read one after the other if each lies inside the chunks and its code begins where that of the units in
front of it ends. -/
theorem exists_unitsFrom (expected : Nat) (records : ∀ i h, hs[i]? = some h → c.HeaderAt (index + i) h) :
    (∃ us, c.unitsFrom index expected hs.length = .ok us) ↔
      ∀ i h, hs[i]? = some h → c.Inside h ∧ h.scriptOffset.toNat = expected + scriptLengths (hs.take i) := by
  induction hs generalizing index expected with
  | nil => exact ⟨fun _ => by simp, fun _ => ⟨[], rfl⟩⟩
  | cons h hs ih =>
    have here : c.HeaderAt index h := records 0 h rfl
    have later := headerAt_tail records
    rw [List.length_cons]
    simp only [unitsFrom_succ]
    constructor
    · rintro ⟨_, u, rest, read, start, others, -⟩ i h' found
      obtain ⟨within, strings, -, rfl⟩ := (unit_eq_ok_of_header here).mp read
      cases i with
      | zero =>
        obtain rfl : h = h' := Option.some.inj found
        exact ⟨within, start⟩
      | succ i =>
        obtain ⟨within, place⟩ := (ih _ later).mp ⟨rest, others⟩ i h' found
        exact ⟨within, by rw [place, Nat.add_assoc]; rfl⟩
    · intro all
      obtain ⟨within, start⟩ := all 0 h rfl
      obtain ⟨u, read⟩ := (exists_unit here).mpr within
      obtain ⟨-, strings, -, rfl⟩ := (unit_eq_ok_of_header here).mp read
      obtain ⟨rest, others⟩ := (ih _ later).mpr fun i h' found => by
        obtain ⟨within, place⟩ := all (i + 1) h' found
        exact ⟨within, place.trans (Nat.add_assoc ..).symm⟩
      exact ⟨_, _, rest, read, start, others, rfl⟩

/-- The code of units that are read one after the other is what lies in the chunk from where it begins. -/
theorem code_of_unitsFrom (records : ∀ i h, hs[i]? = some h → c.HeaderAt (index + i) h)
    (read : c.unitsFrom index expected hs.length = .ok us) : us.map ScriptUnit.header = hs ∧
      us.flatMap ScriptUnit.code = ((c.chunk .code).drop expected).take (scriptLengths hs) := by
  induction hs generalizing index expected us with
  | nil =>
    cases read
    exact ⟨rfl, List.take_zero.symm⟩
  | cons h hs ih =>
    have here : c.HeaderAt index h := records 0 h rfl
    obtain ⟨u, rest, one, start, others, rfl⟩ := unitsFrom_succ.mp read
    obtain ⟨-, strings, -, rfl⟩ := (unit_eq_ok_of_header here).mp one
    obtain ⟨same, code⟩ := ih (headerAt_tail records) others
    refine ⟨by rw [List.map_cons, same], ?_⟩
    rw [List.flatMap_cons, code, scriptLengths_cons, List.take_add, List.drop_drop]
    dsimp only at start ⊢
    rw [start]

/-- Units are read without a look outside the data. They can be read exactly if the records fill their chunk and each
unit lies inside the chunks with its code behind that of the units in front of it; then their code is the front of the
code there is. -/
theorem units_accepted_iff (c : Container) :
    Careful.units c = Careful.inside c.units ∧
    c.headers.length = (c.chunk .units).length / recordSize ∧
    ((∃ us, c.units = .ok us) ↔ (c.chunk .units).length % recordSize = 0 ∧
      ∀ i h, c.headers[i]? = some h → c.Inside h ∧ h.scriptOffset.toNat = scriptLengths (c.headers.take i)) ∧
    ∀ us, c.units = .ok us → us.map ScriptUnit.header = c.headers ∧
      us.flatMap ScriptUnit.code <+: c.chunk .code := by
  have records : ∀ i h, c.headers[i]? = some h → c.HeaderAt (0 + i) h := fun i h found => by
    rw [Nat.zero_add]
    exact headerAt_of_headers found
  have read : ∀ {us}, c.units = .ok us ↔
      (c.chunk .units).length % recordSize = 0 ∧ c.unitsFrom 0 0 c.headers.length = .ok us := by
    intro us
    rw [units, bind_eq_ok, length_headers]
    simp only [unitCount]
    split
    · next whole => simp [whole]
    · next rest => simp [rest]
  refine ⟨Careful.units_eq c, length_headers c, ?_, fun us ok => ?_⟩
  · have accepted := exists_unitsFrom 0 records
    simp only [Nat.zero_add] at accepted
    rw [← accepted]
    simp only [read, exists_and_left]
  · obtain ⟨same, code⟩ := code_of_unitsFrom records (read.mp ok).2
    refine ⟨same, ?_⟩
    rw [code, List.drop_zero]
    exact List.take_prefix ..

/-- A container whose records do not fill their chunk is refused. The units that are put in its place are read: of the
strings of the second one is empty, and its script starts at the end of its code. -/
theorem units_accepted_neighbours : (¬ ∃ us, crowded.units = .ok us) ∧
    ∃ c us, crowded.replaceUnits neighbours = .ok c ∧ c.units = .ok us ∧
      Careful.units c = Careful.inside (.ok us) ∧ c.headers.length = 2 ∧
      (∀ i h, c.headers[i]? = some h → c.Inside h ∧ h.scriptOffset.toNat = scriptLengths (c.headers.take i)) ∧
      us.flatMap ScriptUnit.code <+: c.chunk .code := by
  refine ⟨fun read => absurd ((units_accepted_iff crowded).2.2.1.mp read).1 (by decide), ?_⟩
  obtain ⟨c, replaced⟩ : ∃ c, crowded.replaceUnits neighbours = .ok c := exists_eq_ok_of_toOption (by decide +kernel)
  obtain ⟨us, read⟩ := exists_units_replaceUnits replaced (by decide)
  obtain ⟨careful, -, accepted, code⟩ := units_accepted_iff c
  obtain ⟨same, front⟩ := code us read
  have count := (storedUnits_replaceUnits replaced read).2.length_eq
  refine ⟨c, us, replaced, read, read ▸ careful, ?_, (accepted.mp ⟨us, read⟩).2, front⟩
  rw [← same, List.length_map, count]
  rfl

end EventScript.Container
