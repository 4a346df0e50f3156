import EventScript.Container.Basic
import EventScript.Unit.Record

/-!
# The units of a container

The units of a map share chunks; the windows in a unit's record say which part is its own.
`unit` and `units` read units, and `replaceUnits` lays them out anew: equal strings share one
place in the pool, and everything else follows in the order of the units.
-/

namespace EventScript.Container

/-- The number of unit records. -/
def unitCount (c : Container) : Except Fault Nat :=
  let length := (c.chunk .units).length
  if length % recordSize = 0 then .ok (length / recordSize) else .error (.bounds (.unitChunk length))

/-- A part of a chunk that a unit uses for `what`. The end of a window is given as a number of 64
bits. -/
def window (chunk : Bytes) (start size : Nat) (what unit : String) : Except Fault Bytes :=
  if start + size ≤ chunk.length then .ok ((chunk.drop start).take size)
  else .error (.bounds (.window unit what start (min (start + size) Text.maxWord64) chunk.length))

/-- The string of a pool that begins at an offset and ends before a zero. -/
def poolString (pool : Bytes) (unit : String) (offset : Nat) : Except Fault String :=
  if offset ≤ pool.length then
    let tail := pool.drop offset
    if tail.contains 0 then .ok (Utf8.decodeLossy (tail.takeWhile fun b => b != 0))
    else .error (.bounds (.openString unit offset))
  else .error (.bounds (.stringOffset unit offset pool.length))

/-- The strings of a pool that begin at the given offsets. -/
def poolStrings (pool : Bytes) (unit : String) : List UInt32 → Except Fault (List String)
  | [] => .ok []
  | offset :: offsets => do
    let first ← poolString pool unit offset.toNat
    let rest ← poolStrings pool unit offsets
    return first :: rest

/-- The unit with an index. -/
def unit (c : Container) (index : Nat) : Except Fault ScriptUnit := do
  let record ← window (c.chunk .units) (index * recordSize) recordSize "header"
    ("#" ++ Text.decimal index)
  let h ← Header.decode record
  let offsets ← window (c.chunk .offsets) (h.stringIndex.toNat * 4) (h.stringCount.toNat * 4)
    "string table" h.name
  let strings ← poolStrings (c.chunk .pool) h.name (words32 offsets)
  let vars ← window (c.chunk .vars) h.variableOffset.toNat (h.variableCount.toNat * 4)
    "variable table" h.name
  let code ← window (c.chunk .code) h.scriptOffset.toNat h.scriptLength.toNat "bytecode" h.name
  if h.scriptLength < h.entry then
    throw (.bounds (.entryPast h.name h.entry.toNat h.scriptLength.toNat))
  let attributes ← window (c.chunk .attributes) h.attributeOffset.toNat attributeCount "attribute"
    h.name
  return ⟨h, strings, (words32 vars).map UInt32.toInt32, code, attributes⟩

/-- Reads `count` units from an index on, whose code begins at `expected`. -/
def unitsFrom (c : Container) (index expected : Nat) : (count : Nat) → Except Fault (List ScriptUnit)
  | 0 => .ok []
  | count + 1 => do
    let u ← c.unit index
    let start := u.header.scriptOffset.toNat
    if start ≠ expected then
      throw (.bounds (.gap index u.header.name start expected))
    let rest ← c.unitsFrom (index + 1) (expected + u.header.scriptLength.toNat) count
    return u :: rest

/-- The units of a container, whose code must follow without gaps. -/
def units (c : Container) : Except Fault (List ScriptUnit) := do
  let count ← c.unitCount
  c.unitsFrom 0 0 count

/-- The data of the chunks that units share. -/
structure Shared where
  records : Bytes := []
  code : Bytes := []
  pool : Bytes := []
  /-- The strings of the pool with their offsets. -/
  poolOffsets : List (String × UInt32) := []
  offsets : List UInt32 := []
  vars : Bytes := []
  attributes : Bytes := []
  /-- How many variables all instances have. Any number can be counted here; storage for them, of four bytes
  each, has a size that a word of 64 bits can hold as long as there are fewer than 2^62. -/
  slots : Nat := 0

namespace Shared

/-- A number as a word of the format. -/
def wordFor (what : String) (n : Nat) : Except Fault UInt32 :=
  if n ≤ 4294967295 then .ok (UInt32.ofNat n) else .error (.bounds (.tooLarge what))

/-- Adds a string of a unit; one that the pool has already keeps its place. -/
def addString (unit : String) (s : Shared) (text : String) : Except Fault Shared :=
  if text.toList.contains '\x00' then .error (.bounds (.zeroInString unit text))
  else
    match s.poolOffsets.lookup text with
    | some offset => .ok { s with offsets := s.offsets ++ [offset] }
    | none => do
      let offset ← wordFor "string pool" s.pool.length
      return { s with
        pool := s.pool ++ Utf8.encode text ++ [0]
        poolOffsets := s.poolOffsets ++ [(text, offset)]
        offsets := s.offsets ++ [offset] }

/-- Attributes cut or filled up to their full number. -/
def fullAttributes (attributes : Bytes) : Bytes :=
  attributes.take attributeCount ++ List.replicate (attributeCount - attributes.length) 0

/-- Adds a unit after those before it. -/
def addUnit (s : Shared) (u : ScriptUnit) : Except Fault Shared := do
  let stringIndex ← wordFor "string offset table" s.offsets.length
  let stringCount ← wordFor "string count" u.strings.length
  let s ← u.strings.foldlM (addString u.header.name) s
  let variableOffset ← wordFor "variable table" s.vars.length
  let variableCount ← wordFor "variable count" u.vars.length
  let scriptOffset ← wordFor "code chunk" s.code.length
  let scriptLength ← wordFor "script length" u.code.length
  let attributeOffset ← wordFor "attribute chunk" s.attributes.length
  let header : Header := { u.header with
    stringIndex, stringCount, variableOffset, variableCount, scriptOffset, scriptLength,
    attributeOffset }
  let record ← header.encode
  return { s with
    records := s.records ++ record
    code := s.code ++ u.code
    vars := s.vars ++ u.vars.flatMap fun v => bytes32 v.toUInt32
    attributes := s.attributes ++ fullAttributes u.attributes
    slots := s.slots + u.header.instances.toNat * u.vars.length }

/-- The chunks, in the order in which missing ones are added. -/
def chunks (s : Shared) : List Chunk :=
  [⟨.units, s.records⟩, ⟨.code, s.code⟩, ⟨.pool, s.pool⟩, ⟨.offsets, s.offsets.flatMap bytes32⟩,
   ⟨.vars, s.vars⟩, ⟨.attributes, s.attributes⟩,
   ⟨.storage, List.replicate (4 * s.slots) 0⟩]

end Shared

/-- A container with its units replaced. -/
def replaceUnits (c : Container) (us : List ScriptUnit) : Except Fault Container := do
  let shared ← us.foldlM Shared.addUnit {}
  return shared.chunks.foldl (fun c k => c.setChunk k.tag k.data) c

end EventScript.Container
