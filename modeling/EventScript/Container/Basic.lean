import EventScript.Fault
import EventScript.Word

/-!
# Containers

A map file is a list of chunks: each has a tag of four bytes, a length and its data. A chunk with the
tag `END ` closes the list, and what follows it is kept as the trailer.
-/

namespace EventScript

/-- The name of a chunk. -/
structure Tag where
  first : UInt8
  second : UInt8
  third : UInt8
  fourth : UInt8
  deriving DecidableEq, Repr

namespace Tag

/-- The bytes of a tag. -/
def bytes (t : Tag) : Bytes := [t.first, t.second, t.third, t.fourth]

/-- A tag as messages show it. -/
def text (t : Tag) : String := Utf8.decodeLossy t.bytes

/-- `UNIT`: the records of the units. -/
def units : Tag := ⟨0x55, 0x4E, 0x49, 0x54⟩

/-- `CODE`: the code of the units. -/
def code : Tag := ⟨0x43, 0x4F, 0x44, 0x45⟩

/-- `STRS`: the pool of strings, each with a zero after it. -/
def pool : Tag := ⟨0x53, 0x54, 0x52, 0x53⟩

/-- `SOFS`: the offsets of the units' strings in the pool. -/
def offsets : Tag := ⟨0x53, 0x4F, 0x46, 0x53⟩

/-- `VARS`: the initial values of the units' variables. -/
def vars : Tag := ⟨0x56, 0x41, 0x52, 0x53⟩

/-- `ATTR`: the attributes of the units. -/
def attributes : Tag := ⟨0x41, 0x54, 0x54, 0x52⟩

/-- `STOR`: room for the variables of all instances. -/
def storage : Tag := ⟨0x53, 0x54, 0x4F, 0x52⟩

/-- `END `: the end of the chunks. -/
def terminator : Tag := ⟨0x45, 0x4E, 0x44, 0x20⟩

end Tag

/-- A piece of a container. -/
structure Chunk where
  tag : Tag
  data : Bytes
  deriving DecidableEq, Repr

/-- The content of a map file. -/
structure Container where
  chunks : List Chunk
  trailer : Bytes
  deriving DecidableEq, Repr

namespace Container

/-- A container without chunks. -/
def empty : Container := ⟨[], []⟩

/-- Puts a chunk in front. -/
def push (c : Chunk) (rest : Container) : Container := { rest with chunks := c :: rest.chunks }

/-- The tag and the length at the front of a chunk, and the bytes after them. -/
def chunkHead? : (raw : Bytes) → Option (Tag × Nat × { rest : Bytes // rest.length < raw.length })
  | t₁ :: t₂ :: t₃ :: t₄ :: l₁ :: l₂ :: l₃ :: l₄ :: rest =>
    some (⟨t₁, t₂, t₃, t₄⟩, (word32 l₁ l₂ l₃ l₄).toNat, ⟨rest, by simp only [List.length_cons]; omega⟩)
  | _ => none

/-- Reads a container from bytes that begin at an offset. -/
def decodeFrom (offset : Nat) (raw : Bytes) : Except Fault Container :=
  if raw.isEmpty then .ok empty
  else
    match chunkHead? raw with
    | none => .error (.truncatedChunk (Utf8.decodeLossy (raw.take 4)) offset)
    | some (tag, size, ⟨rest, _⟩) =>
      if tag = .terminator then .ok ⟨[], rest⟩
      else if size ≤ rest.length then
        match decodeFrom (offset + 8 + size) (rest.drop size) with
        | .ok container => .ok (container.push ⟨tag, rest.take size⟩)
        | .error e => .error e
      else .error (.truncatedChunk tag.text offset)
  termination_by raw.length
  decreasing_by rw [List.length_drop]; omega

/-- Reads a container. -/
def decode (raw : Bytes) : Except Fault Container := decodeFrom 0 raw

/-- The bytes of a chunk. -/
def encodeChunk (c : Chunk) : Except Fault Bytes :=
  if c.data.length ≤ 4294967295 then
    .ok (c.tag.bytes ++ bytes32 (UInt32.ofNat c.data.length) ++ c.data)
  else .error (.bounds (.chunkTooLarge c.tag.text))

/-- The bytes of chunks. -/
def encodeChunks : List Chunk → Except Fault Bytes
  | [] => .ok []
  | c :: cs =>
    match encodeChunk c with
    | .error e => .error e
    | .ok first =>
      match encodeChunks cs with
      | .error e => .error e
      | .ok rest => .ok (first ++ rest)

/-- The bytes of a container. -/
def encode (c : Container) : Except Fault Bytes :=
  match encodeChunks c.chunks with
  | .error e => .error e
  | .ok chunks => .ok (chunks ++ Tag.terminator.bytes ++ bytes32 0 ++ c.trailer)

/-- The data of the first chunk with a tag. -/
def chunk? (c : Container) (tag : Tag) : Option Bytes :=
  (c.chunks.find? fun k => k.tag == tag).map Chunk.data

/-- The data of the first chunk with a tag; a chunk that is not there is empty. -/
def chunk (c : Container) (tag : Tag) : Bytes := (c.chunk? tag).getD []

/-- The tags of the chunks. -/
def tags (c : Container) : List Tag := c.chunks.map Chunk.tag

/-- Replaces the first chunk with a tag, or adds one at the end. -/
def setIn (tag : Tag) (data : Bytes) : List Chunk → List Chunk
  | [] => [⟨tag, data⟩]
  | c :: cs => if c.tag = tag then ⟨tag, data⟩ :: cs else c :: setIn tag data cs

/-- Replaces the first chunk with a tag, or adds one at the end. -/
def setChunk (c : Container) (tag : Tag) (data : Bytes) : Container :=
  { c with chunks := setIn tag data c.chunks }

end Container

end EventScript
