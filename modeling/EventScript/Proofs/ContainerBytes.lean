import EventScript.Proofs.Layout

/-!
# Containers as bytes and back

Containers that arise from the empty one, or from bytes, by setting chunks and replacing units are read
back from their bytes, and bytes that can be read are written back as they are, up to the chunk that ends
the others: its length counts for nothing and becomes zero, and where it is missing it is added
(`codec_roundTrip`). `terminatorAt?` says where that chunk is, going from chunk to chunk by their lengths, so that
data that looks like a chunk is passed over.
-/

namespace EventScript.Container

variable {c c' : Container} {raw bytes rest : Bytes} {tag : Tag} {size : Nat}

/-- The containers that arise from the empty one or from bytes by setting chunks and replacing units. -/
inductive Reachable : Container → Prop where
  | empty : Reachable .empty
  | decoded {raw : Bytes} {c : Container} : decode raw = .ok c → Reachable c
  | setChunk {c : Container} {tag : Tag} (data : Bytes) :
    Reachable c → tag ≠ .terminator → Reachable (c.setChunk tag data)
  | replaceUnits {c c' : Container} {us : List ScriptUnit} :
    Reachable c → c.replaceUnits us = .ok c' → Reachable c'

theorem Reachable.proper (reachable : Reachable c) : c.Proper := by
  induction reachable with
  | empty => exact proper_nil []
  | decoded read => exact proper_decode read
  | setChunk data _ open_ ih => exact ih.setChunk open_ data
  | replaceUnits _ replaced ih => exact ih.replaceUnits replaced

/-- Where the first chunk with the tag that ends the others begins, if the chunks lead to one. -/
def terminatorAt? (raw : Bytes) : Option Nat :=
  match chunkHead? raw with
  | none => none
  | some (tag, size, ⟨rest, _⟩) =>
    if tag = .terminator then some 0
    else (terminatorAt? (rest.drop size)).map fun p => 8 + size + p
  termination_by raw.length
  decreasing_by rw [List.length_drop]; omega

/-- The tag and the length at the front are those that the bytes begin with. -/
theorem chunkHead?_eq_some {less : rest.length < raw.length}
    (head : chunkHead? raw = some (tag, size, ⟨rest, less⟩)) :
    ∃ w : UInt32, w.toNat = size ∧ raw = tag.bytes ++ bytes32 w ++ rest := by
  unfold chunkHead? at head
  split at head
  · next t₁ t₂ t₃ t₄ l₁ l₂ l₃ l₄ rest =>
    cases head
    exact ⟨word32 l₁ l₂ l₃ l₄, rfl, by rw [bytes32_word32]; rfl⟩
  · cases head

theorem terminatorAt?_nil : terminatorAt? [] = none := by
  rw [terminatorAt?]
  rfl

theorem terminatorAt?_of_head {less : rest.length < raw.length}
    (head : chunkHead? raw = some (tag, size, ⟨rest, less⟩)) : terminatorAt? raw =
      if tag = .terminator then some 0 else (terminatorAt? (rest.drop size)).map fun p => 8 + size + p := by
  rw [terminatorAt?, head]

/-- Bytes that are read are those of the chunks, and nothing or the closing chunk and the trailer after them. -/
theorem decodeFrom_split {offset : Nat} (read : decodeFrom offset raw = .ok c) :
    ∃ chunks, encodeChunks c.chunks = .ok chunks ∧
      (terminatorAt? raw = none ∧ raw = chunks ∧ c.trailer = [] ∨
        ∃ w : UInt32, terminatorAt? raw = some chunks.length ∧
          raw = chunks ++ (Tag.terminator.bytes ++ bytes32 w ++ c.trailer)) := by
  fun_induction decodeFrom offset raw generalizing c with
  | case1 offset raw none_ =>
    cases read
    rw [List.isEmpty_iff.mp none_]
    exact ⟨[], rfl, .inl ⟨terminatorAt?_nil, rfl, rfl⟩⟩
  | case3 offset raw _ size rest less head =>
    cases read
    obtain ⟨w, -, same⟩ := chunkHead?_eq_some head
    exact ⟨[], rfl, .inr ⟨w, by rw [terminatorAt?_of_head head, if_pos rfl]; rfl, same⟩⟩
  | case4 offset raw _ tag size rest less head open_ fits container inner ih =>
    cases read
    obtain ⟨chunks, stored, ending⟩ := ih inner
    obtain ⟨w, rfl, same⟩ := chunkHead?_eq_some head
    have length : (rest.take w.toNat).length = w.toNat := by
      rw [List.length_take, Nat.min_eq_left fits]
    have first : encodeChunk ⟨tag, rest.take w.toNat⟩ = .ok (tag.bytes ++ bytes32 w ++ rest.take w.toNat) := by
      have small := w.toNat_lt
      refine encodeChunk_eq_ok.mpr ⟨by rw [length]; omega, ?_⟩
      rw [length, UInt32.ofNat_toNat]
    have front : raw = tag.bytes ++ bytes32 w ++ rest.take w.toNat ++ rest.drop w.toNat := by
      rw [same, List.append_assoc _ (rest.take _), List.take_append_drop]
    have before : (tag.bytes ++ bytes32 w ++ rest.take w.toNat).length = 8 + w.toNat := by
      rw [List.length_append, length]
      rfl
    refine ⟨_, encodeChunks_cons.mpr ⟨_, chunks, first, stored, rfl⟩, ?_⟩
    rw [terminatorAt?_of_head head, if_neg open_, List.length_append, before]
    rcases ending with ⟨none_, last, trailer⟩ | ⟨v, found, last⟩
    · refine .inl ⟨by rw [none_]; rfl, ?_, trailer⟩
      rw [← last, ← front]
    · refine .inr ⟨v, by rw [found]; rfl, ?_⟩
      rw [List.append_assoc _ chunks, show (push _ container).trailer = container.trailer from rfl, ← last, ← front]
  | case2 | case5 | case6 => cases read

/-- Containers are read back from their bytes, and bytes are written back from the container that they are read
as: the length of the chunk that ends the others becomes zero, and such a chunk is added if there is none. -/
theorem codec_roundTrip :
    (∀ {c : Container} {bytes : Bytes}, Reachable c → c.encode = .ok bytes → decode bytes = .ok c) ∧
      ∀ {raw : Bytes} {c : Container}, decode raw = .ok c →
        (∀ p, terminatorAt? raw = some p → (raw.drop (p + 4)).take 4 = bytes32 0 → c.encode = .ok raw) ∧
        (∀ p, terminatorAt? raw = some p → c.encode = .ok (raw.take (p + 4) ++ bytes32 0 ++ raw.drop (p + 8))) ∧
        (terminatorAt? raw = none → c.encode = .ok (raw ++ Tag.terminator.bytes ++ bytes32 0)) := by
  refine ⟨fun reachable stored => decode_encode reachable.proper stored, fun {raw c} read => ?_⟩
  obtain ⟨chunks, stored, ending⟩ := decodeFrom_split read
  have written : c.encode = .ok (chunks ++ (Tag.terminator.bytes ++ bytes32 0 ++ c.trailer)) :=
    encode_eq_ok.mpr ⟨chunks, stored, rfl⟩
  have zeroed : ∀ p, terminatorAt? raw = some p →
      c.encode = .ok (raw.take (p + 4) ++ bytes32 0 ++ raw.drop (p + 8)) := by
    intro p found
    rcases ending with ⟨none_, -⟩ | ⟨w, found', rfl⟩
    · rw [none_] at found
      cases found
    · rw [found'] at found
      cases found
      have front : (chunks ++ Tag.terminator.bytes).length = chunks.length + 4 := List.length_append
      have field : (chunks ++ Tag.terminator.bytes ++ bytes32 w).length = chunks.length + 8 := by
        rw [List.length_append, front]
        rfl
      simp only [← List.append_assoc] at written ⊢
      rw [List.drop_left' field, List.append_assoc _ (bytes32 w), List.take_left' front, written]
  refine ⟨fun p found zero => ?_, zeroed, fun none_ => ?_⟩
  · have after : raw.drop (p + 8) = (raw.drop (p + 4)).drop 4 := by rw [List.drop_drop]
    rw [zeroed p found, ← zero, after, List.append_assoc, List.take_append_drop, List.take_append_drop]
  · rcases ending with ⟨-, rfl, trailer⟩ | ⟨w, found, -⟩
    · rw [written, trailer, List.append_nil, List.append_assoc]
    · rw [none_] at found
      cases found

/-- Three chunks, two of which have the same tag, and a closing chunk with a length. The data of the second looks like
a closing chunk. -/
def oddMap : Bytes :=
  [0x4D, 0x45, 0x54, 0x41, 0, 0, 0, 1, 5,
   0x58, 0x58, 0x58, 0x58, 0, 0, 0, 8, 0x45, 0x4E, 0x44, 0x20, 0, 0, 0, 0,
   0x4D, 0x45, 0x54, 0x41, 0, 0, 0, 0,
   0x45, 0x4E, 0x44, 0x20, 0, 0, 1, 2, 9, 9]

theorem codec_roundTrip_oddMap : ∃ c c' bytes, decode oddMap = .ok c ∧
    c.encode = .ok (oddMap.take 37 ++ [0, 0, 0, 0] ++ [9, 9]) ∧
    (c.setChunk .pool [1]).replaceUnits neighbours = .ok c' ∧ c'.encode = .ok bytes ∧ decode bytes = .ok c' := by
  obtain ⟨c, read⟩ : ∃ c, decode oddMap = .ok c := exists_eq_ok_of_toOption (by decide +kernel)
  have ends : terminatorAt? oddMap = some 33 := by decide +kernel
  have reachable : Reachable (c.setChunk .pool [1]) := (Reachable.decoded read).setChunk [1] (by decide)
  obtain ⟨bytes, made⟩ : ∃ bytes, decode oddMap >>= (fun c => (c.setChunk .pool [1]).replaceUnits neighbours) >>=
      Container.encode = .ok bytes := exists_eq_ok_of_toOption (by decide +kernel)
  obtain ⟨c', replaced, encoded⟩ := bind_eq_ok.mp made
  rw [read, ok_bind] at replaced
  exact ⟨c, c', bytes, read, (codec_roundTrip.2 read).2.1 33 ends, replaced, encoded,
    codec_roundTrip.1 (reachable.replaceUnits replaced) encoded⟩

end EventScript.Container
