import EventScript.Container.Basic
import EventScript.Proofs.Run

/-!
# Chunks of containers

The bytes of a container whose chunks are all `Proper` are read as the same container (`decode_encode`),
and what is read is always proper (`proper_decode`). Setting a chunk is looked at through `chunk?`: it
changes what its own tag leads to and nothing else, and setting what is there changes nothing.
-/

namespace EventScript.Container

variable {c c' : Container} {bytes raw data : Bytes} {tag : Tag}

/-! ### Bytes -/

/-- None of the chunks has the tag that ends them. -/
def Proper (c : Container) : Prop := ∀ k ∈ c.chunks, k.tag ≠ .terminator

instance (c : Container) : Decidable c.Proper := inferInstanceAs (Decidable (∀ k ∈ c.chunks, k.tag ≠ .terminator))

theorem encodeChunk_eq_ok {k : Chunk} : encodeChunk k = .ok bytes ↔
    k.data.length ≤ 4294967295 ∧ bytes = k.tag.bytes ++ bytes32 (UInt32.ofNat k.data.length) ++ k.data := by
  rw [encodeChunk]
  split
  · next small =>
    exact ⟨fun ok => ⟨small, (Except.ok.inj ok).symm⟩, fun h => congrArg Except.ok h.2.symm⟩
  · next large =>
    constructor
    · intro ok
      cases ok
    · exact fun h => absurd h.1 large

theorem encodeChunks_cons {k : Chunk} {ks : List Chunk} : encodeChunks (k :: ks) = .ok bytes ↔
    ∃ first rest, encodeChunk k = .ok first ∧ encodeChunks ks = .ok rest ∧ bytes = first ++ rest := by
  rw [encodeChunks]
  cases encodeChunk k with
  | error e =>
    constructor
    · intro ok
      cases ok
    · rintro ⟨_, _, ⟨⟩, _⟩
  | ok first =>
    cases encodeChunks ks with
    | error e =>
      constructor
      · intro ok
        cases ok
      · rintro ⟨_, _, _, ⟨⟩, _⟩
    | ok rest =>
      constructor
      · exact fun ok => ⟨first, rest, rfl, rfl, (Except.ok.inj ok).symm⟩
      · rintro ⟨_, _, ⟨⟩, ⟨⟩, rfl⟩
        rfl

theorem encode_eq_ok : c.encode = .ok bytes ↔ ∃ chunks, encodeChunks c.chunks = .ok chunks ∧
    bytes = chunks ++ (Tag.terminator.bytes ++ bytes32 0 ++ c.trailer) := by
  rw [encode]
  cases encodeChunks c.chunks with
  | error e =>
    constructor
    · intro ok
      cases ok
    · rintro ⟨_, ⟨⟩, _⟩
  | ok chunks =>
    have same : chunks ++ Tag.terminator.bytes ++ bytes32 0 ++ c.trailer =
        chunks ++ (Tag.terminator.bytes ++ bytes32 0 ++ c.trailer) := by
      simp only [List.append_assoc]
    constructor
    · exact fun ok => ⟨chunks, rfl, (Except.ok.inj ok).symm.trans same⟩
    · rintro ⟨_, ⟨⟩, rfl⟩
      exact congrArg Except.ok same

/-- What a tag and a length at the front lead to. -/
theorem decodeFrom_head (offset : Nat) (tag : Tag) (w : UInt32) (rest : Bytes) :
    decodeFrom offset (tag.bytes ++ bytes32 w ++ rest) =
      if tag = .terminator then .ok ⟨[], rest⟩
      else if w.toNat ≤ rest.length then
        (decodeFrom (offset + 8 + w.toNat) (rest.drop w.toNat)).map (push ⟨tag, rest.take w.toNat⟩)
      else .error (.truncatedChunk tag.text offset) := by
  have head : word32 (UInt8.ofNat (w.toNat / 16777216)) (UInt8.ofNat (w.toNat / 65536))
      (UInt8.ofNat (w.toNat / 256)) (UInt8.ofNat w.toNat) = w := word32_bytes w
  obtain ⟨first, second, third, fourth⟩ := tag
  rw [decodeFrom, if_neg (by simp [Tag.bytes])]
  simp only [Tag.bytes, bytes32, List.cons_append, List.nil_append, chunkHead?, head]
  cases decodeFrom (offset + 8 + w.toNat) (rest.drop w.toNat) <;> rfl

theorem decodeFrom_chunk {k : Chunk} (stored : encodeChunk k = .ok bytes) (open_ : k.tag ≠ .terminator)
    (offset : Nat) {rest : Bytes} (read : decodeFrom (offset + 8 + k.data.length) rest = .ok c) :
    decodeFrom offset (bytes ++ rest) = .ok (c.push k) := by
  obtain ⟨small, rfl⟩ := encodeChunk_eq_ok.mp stored
  have size : (UInt32.ofNat k.data.length).toNat = k.data.length := by
    rw [UInt32.toNat_ofNat', Nat.mod_eq_of_lt (by omega)]
  rw [List.append_assoc, decodeFrom_head, if_neg open_, size, if_pos (by simp), List.drop_left, List.take_left,
    read]
  rfl

theorem decodeFrom_chunks {ks : List Chunk} {trailer rest : Bytes} : ∀ {chunks : Bytes} (offset : Nat),
    encodeChunks ks = .ok chunks → (∀ k ∈ ks, k.tag ≠ .terminator) →
    (∀ offset, decodeFrom offset rest = .ok ⟨[], trailer⟩) →
      decodeFrom offset (chunks ++ rest) = .ok ⟨ks, trailer⟩ := by
  induction ks with
  | nil =>
    intro chunks offset stored _ last
    cases stored
    exact last offset
  | cons k ks ih =>
    intro chunks offset stored proper last
    obtain ⟨first, others, one, many, rfl⟩ := encodeChunks_cons.mp stored
    obtain ⟨open_, proper⟩ := List.forall_mem_cons.mp proper
    rw [List.append_assoc]
    exact decodeFrom_chunk one open_ offset (ih _ many proper last)

/-- The bytes of a container are read as the same container. -/
theorem decode_encode (proper : c.Proper) (stored : c.encode = .ok bytes) : decode bytes = .ok c := by
  obtain ⟨chunks, many, rfl⟩ := encode_eq_ok.mp stored
  refine decodeFrom_chunks 0 many proper fun offset => ?_
  rw [decodeFrom_head, if_pos rfl]

theorem exists_decodeFrom_chunks {rest : Bytes} (last : ∀ offset, ∃ c', decodeFrom offset rest = .ok c') :
    ∀ {ks : List Chunk} {chunks : Bytes} (offset : Nat), encodeChunks ks = .ok chunks →
      ∃ c', decodeFrom offset (chunks ++ rest) = .ok c' := by
  intro ks
  induction ks with
  | nil =>
    intro chunks offset stored
    cases stored
    exact last offset
  | cons k ks ih =>
    intro chunks offset stored
    obtain ⟨first, others, one, many, rfl⟩ := encodeChunks_cons.mp stored
    rw [List.append_assoc]
    by_cases closes : k.tag = .terminator
    · obtain ⟨-, rfl⟩ := encodeChunk_eq_ok.mp one
      rw [List.append_assoc, decodeFrom_head, if_pos closes]
      exact ⟨_, rfl⟩
    · obtain ⟨c', read⟩ := ih (offset + 8 + k.data.length) many
      exact ⟨_, decodeFrom_chunk one closes offset read⟩

/-- The bytes of any container can be read; a chunk with the tag that ends the others ends them. -/
theorem exists_decode_encode (stored : c.encode = .ok bytes) : ∃ c', decode bytes = .ok c' := by
  obtain ⟨chunks, many, rfl⟩ := encode_eq_ok.mp stored
  exact exists_decodeFrom_chunks (fun offset => ⟨_, (decodeFrom_head ..).trans (if_pos rfl)⟩) 0 many

theorem proper_nil (trailer : Bytes) : Proper ⟨[], trailer⟩ := by
  simp [Proper]

theorem proper_decodeFrom {offset : Nat} {raw : Bytes} (read : decodeFrom offset raw = .ok c) : c.Proper := by
  fun_induction decodeFrom offset raw generalizing c with
  | case1 =>
    cases read
    exact proper_nil []
  | case3 _ _ _ _ rest =>
    cases read
    exact proper_nil rest
  | case4 _ _ _ _ _ _ _ _ open_ _ container inner ih =>
    cases read
    exact List.forall_mem_cons.mpr ⟨open_, ih inner⟩
  | case2 | case5 | case6 => cases read

/-- A container that was read has no chunk with the tag that ends the others. -/
theorem proper_decode (read : decode raw = .ok c) : c.Proper := proper_decodeFrom read

/-! ### Setting chunks -/

theorem mem_setIn {k : Chunk} {ks : List Chunk} (mem : k ∈ setIn tag data ks) : k = ⟨tag, data⟩ ∨ k ∈ ks := by
  induction ks with
  | nil => exact .inl (List.mem_singleton.mp mem)
  | cons l ks ih =>
    rw [setIn] at mem
    split at mem
    · exact (List.mem_cons.mp mem).imp_right (List.mem_cons_of_mem l)
    · rcases List.mem_cons.mp mem with rfl | mem
      · exact .inr (List.mem_cons_self ..)
      · exact (ih mem).imp_right (List.mem_cons_of_mem l)

theorem Proper.setChunk (proper : c.Proper) (open_ : tag ≠ .terminator) (data : Bytes) :
    (c.setChunk tag data).Proper := by
  intro k mem
  rcases mem_setIn mem with rfl | mem
  · exact open_
  · exact proper k mem

theorem find?_setIn (tag other : Tag) (data : Bytes) (ks : List Chunk) :
    ((setIn tag data ks).find? fun k => k.tag == other).map Chunk.data =
      if other = tag then some data else (ks.find? fun k => k.tag == other).map Chunk.data := by
  have apart : other ≠ tag → (tag == other) = false := fun differs => by simpa using differs.symm
  induction ks with
  | nil =>
    by_cases same : other = tag
    · simp [setIn, same]
    · simp [setIn, same, apart same]
  | cons k ks ih =>
    rw [setIn]
    by_cases here : k.tag = tag
    · by_cases same : other = tag
      · simp [here, same]
      · simp [here, same, apart same]
    · by_cases found : k.tag = other
      · have differs : other ≠ tag := found ▸ here
        simp [found, differs]
      · rw [if_neg here, List.find?_cons_of_neg (by simp [found]), List.find?_cons_of_neg (by simp [found]), ih]

theorem chunk?_setChunk (c : Container) (tag other : Tag) (data : Bytes) :
    (c.setChunk tag data).chunk? other = if other = tag then some data else c.chunk? other :=
  find?_setIn tag other data c.chunks

theorem setIn_of_find? {ks : List Chunk} (found : (ks.find? fun k => k.tag == tag).map Chunk.data = some data) :
    setIn tag data ks = ks := by
  induction ks with
  | nil => cases found
  | cons k ks ih =>
    rw [setIn]
    by_cases here : k.tag = tag
    · rw [List.find?_cons_of_pos (by simp [here])] at found
      obtain ⟨t, d⟩ := k
      cases here
      cases found
      rw [if_pos rfl]
    · rw [List.find?_cons_of_neg (by simp [here])] at found
      rw [if_neg here, ih found]

/-- Setting a chunk to what it is already changes nothing. -/
theorem setChunk_of_chunk? (found : c.chunk? tag = some data) : c.setChunk tag data = c :=
  congrArg (fun ks => { c with chunks := ks }) (setIn_of_find? found)

/-! ### Setting several chunks -/

/-- Sets chunks one after the other. -/
def setChunks (c : Container) (ks : List Chunk) : Container := ks.foldl (fun c k => c.setChunk k.tag k.data) c

@[simp] theorem setChunks_cons (c : Container) (k : Chunk) (ks : List Chunk) :
    c.setChunks (k :: ks) = (c.setChunk k.tag k.data).setChunks ks := rfl

theorem Proper.setChunks {ks : List Chunk} (proper : c.Proper) (open_ : ∀ k ∈ ks, k.tag ≠ .terminator) :
    (c.setChunks ks).Proper := by
  induction ks generalizing c with
  | nil => exact proper
  | cons k ks ih =>
    obtain ⟨first, others⟩ := List.forall_mem_cons.mp open_
    exact ih (proper.setChunk first k.data) others

/-- Chunks with other tags stay. -/
theorem chunk?_setChunks_of_not_mem {ks : List Chunk} (absent : tag ∉ ks.map Chunk.tag) :
    (c.setChunks ks).chunk? tag = c.chunk? tag := by
  induction ks generalizing c with
  | nil => rfl
  | cons k ks ih =>
    obtain ⟨differs, absent⟩ := List.ne_and_not_mem_of_not_mem_cons absent
    rw [setChunks_cons, ih absent, chunk?_setChunk, if_neg differs]

/-- Chunks with different tags are all there after they were set. -/
theorem chunk?_setChunks {ks : List Chunk} (distinct : (ks.map Chunk.tag).Nodup) {k : Chunk} (mem : k ∈ ks) :
    (c.setChunks ks).chunk? k.tag = some k.data := by
  induction ks generalizing c with
  | nil => cases mem
  | cons l ks ih =>
    obtain ⟨absent, distinct⟩ := List.nodup_cons.mp distinct
    rcases List.mem_cons.mp mem with rfl | mem
    · rw [setChunks_cons, chunk?_setChunks_of_not_mem absent, chunk?_setChunk, if_pos rfl]
    · exact ih distinct mem

theorem setChunks_of_chunk? {ks : List Chunk} (found : ∀ k ∈ ks, c.chunk? k.tag = some k.data) :
    c.setChunks ks = c := by
  induction ks with
  | nil => rfl
  | cons k ks ih =>
    obtain ⟨first, others⟩ := List.forall_mem_cons.mp found
    rw [setChunks_cons, setChunk_of_chunk? first, ih others]

end EventScript.Container
