import EventScript.Proofs.Utf8
import EventScript.Unit.Record

/-!
# Records of units

A header has a record exactly if its name fits (`exists_encode_iff`), the record has its fixed size, and it
is read as the same header (`decode_encode`). A record with a valid name is written again as it was, but for what
stands behind the zero after the name (`record_roundTrip`).
-/

namespace EventScript.Header

variable {h : Header} {name : String} {bs record : Bytes}

/-- A name is stored if there is room for a zero after it and it holds none itself. -/
theorem encodeName_eq_ok : encodeName name = .ok bs ↔
    (Utf8.encode name).length < nameSize ∧ 0 ∉ Utf8.encode name ∧
      bs = Utf8.encode name ++ List.replicate (nameSize - (Utf8.encode name).length) 0 := by
  rw [encodeName]
  split
  · next fits =>
    obtain ⟨short, free⟩ := fits
    have zero : 0 ∉ Utf8.encode name := by simpa using free
    exact ⟨fun ok => ⟨short, zero, (Except.ok.inj ok).symm⟩, fun ⟨_, _, equal⟩ => congrArg Except.ok equal.symm⟩
  · next refused =>
    constructor
    · intro ok
      cases ok
    · rintro ⟨short, zero, -⟩
      exact absurd ⟨short, by simpa using zero⟩ refused

theorem length_encodeName (stored : encodeName name = .ok bs) : bs.length = nameSize := by
  obtain ⟨short, -, rfl⟩ := encodeName_eq_ok.mp stored
  rw [List.length_append, List.length_replicate]
  omega

/-- What stands behind the first zero is not part of the name. -/
theorem decodeName_append {filler : Bytes} (free : 0 ∉ Utf8.encode name) :
    decodeName (Utf8.encode name ++ 0 :: filler) = name := by
  have text : ∀ b ∈ Utf8.encode name, (b != 0) = true := by
    intro b mem
    simpa using fun equal : b = 0 => free (equal ▸ mem)
  rw [decodeName, List.takeWhile_append_of_pos text, List.takeWhile_cons_of_neg (by simp), List.append_nil,
    Utf8.decodeLossy_encode]

theorem decodeName_encodeName (stored : encodeName name = .ok bs) : decodeName bs = name := by
  obtain ⟨short, free, rfl⟩ := encodeName_eq_ok.mp stored
  obtain ⟨k, room⟩ : ∃ k, nameSize - (Utf8.encode name).length = k + 1 := Nat.exists_eq_succ_of_ne_zero (by omega)
  rw [room, List.replicate_succ, decodeName_append free]

theorem length_words (h : Header) : (h.words.flatMap bytes32).length = 36 := rfl

/-- The parts of a record. -/
theorem encode_eq_ok : h.encode = .ok record ↔
    ∃ name, encodeName h.name = .ok name ∧ record = name ++ h.words.flatMap bytes32 ++ [h.kind] := by
  rw [encode]
  split
  · next refused =>
    constructor
    · intro ok
      cases ok
    · rintro ⟨name, stored, -⟩
      cases refused.symm.trans stored
  · next name stored =>
    constructor
    · exact fun ok => ⟨name, stored, (Except.ok.inj ok).symm⟩
    · rintro ⟨name', stored', rfl⟩
      cases stored.symm.trans stored'
      rfl

theorem length_encode (stored : h.encode = .ok record) : record.length = recordSize := by
  obtain ⟨name, fits, rfl⟩ := encode_eq_ok.mp stored
  rw [List.length_append, List.length_append, length_encodeName fits, length_words]
  rfl

/-- What is read from the parts of a record. -/
theorem decode_parts (h : Header) {front : Bytes} (size : front.length = nameSize) :
    decode (front ++ h.words.flatMap bytes32 ++ [h.kind]) = .ok { h with name := decodeName front } := by
  have length : (front ++ h.words.flatMap bytes32 ++ [h.kind]).length = recordSize := by
    rw [List.length_append, List.length_append, size, length_words]
    rfl
  rw [decode, if_pos length]
  have words : (front ++ h.words.flatMap bytes32 ++ [h.kind]).drop nameSize = h.words.flatMap bytes32 ++ [h.kind] := by
    rw [List.append_assoc, ← size, List.drop_left]
  have name_ : (front ++ h.words.flatMap bytes32 ++ [h.kind]).take nameSize = front := by
    rw [List.append_assoc, ← size, List.take_left]
  have fields : words32 ((h.words.flatMap bytes32 ++ [h.kind]).take 36) = h.words := by
    rw [← length_words h, List.take_left, words32_flatMap_bytes32]
  have kind : (h.words.flatMap bytes32 ++ [h.kind]).drop 36 = [h.kind] := by
    rw [← length_words h, List.drop_left]
  simp only [words, name_, fields, kind]
  rfl

/-- A record is read as the header it was made from. -/
theorem decode_encode (stored : h.encode = .ok record) : decode record = .ok h := by
  obtain ⟨name, fits, rfl⟩ := encode_eq_ok.mp stored
  rw [decode_parts h (length_encodeName fits), decodeName_encodeName fits]

/-- Bytes whose number is a multiple of four are those of words. -/
theorem exists_flatMap_bytes32 {n : Nat} (size : bs.length = 4 * n) :
    ∃ ws : List UInt32, ws.length = n ∧ bs = ws.flatMap bytes32 := by
  induction n generalizing bs with
  | zero => exact ⟨[], rfl, List.length_eq_zero_iff.mp size⟩
  | succ n ih =>
    rcases bs with _ | ⟨a, _ | ⟨b, _ | ⟨c, _ | ⟨d, bs⟩⟩⟩⟩
    case cons.cons.cons.cons =>
      obtain ⟨ws, length, rfl⟩ := @ih bs (by simp only [List.length_cons] at size; omega)
      exact ⟨word32 a b c d :: ws, congrArg Nat.succ length, by rw [List.flatMap_cons, bytes32_word32]; rfl⟩
    all_goals simp only [List.length_cons, List.length_nil] at size; omega

/-- Every record of the right size has the parts of one. -/
theorem exists_parts (size : record.length = recordSize) : ∃ (h : Header) (front : Bytes), front.length = nameSize ∧
    record = front ++ h.words.flatMap bytes32 ++ [h.kind] := by
  have sizes : nameSize = 128 ∧ recordSize = 165 := ⟨rfl, rfl⟩
  have words : ((record.drop nameSize).take 36).length = 4 * 9 := by
    rw [List.length_take, List.length_drop]
    omega
  have one : ((record.drop nameSize).drop 36).length = 1 := by
    rw [List.length_drop, List.length_drop]
    omega
  obtain ⟨ws, length, fields⟩ := exists_flatMap_bytes32 words
  obtain ⟨kind, last⟩ := List.length_eq_one_iff.mp one
  have split : record = record.take nameSize ++ ws.flatMap bytes32 ++ [kind] := by
    rw [← fields, ← last, List.append_assoc, List.take_append_drop, List.take_append_drop]
  have front : (record.take nameSize).length = nameSize := by
    rw [List.length_take]
    omega
  rcases ws with _ | ⟨w₁, _ | ⟨w₂, _ | ⟨w₃, _ | ⟨w₄, _ | ⟨w₅, _ | ⟨w₆, _ | ⟨w₇, _ | ⟨w₈, _ | ⟨w₉, _ | _⟩⟩⟩⟩⟩⟩⟩⟩⟩
  case cons.cons.cons.cons.cons.cons.cons.cons.cons.nil =>
    exact ⟨⟨"", w₁, w₂, w₃, w₄, w₅, w₆, w₇, w₈, w₉, kind⟩, _, front, split⟩
  all_goals simp at length

/-! ### Both directions -/

/-- A name fits if it takes fewer bytes than there are and has no character zero. -/
theorem exists_encode_iff :
    (∃ record, h.encode = .ok record) ↔ h.name.utf8ByteSize < nameSize ∧ '\x00' ∉ h.name.toList := by
  rw [← Utf8.length_encode, ← Utf8.zero_mem_encode]
  constructor
  · rintro ⟨record, stored⟩
    obtain ⟨name, fits, -⟩ := encode_eq_ok.mp stored
    obtain ⟨short, free, -⟩ := encodeName_eq_ok.mp fits
    exact ⟨short, free⟩
  · rintro ⟨short, free⟩
    exact ⟨_, encode_eq_ok.mpr ⟨_, encodeName_eq_ok.mpr ⟨short, free, rfl⟩, rfl⟩⟩

/-- The field of a name is stored with zeros behind the name. -/
theorem encodeName_of_field {filler : Bytes} (size : (Utf8.encode name ++ 0 :: filler).length = nameSize)
    (free : 0 ∉ Utf8.encode name) :
    encodeName name = .ok (Utf8.encode name ++ 0 :: List.replicate filler.length 0) := by
  rw [List.length_append, List.length_cons] at size
  have room : nameSize - (Utf8.encode name).length = filler.length + 1 := by omega
  refine encodeName_eq_ok.mpr ⟨by omega, free, ?_⟩
  rw [room, List.replicate_succ]

/-- A header has a record exactly if its name has fewer bytes than the field and no character zero, and the record is
read as the header again. Every record whose name field has a zero with a valid name before it is read, and is written
again with zeros behind the name and everything else as it was. -/
theorem record_roundTrip :
    (∀ h : Header, (∃ record, h.encode = .ok record) ↔
      h.name.utf8ByteSize < nameSize ∧ '\x00' ∉ h.name.toList) ∧
    (∀ (h : Header) (record : Bytes), h.encode = .ok record → record.length = recordSize ∧ decode record = .ok h) ∧
    ∀ record name filler : Bytes, record.length = recordSize → record.take nameSize = name ++ 0 :: filler →
      0 ∉ name → name.toByteArray.IsValidUTF8 → ∃ h, decode record = .ok h ∧
        h.encode = .ok (name ++ 0 :: List.replicate filler.length 0 ++ record.drop nameSize) := by
  refine ⟨fun h => exists_encode_iff, fun h record stored => ⟨length_encode stored, decode_encode stored⟩, ?_⟩
  intro record name filler size field free valid
  obtain ⟨text, rfl⟩ := Utf8.isValidUTF8_iff.mp valid
  obtain ⟨h, front, room, rfl⟩ := exists_parts size
  have start : front = Utf8.encode text ++ 0 :: filler := by
    rw [← field, List.append_assoc, ← room, List.take_left]
  have rest : (front ++ h.words.flatMap bytes32 ++ [h.kind]).drop nameSize = h.words.flatMap bytes32 ++ [h.kind] := by
    rw [List.append_assoc, ← room, List.drop_left]
  refine ⟨{ h with name := text }, ?_, ?_⟩
  · rw [decode_parts h room, start, decodeName_append free]
  · rw [rest, ← List.append_assoc]
    exact encode_eq_ok.mpr ⟨_, encodeName_of_field (start ▸ room) free, rfl⟩

/-- A record with a name that has a character of two bytes, and junk behind it. -/
def quayRecord : Bytes :=
  [75, 195, 164, 105] ++ 0 :: List.replicate 123 7 ++ [0, 0, 0, 1, 0, 0, 0, 2] ++ List.replicate 28 255 ++ [9]

/-- The characters of a name of 127 bytes. -/
def longName : List Char := List.replicate 31 '😀' ++ ['a', 'b', 'c']

theorem utf8ByteSize_longName : (String.ofList longName).utf8ByteSize = 127 := by
  rw [← Utf8.length_encode, Utf8.encode, String.toList_ofList]
  decide +kernel

/-- The longest name takes 127 bytes, whatever the number of its characters. -/
theorem record_roundTrip_quay :
    (∃ record, ({ name := String.ofList longName } : Header).encode = .ok record) ∧
    (¬∃ record, ({ name := String.ofList longName ++ "d" } : Header).encode = .ok record) ∧
    ∃ h, decode quayRecord = .ok h ∧
      h.encode = .ok ([75, 195, 164, 105] ++ 0 :: List.replicate 123 0 ++ quayRecord.drop nameSize) := by
  have last : nameSize = 127 + "d".utf8ByteSize := rfl
  have valid : ([75, 195, 164, 105] : Bytes).toByteArray.IsValidUTF8 :=
    Utf8.isValidUTF8_iff.mpr ⟨"Käi", by decide⟩
  refine ⟨(record_roundTrip.1 _).mpr ⟨?_, ?_⟩, fun stored => ?_, ?_⟩
  · rw [utf8ByteSize_longName]
    exact Nat.lt_succ_self 127
  · rw [String.toList_ofList]
    decide +kernel
  · have short := ((record_roundTrip.1 _).mp stored).1
    rw [String.utf8ByteSize_append, utf8ByteSize_longName, ← last] at short
    exact Nat.lt_irrefl _ short
  · exact record_roundTrip.2.2 quayRecord _ (List.replicate 123 7) (by decide +kernel) (by decide +kernel) (by decide)
      valid

end EventScript.Header
