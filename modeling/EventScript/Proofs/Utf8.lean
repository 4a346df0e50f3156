import EventScript.Text.Utf8

/-!
# Texts in UTF-8

The bytes of a text are read as the same text (`decodeLossy_encode`), and a zero among them stands for
the character zero (`zero_mem_encode`). The character that begins a run of bytes is read whatever
follows it (`scan_encodeChar`), with one lemma for each number of bytes. Valid bytes are those of a text
(`isValidUTF8_iff`).
-/

namespace EventScript.Utf8

/-! ### Bytes after the first -/

/-- A byte that continues a character, with more bytes due. -/
theorem scan_middle {value missing low high n : Nat} (lower : low ≤ n) (upper : n ≤ high) (byte : n < 256)
    (more : 1 < missing) (rest : Bytes) :
    scan (.within value missing low high) (UInt8.ofNat n :: rest) =
      scan (.within (value * 64 + (n - 0x80)) (missing - 1) 0x80 0xBF) rest := by
  have toNat : (UInt8.ofNat n).toNat = n := UInt8.toNat_ofNat_of_lt' byte
  have due : ¬ missing ≤ 1 := by omega
  rw [scan, step]
  simp [toNat, lower, upper, due]

/-- The last byte of a character. -/
theorem scan_last {value low high n : Nat} (lower : low ≤ n) (upper : n ≤ high) (byte : n < 256) (rest : Bytes) :
    scan (.within value 1 low high) (UInt8.ofNat n :: rest) =
      some (Char.ofNat (value * 64 + (n - 0x80))) :: scan .fresh rest := by
  have toNat : (UInt8.ofNat n).toNat = n := UInt8.toNat_ofNat_of_lt' byte
  rw [scan, step]
  simp [toNat, lower, upper]

/-- A first byte after which more are due. -/
theorem scan_first {b : UInt8} {p : Progress} (opens : first b = ([], p)) (rest : Bytes) :
    scan .fresh (b :: rest) = scan p rest := by
  rw [scan, step, opens, List.nil_append]

/-! ### First bytes -/

theorem first_two {v : Nat} (lower : 128 ≤ v) (upper : v ≤ 2047) :
    first (UInt8.ofNat (v / 64 % 32 + 192)) = ([], .within (v / 64) 1 0x80 0xBF) := by
  have toNat : (UInt8.ofNat (v / 64 % 32 + 192)).toNat = v / 64 + 192 := by
    rw [UInt8.toNat_ofNat_of_lt' (by show _ < 256; omega)]
    omega
  have high : 2 ≤ v / 64 := by omega
  have low : v / 64 < 32 := by omega
  simp only [first, toNat]
  rw [if_neg (by omega), if_neg (by omega), if_pos (by omega), Nat.add_sub_cancel]

/-- The second byte of a character of three bytes is in a range that depends on the first one, since
neither longer forms of small numbers nor surrogates are allowed. -/
theorem first_three {v : Nat} (lower : 2048 ≤ v) (upper : v ≤ 65535) (scalar : v < 0xD800 ∨ 0xDFFF < v) :
    ∃ low high, first (UInt8.ofNat (v / 4096 % 16 + 224)) = ([], .within (v / 4096) 2 low high) ∧
      low ≤ v / 64 % 64 + 128 ∧ v / 64 % 64 + 128 ≤ high := by
  have toNat : (UInt8.ofNat (v / 4096 % 16 + 224)).toNat = v / 4096 + 224 := by
    rw [UInt8.toNat_ofNat_of_lt' (by show _ < 256; omega)]
    omega
  have bound : v / 4096 < 16 := by omega
  simp only [first, toNat]
  rw [if_neg (by omega), if_neg (by omega), if_neg (by omega)]
  by_cases small : v / 4096 = 0
  · rw [if_pos (by omega), small]
    exact ⟨_, _, rfl, by omega, by omega⟩
  · rw [if_neg (by omega)]
    by_cases surrogate : v / 4096 = 13
    · rw [if_pos (by omega), surrogate]
      exact ⟨_, _, rfl, by omega, by omega⟩
    · rw [if_neg (by omega), if_pos (by omega), Nat.add_sub_cancel]
      exact ⟨_, _, rfl, by omega, by omega⟩

theorem first_four {v : Nat} (lower : 65536 ≤ v) (upper : v < 0x110000) :
    ∃ low high, first (UInt8.ofNat (v / 262144 % 8 + 240)) = ([], .within (v / 262144) 3 low high) ∧
      low ≤ v / 4096 % 64 + 128 ∧ v / 4096 % 64 + 128 ≤ high := by
  have toNat : (UInt8.ofNat (v / 262144 % 8 + 240)).toNat = v / 262144 + 240 := by
    rw [UInt8.toNat_ofNat_of_lt' (by show _ < 256; omega)]
    omega
  have bound : v / 262144 < 5 := by omega
  simp only [first, toNat]
  rw [if_neg (by omega), if_neg (by omega), if_neg (by omega), if_neg (by omega), if_neg (by omega),
    if_neg (by omega)]
  by_cases small : v / 262144 = 0
  · rw [if_pos (by omega), small]
    exact ⟨_, _, rfl, by omega, by omega⟩
  · rw [if_neg (by omega)]
    by_cases last : v / 262144 = 4
    · rw [if_neg (by omega), if_pos (by omega), last]
      exact ⟨_, _, rfl, by omega, by omega⟩
    · rw [if_pos (by omega), Nat.add_sub_cancel]
      exact ⟨_, _, rfl, by omega, by omega⟩

/-! ### Characters -/

theorem scan_one {v : Nat} (upper : v ≤ 127) (rest : Bytes) :
    scan .fresh (UInt8.ofNat v :: rest) = some (Char.ofNat v) :: scan .fresh rest := by
  have toNat : (UInt8.ofNat v).toNat = v := UInt8.toNat_ofNat_of_lt' (by show _ < 256; omega)
  have ascii : first (UInt8.ofNat v) = ([some (Char.ofNat v)], .fresh) := by
    simp only [first, toNat]
    rw [if_pos (by omega)]
  rw [scan, step, ascii, List.singleton_append]

/-- The bytes of a character are read as this character. -/
theorem scan_encodeChar (c : Char) (rest : Bytes) :
    scan .fresh (String.utf8EncodeChar c ++ rest) = some c :: scan .fresh rest := by
  have scalar : c.toNat < 0xD800 ∨ 0xDFFF < c.toNat ∧ c.toNat < 0x110000 := c.valid
  have value : Char.ofNat c.toNat = c := Char.ofNat_toNat c
  rw [String.utf8EncodeChar, Char.toNat_val]
  generalize c.toNat = v at scalar value
  split
  · next upper =>
    rw [List.singleton_append, scan_one upper, value]
  · split
    · next lower upper =>
      rw [List.cons_append, List.singleton_append, scan_first (first_two (by omega) upper),
        scan_last (by omega) (by omega) (by omega)]
      rw [show v / 64 * 64 + (v % 64 + 128 - 0x80) = v by omega, value]
    · split
      · next lower upper =>
        obtain ⟨low, high, opens, above, below⟩ := first_three (by omega) upper (by omega)
        rw [List.cons_append, List.cons_append, List.singleton_append, scan_first opens,
          scan_middle above below (by omega) (by omega), scan_last (by omega) (by omega) (by omega)]
        rw [show (v / 4096 * 64 + (v / 64 % 64 + 128 - 0x80)) * 64 + (v % 64 + 128 - 0x80) = v by omega, value]
      · next lower =>
        obtain ⟨low, high, opens, above, below⟩ := first_four (v := v) (by omega) (by omega)
        rw [List.cons_append, List.cons_append, List.cons_append, List.singleton_append, scan_first opens,
          scan_middle above below (by omega) (by omega),
          scan_middle (by omega) (by omega) (by omega) (by omega), scan_last (by omega) (by omega) (by omega)]
        rw [show ((v / 262144 * 64 + (v / 4096 % 64 + 128 - 0x80)) * 64 + (v / 64 % 64 + 128 - 0x80)) * 64 +
          (v % 64 + 128 - 0x80) = v by omega, value]

theorem scan_flatMap (cs : List Char) : scan .fresh (cs.flatMap String.utf8EncodeChar) = cs.map some := by
  induction cs with
  | nil => rfl
  | cons c cs ih => rw [List.flatMap_cons, scan_encodeChar, ih, List.map_cons]

/-- The bytes of a text are read as this text. -/
@[simp] theorem decodeLossy_encode (s : String) : decodeLossy (encode s) = s := by
  rw [decodeLossy, encode, scan_flatMap, List.map_map]
  exact (congrArg String.ofList (List.map_id _)).trans (String.ofList_toList)

theorem ofNat_eq_zero {n : Nat} (byte : n < 256) (h : (0 : UInt8) = UInt8.ofNat n) : n = 0 := by
  have toNat := congrArg UInt8.toNat h
  rw [UInt8.toNat_ofNat_of_lt' byte] at toNat
  exact toNat.symm

/-- Only the character zero has a zero among its bytes. -/
theorem zero_mem_encodeChar {c : Char} : (0 : UInt8) ∈ String.utf8EncodeChar c ↔ c = '\x00' := by
  constructor
  · intro mem
    have zero : c.toNat = 0 := by
      rw [String.utf8EncodeChar, Char.toNat_val] at mem
      generalize c.toNat = v at mem
      split at mem
      · exact ofNat_eq_zero (by omega) (List.mem_singleton.mp mem)
      · split at mem
        · simp only [List.mem_cons, List.not_mem_nil, or_false] at mem
          rcases mem with h | h <;> have := ofNat_eq_zero (by omega) h <;> omega
        · split at mem <;> simp only [List.mem_cons, List.not_mem_nil, or_false] at mem
          · rcases mem with h | h | h <;> have := ofNat_eq_zero (by omega) h <;> omega
          · rcases mem with h | h | h | h <;> have := ofNat_eq_zero (by omega) h <;> omega
    rw [← Char.ofNat_toNat c, zero]
  · rintro rfl
    decide

theorem zero_mem_encode {s : String} : (0 : UInt8) ∈ encode s ↔ '\x00' ∈ s.toList := by
  rw [encode, List.mem_flatMap]
  constructor
  · rintro ⟨c, mem, zero⟩
    rwa [← zero_mem_encodeChar.mp zero]
  · exact fun mem => ⟨_, mem, zero_mem_encodeChar.mpr rfl⟩

/-! ### Byte arrays -/

theorem toByteArray_encode (s : String) : (encode s).toByteArray = s.toByteArray := by
  rw [← String.ofList_toList (s := s), String.toByteArray_ofList, encode, String.toList_ofList, List.utf8Encode]

theorem length_encode (s : String) : (encode s).length = s.utf8ByteSize := by
  rw [← String.size_toByteArray, ← toByteArray_encode, List.size_toByteArray]

/-- Bytes are valid if they are those of a text. -/
theorem isValidUTF8_iff {bs : Bytes} : bs.toByteArray.IsValidUTF8 ↔ ∃ s, encode s = bs := by
  constructor
  · rintro ⟨cs, same⟩
    refine ⟨String.ofList cs, ?_⟩
    have arrays := congrArg (fun b : ByteArray => b.data.toList) same
    simpa [List.utf8Encode, encode] using arrays.symm
  · rintro ⟨s, rfl⟩
    rw [toByteArray_encode]
    exact s.isValidUTF8

end EventScript.Utf8
