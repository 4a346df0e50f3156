import EventScript.Text.Utf8

/-!
# Compressed content

A compressed content is a row of blocks. A block is stored as it is, or written with two codes whose
words have different lengths: one for bytes and lengths of repetitions, one for the distances of
repetitions. `inflate` unpacks it.
-/

namespace EventScript.Archive

/-- The bits of a byte, the lowest first. -/
def bitsOf (b : UInt8) : List Bool := (List.range 8).map fun i => b.toNat.testBit i

/-- The number with the given bits, the lowest first. -/
def number : List Bool → Nat
  | [] => 0
  | b :: bs => b.toNat + 2 * number bs

/-- Why unpacking stops. -/
inductive Stop where
  /-- The bits end too soon. -/
  | truncated
  /-- The bits mean nothing. -/
  | corrupt
  deriving DecidableEq, Repr

/-- The number that the next `n` bits give, and the bits after them. -/
def takeNumber (n : Nat) (bits : List Bool) : Except Stop (Nat × List Bool) :=
  if (bits.take n).length = n then .ok (number (bits.take n), bits.drop n) else .error .truncated

/-! ## Codes -/

/-- A code, given by the symbols that have words of one bit, of two bits, and so on up to the longest
words. Words of one length are consecutive numbers, and no word begins with another. -/
structure Prefixes where
  levels : List (List Nat)
  deriving DecidableEq, Repr

namespace Prefixes

/-- The code in which symbol `s` has a word of `lengths[s]` bits, or none for zero. -/
def ofLengths (lengths : List Nat) : Prefixes where
  levels := (List.range (lengths.foldl max 1)).map fun n =>
    (lengths.zipIdx.filter fun p => p.1 == n + 1).map Prod.snd

/-- How many words of the last level no symbol has, if `free` words are there to begin with; `none` if
there are more symbols than words. -/
def spare? : (levels : List (List Nat)) → (free : Nat) → Option Nat
  | [], free => some free
  | level :: levels, free =>
    if level.length ≤ 2 * free then spare? levels (2 * free - level.length) else none

/-- Whether every row of bits begins with a word. -/
def isComplete (c : Prefixes) : Bool := spare? c.levels 1 == some 0

/-- Whether there is at most one word, of one bit. -/
def isSingle (c : Prefixes) : Bool :=
  match c.levels with
  | [level] => decide (level.length ≤ 1)
  | _ => false

/-- The symbol whose word comes next; `first` is the first word of a level and `word` the bits before. -/
def symbolFrom : (levels : List (List Nat)) → (first word : Nat) → List Bool →
    Except Stop (Nat × List Bool)
  | [], _, _, _ => .error .corrupt
  | _ :: _, _, _, [] => .error .truncated
  | level :: levels, first, word, b :: bits =>
    let word := 2 * word + b.toNat
    match if first ≤ word then level[word - first]? else none with
    | some symbol => .ok (symbol, bits)
    | none => symbolFrom levels (2 * (first + level.length)) word bits

/-- The symbol whose word comes next. -/
def symbol (c : Prefixes) (bits : List Bool) : Except Stop (Nat × List Bool) :=
  symbolFrom c.levels 0 0 bits

end Prefixes

/-- The codes of a block. -/
structure Codes where
  main : Prefixes
  distance : Prefixes
  deriving DecidableEq, Repr

/-- The codes of a block that brings none. -/
def fixedCodes : Codes where
  main := Prefixes.ofLengths
    (List.replicate 144 8 ++ List.replicate 112 9 ++ List.replicate 24 7 ++ List.replicate 8 8)
  distance := Prefixes.ofLengths (List.replicate 32 5)

/-! ## Blocks with codes -/

/-- What a symbol of the main code stands for. -/
inductive Item where
  | literal (b : UInt8)
  | finish
  | copy (length distance : Nat)
  deriving DecidableEq, Repr

/-- The least length of a repetition for a symbol from 257 on, and how many bits are added to it. -/
def lengths : List (Nat × Nat) :=
  [(3, 0), (4, 0), (5, 0), (6, 0), (7, 0), (8, 0), (9, 0), (10, 0), (11, 1), (13, 1), (15, 1), (17, 1),
   (19, 2), (23, 2), (27, 2), (31, 2), (35, 3), (43, 3), (51, 3), (59, 3), (67, 4), (83, 4), (99, 4),
   (115, 4), (131, 5), (163, 5), (195, 5), (227, 5), (258, 0)]

/-- The least distance of a repetition for a symbol, and how many bits are added to it. -/
def distances : List (Nat × Nat) :=
  [(1, 0), (2, 0), (3, 0), (4, 0), (5, 1), (7, 1), (9, 2), (13, 2), (17, 3), (25, 3), (33, 4), (49, 4),
   (65, 5), (97, 5), (129, 6), (193, 6), (257, 7), (385, 7), (513, 8), (769, 8), (1025, 9), (1537, 9),
   (2049, 10), (3073, 10), (4097, 11), (6145, 11), (8193, 12), (12289, 12), (16385, 13), (24577, 13)]

/-- A number that begins at an entry of a table and has bits added to it. -/
def takeFrom (table : List (Nat × Nat)) (i : Nat) (bits : List Bool) :
    Except Stop (Nat × List Bool) := do
  match table[i]? with
  | none => throw .corrupt
  | some (least, extra) =>
    let (n, bits) ← takeNumber extra bits
    return (least + n, bits)

/-- The item that comes next. -/
def item (codes : Codes) (bits : List Bool) : Except Stop (Item × List Bool) := do
  let (symbol, bits) ← codes.main.symbol bits
  if symbol < 256 then return (.literal (UInt8.ofNat symbol), bits)
  else if symbol = 256 then return (.finish, bits)
  else
    let (length, bits) ← takeFrom lengths (symbol - 257) bits
    let (i, bits) ← codes.distance.symbol bits
    let (distance, bits) ← takeFrom distances i bits
    return (.copy length distance, bits)

/-- What was unpacked so far. -/
abbrev Window := Array UInt8

/-- Repeats what stands a distance back. What stands before all content is zero. -/
def repeatBack (distance : Nat) : (length : Nat) → Window → Window
  | 0, done => done
  | n + 1, done =>
    let b := if distance ≤ done.size then done.getD (done.size - distance) 0 else 0
    repeatBack distance n (done.push b)

/-- What was unpacked, and the bits after it. -/
abbrev Unpacked := Except Stop (Window × List Bool)

/-- Unpacks items to the end of a block. Each takes a bit at least, so `n` may be the number of
bits. -/
def unpackItems (codes : Codes) : (n : Nat) → Window → List Bool → Unpacked
  | 0, _, _ => .error .truncated
  | n + 1, done, bits =>
    match item codes bits with
    | .error e => .error e
    | .ok (.literal b, bits) => unpackItems codes n (done.push b) bits
    | .ok (.finish, bits) => .ok (done, bits)
    | .ok (.copy length distance, bits) =>
      unpackItems codes n (repeatBack distance length done) bits

/-- The order in which the lengths of the words for lengths are given. -/
def lengthOrder : List Nat := [16, 17, 18, 0, 8, 7, 9, 6, 10, 5, 11, 4, 12, 3, 13, 2, 14, 1, 15]

/-- Takes `n` numbers of three bits. -/
def takeTriples : (n : Nat) → List Bool → Except Stop (List Nat × List Bool)
  | 0, bits => .ok ([], bits)
  | n + 1, bits => do
    let (k, bits) ← takeNumber 3 bits
    let (ks, bits) ← takeTriples n bits
    return (k :: ks, bits)

/-- What a symbol of the code for lengths adds to the lengths, of which `done` are known, the latest
first. -/
def addLengths (symbol : Nat) (done : List Nat) (bits : List Bool) :
    Except Stop (List Nat × List Bool) := do
  if symbol < 16 then return (symbol :: done, bits)
  else if symbol = 16 then
    match done with
    | [] => throw .corrupt
    | last :: _ =>
      let (n, bits) ← takeNumber 2 bits
      return (List.replicate (3 + n) last ++ done, bits)
  else if symbol = 17 then
    let (n, bits) ← takeNumber 3 bits
    return (List.replicate (3 + n) 0 ++ done, bits)
  else
    let (n, bits) ← takeNumber 7 bits
    return (List.replicate (11 + n) 0 ++ done, bits)

/-- Takes lengths until there are `total`; every symbol gives one at least, so `n` may be the
total. -/
def takeLengths (code : Prefixes) (total : Nat) : (n : Nat) → (done : List Nat) → List Bool →
    Except Stop (List Nat × List Bool)
  | 0, done, bits => if done.length = total then .ok (done.reverse, bits) else .error .corrupt
  | n + 1, done, bits =>
    if total ≤ done.length then
      if done.length = total then .ok (done.reverse, bits) else .error .corrupt
    else do
      let (symbol, bits) ← code.symbol bits
      let (done, bits) ← addLengths symbol done bits
      takeLengths code total n done bits

/-- A code for lengths. -/
def lengthCode (lengths : List Nat) : Except Stop Prefixes :=
  let code := Prefixes.ofLengths lengths
  if code.isComplete then .ok code else .error .corrupt

/-- A code for content, which may have less than two words. -/
def contentCode (lengths : List Nat) : Except Stop Prefixes :=
  let code := Prefixes.ofLengths lengths
  if code.isComplete || code.isSingle then .ok code else .error .corrupt

/-- The codes that a block brings. -/
def takeCodes (bits : List Bool) : Except Stop (Codes × List Bool) := do
  let (a, bits) ← takeNumber 5 bits
  let (b, bits) ← takeNumber 5 bits
  let (c, bits) ← takeNumber 4 bits
  let main := 257 + a
  let distance := 1 + b
  if 286 < main ∨ 30 < distance then throw .corrupt
  let (triples, bits) ← takeTriples (4 + c) bits
  let given := lengthOrder.zip triples
  let code ← lengthCode ((List.range 19).map fun i => (given.lookup i).getD 0)
  let (lengths, bits) ← takeLengths code (main + distance) (main + distance) [] bits
  let distanceCode ← contentCode (lengths.drop main)
  let mainCode ← contentCode (lengths.take main)
  return (⟨mainCode, distanceCode⟩, bits)

/-! ## Blocks -/

/-- Takes `n` bytes. -/
def takeBytes : (n : Nat) → Window → List Bool → Unpacked
  | 0, done, bits => .ok (done, bits)
  | n + 1, done, bits =>
    match takeNumber 8 bits with
    | .error e => .error e
    | .ok (b, bits) => takeBytes n (done.push (UInt8.ofNat b)) bits

/-- Unpacks a block that is stored as it is. It begins with a whole byte. -/
def unpackStored (done : Window) (bits : List Bool) : Unpacked := do
  let (n, bits) ← takeNumber 16 (bits.drop (bits.length % 8))
  let (m, bits) ← takeNumber 16 bits
  if n + m = 0xFFFF then takeBytes n done bits else throw .corrupt

/-- Unpacks a block of a kind. -/
def unpackBlock (kind : Nat) (done : Window) (bits : List Bool) : Unpacked :=
  if kind = 0 then unpackStored done bits
  else if kind = 1 then unpackItems fixedCodes bits.length done bits
  else if kind = 2 then do
    let (codes, bits) ← takeCodes bits
    unpackItems codes bits.length done bits
  else .error .corrupt

/-- Unpacks blocks up to the last one. Each takes a bit at least, so `n` may be the number of bits. -/
def unpackBlocks : (n : Nat) → Window → List Bool → Unpacked
  | 0, _, _ => .error .truncated
  | n + 1, done, bits => do
    let (last, bits) ← takeNumber 1 bits
    let (kind, bits) ← takeNumber 2 bits
    let (done, bits) ← unpackBlock kind done bits
    if last = 1 then return (done, bits) else unpackBlocks n done bits

/-- Unpacks a compressed content. What comes after its last block does not count. -/
def inflate (packed : Bytes) : Except Stop Bytes := do
  let bits := packed.flatMap bitsOf
  let (done, _) ← unpackBlocks bits.length #[] bits
  return done.toList

end EventScript.Archive
