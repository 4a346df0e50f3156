/-!
# UTF-8

`encode` writes a text as UTF-8. Reading goes byte by byte through `Progress`: every maximal
stretch of bytes that cannot be part of a character counts as one bad spot. `decode?` refuses bad
spots and `decodeLossy` shows each as U+FFFD.
-/

namespace EventScript

/-- A run of bytes. -/
abbrev Bytes := List UInt8

namespace Utf8

/-- The UTF-8 bytes of a text. -/
def encode (s : String) : Bytes := s.toList.flatMap String.utf8EncodeChar

/-- How far the reading of one character has come. -/
inductive Progress where
  /-- No byte of the next character has been read. -/
  | fresh
  /-- `missing` more bytes are due, the next of them between `low` and `high`; those read so far
  give `value`. -/
  | within (value missing low high : Nat)

/-- What the first byte of a character does: it is one by itself, it opens a longer one, or it can
begin none. -/
def first (b : UInt8) : List (Option Char) × Progress :=
  let n := b.toNat
  if n < 0x80 then ([some (Char.ofNat n)], .fresh)
  else if n < 0xC2 then ([none], .fresh)
  else if n < 0xE0 then ([], .within (n - 0xC0) 1 0x80 0xBF)
  else if n = 0xE0 then ([], .within 0 2 0xA0 0xBF)
  else if n = 0xED then ([], .within 13 2 0x80 0x9F)
  else if n < 0xF0 then ([], .within (n - 0xE0) 2 0x80 0xBF)
  else if n = 0xF0 then ([], .within 0 3 0x90 0xBF)
  else if n < 0xF4 then ([], .within (n - 0xF0) 3 0x80 0xBF)
  else if n = 0xF4 then ([], .within 4 3 0x80 0x8F)
  else ([none], .fresh)

/-- What one byte adds: characters and bad spots that are now complete, and where reading stands.
A byte that does not continue a character ends it as a bad spot and is read as a first byte. -/
def step : Progress → UInt8 → List (Option Char) × Progress
  | .fresh, b => first b
  | .within value missing low high, b =>
    let n := b.toNat
    if low ≤ n && n ≤ high then
      let value := value * 64 + (n - 0x80)
      if missing ≤ 1 then ([some (Char.ofNat value)], .fresh)
      else ([], .within value (missing - 1) 0x80 0xBF)
    else (none :: (first b).1, (first b).2)

/-- The characters of a run of bytes from a given point on, `none` for each bad spot. -/
def scan : Progress → Bytes → List (Option Char)
  | .fresh, [] => []
  | .within _ _ _ _, [] => [none]
  | p, b :: bs => (step p b).1 ++ scan (step p b).2 bs

/-- The text of a run of bytes, each bad spot shown as U+FFFD. -/
def decodeLossy (bs : Bytes) : String :=
  String.ofList ((scan .fresh bs).map fun c => c.getD '\uFFFD')

/-- The text of a run of bytes that has no bad spot. -/
def decode? (bs : Bytes) : Option String :=
  let cs := scan .fresh bs
  if cs.all Option.isSome then some (String.ofList (cs.filterMap id)) else none

end Utf8

end EventScript
