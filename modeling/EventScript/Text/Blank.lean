/-!
# Blank characters

`isBlank` is the Unicode property White_Space. `trim` and its two halves drop blanks at the ends of
a text, and `words` cuts a text at its runs of blanks.
-/

namespace EventScript.Text

/-- The code points of the Unicode property White_Space, as closed ranges. -/
def blankRanges : List (Nat × Nat) :=
  [(0x09, 0x0D), (0x20, 0x20), (0x85, 0x85), (0xA0, 0xA0), (0x1680, 0x1680), (0x2000, 0x200A),
   (0x2028, 0x2029), (0x202F, 0x202F), (0x205F, 0x205F), (0x3000, 0x3000)]

/-- A character with the property White_Space. -/
def isBlank (c : Char) : Bool :=
  blankRanges.any fun r => r.1 ≤ c.toNat && c.toNat ≤ r.2

/-- Drops the blanks at the front. -/
def trimStart (cs : List Char) : List Char := cs.dropWhile isBlank

/-- Drops the blanks at the end. -/
def trimEnd (cs : List Char) : List Char := (cs.reverse.dropWhile isBlank).reverse

/-- Drops the blanks at both ends. -/
def trim (cs : List Char) : List Char := trimEnd (trimStart cs)

/-- A letter of the basic Latin alphabet. -/
def isLetter (c : Char) : Bool := ('a' ≤ c && c ≤ 'z') || ('A' ≤ c && c ≤ 'Z')

/-- A decimal digit `0` to `9`. -/
def isDigit (c : Char) : Bool := '0' ≤ c && c ≤ '9'

/-- Lower case for the letters of the basic Latin alphabet; other characters stay. -/
def lower (c : Char) : Char :=
  if 'A' ≤ c && c ≤ 'Z' then Char.ofNat (c.toNat + 32) else c

/-- Equal up to the case of the letters of the basic Latin alphabet. -/
def sameUpToCase (a b : List Char) : Bool := a.map lower == b.map lower

/-- The pieces of a text between its runs of blanks, after a piece whose characters so far are
`piece`, last one first. -/
def wordsAfter (piece : List Char) : List Char → List (List Char)
  | [] => if piece.isEmpty then [] else [piece.reverse]
  | c :: cs =>
    if isBlank c then
      if piece.isEmpty then wordsAfter [] cs else piece.reverse :: wordsAfter [] cs
    else wordsAfter (c :: piece) cs

/-- The pieces of a text between its runs of blanks, none of them empty. -/
def words (cs : List Char) : List (List Char) := wordsAfter [] cs

/-- Cuts a text at the first `d`, which belongs to neither half. -/
def cutAt? (d : Char) : List Char → Option (List Char × List Char)
  | [] => none
  | c :: cs => if c = d then some ([], cs) else (cutAt? d cs).map fun p => (c :: p.1, p.2)

/-- What follows `start` in a text that begins with it. -/
def after? : (start : List Char) → List Char → Option (List Char)
  | [], cs => some cs
  | _ :: _, [] => none
  | s :: start, c :: cs => if s = c then after? start cs else none

end EventScript.Text
