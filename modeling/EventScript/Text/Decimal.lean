import EventScript.Text.Blank

/-!
# Decimal numerals

Numbers are written with the fewest digits. A numeral that is read may have leading zeros, and
`unsigned?` allows one plus sign in front.
-/

namespace EventScript.Text

/-- The digits of a number, without leading zeros. -/
def decimal (n : Nat) : String := String.ofList (Nat.toDigits 10 n)

/-- The digits of an integer, after a minus sign if it is negative. -/
def signedDecimal (i : Int) : String :=
  if i < 0 then "-" ++ decimal i.natAbs else decimal i.natAbs

/-- The number that a non-empty run of digits stands for. -/
def numeral? (cs : List Char) : Option Nat :=
  if cs.isEmpty || !cs.all isDigit then none else some (Nat.ofDigitChars 10 cs 0)

/-- The number that a run of digits stands for, if it is at most `most`. -/
def boundedNumeral? (most : Nat) (cs : List Char) : Option Nat :=
  (numeral? cs).filter fun n => n ≤ most

/-- A numeral of at most `most` with an optional plus sign. -/
def unsigned? (most : Nat) : List Char → Option Nat
  | '+' :: cs => boundedNumeral? most cs
  | cs => boundedNumeral? most cs

/-- The largest 64-bit word. -/
def maxWord64 : Nat := 18446744073709551615

/-- Two upper-case hexadecimal digits. -/
def hexByte (b : UInt8) : String :=
  String.ofList ((Nat.toDigits 16 (b.toNat / 16) ++ Nat.toDigits 16 (b.toNat % 16)).map Char.toUpper)

/-- Lower-case hexadecimal digits without leading zeros. -/
def hexadecimal (n : Nat) : String := String.ofList (Nat.toDigits 16 n)

end EventScript.Text
