import EventScript.Text.Blank

/-!
# JSON

A reader for JSON texts, as far as settings need it: numbers are read and forgotten, and a string
whose escapes name no characters has no text.
-/

namespace EventScript

/-- A JSON value. -/
inductive Json where
  | null
  | boolean (b : Bool)
  | number
  /-- A string; `none` if its escapes name no characters. -/
  | string (text : Option String)
  | array (items : List Json)
  | object (members : List (Option String × Json))

namespace Json

/-- Drops white space. -/
def skip (cs : List Char) : List Char :=
  cs.dropWhile fun c => c == ' ' || c == '\n' || c == '\t' || c == '\r'

/-! ## Strings -/

/-- A part of a string: a character, or an escape by its number. -/
inductive Piece where
  | plain (c : Char)
  | escape (unit : Nat)
  deriving DecidableEq, Repr

/-- The value of a hexadecimal digit. -/
def digit? (c : Char) : Option Nat :=
  if '0' ≤ c ∧ c ≤ '9' then some (c.toNat - '0'.toNat)
  else if 'a' ≤ c ∧ c ≤ 'f' then some (c.toNat - 'a'.toNat + 10)
  else if 'A' ≤ c ∧ c ≤ 'F' then some (c.toNat - 'A'.toNat + 10)
  else none

/-- The number of four hexadecimal digits. -/
def unit? (a b c d : Char) : Option Nat := do
  return (((← digit? a) * 16 + (← digit? b)) * 16 + (← digit? c)) * 16 + (← digit? d)

/-- The character that a letter after a backslash stands for. -/
def escaped? : Char → Option Char
  | '"' => some '"'
  | '\\' => some '\\'
  | '/' => some '/'
  | 'b' => some '\x08'
  | 'f' => some '\x0c'
  | 'n' => some '\n'
  | 'r' => some '\r'
  | 't' => some '\t'
  | _ => none

/-- The parts of a string up to its closing quote, and the text after it. -/
def pieces : List Char → Option (List Piece × List Char)
  | [] => none
  | '"' :: rest => some ([], rest)
  | '\\' :: 'u' :: a :: b :: c :: d :: rest => do
    let unit ← unit? a b c d
    let (ps, rest) ← pieces rest
    return (.escape unit :: ps, rest)
  | '\\' :: e :: rest => do
    let c ← escaped? e
    let (ps, rest) ← pieces rest
    return (.plain c :: ps, rest)
  | c :: rest =>
    if c.toNat < 32 then none
    else do
      let (ps, rest) ← pieces rest
      return (.plain c :: ps, rest)

/-- Whether a number is the first half of a character's two. -/
def isHigh (unit : Nat) : Bool := decide (0xD800 ≤ unit) && decide (unit < 0xDC00)

/-- Whether a number is the second half of a character's two. -/
def isLow (unit : Nat) : Bool := decide (0xDC00 ≤ unit) && decide (unit < 0xE000)

/-- The characters of parts. Two halves of a character have to stand together. -/
def characters : List Piece → Option (List Char)
  | [] => some []
  | .plain c :: ps => (characters ps).map fun cs => c :: cs
  | .escape u :: ps =>
    if isHigh u then
      match ps with
      | .escape v :: ps =>
        if isLow v then
          (characters ps).map fun cs =>
            Char.ofNat (0x10000 + (u - 0xD800) * 0x400 + (v - 0xDC00)) :: cs
        else none
      | _ => none
    else if isLow u then none
    else (characters ps).map fun cs => Char.ofNat u :: cs

/-- The text of a string after its opening quote, and the text after it. -/
def string? (cs : List Char) : Option (Option String × List Char) :=
  (pieces cs).map fun p => ((characters p.1).map String.ofList, p.2)

/-! ## Numbers -/

/-- The text after one digit or more. -/
def afterDigits? (cs : List Char) : Option (List Char) :=
  match cs with
  | c :: _ => if Text.isDigit c then some (cs.dropWhile Text.isDigit) else none
  | [] => none

/-- The text after the whole part of a number, which has no zero in front. -/
def afterWhole? : List Char → Option (List Char)
  | '0' :: rest =>
    match rest with
    | c :: _ => if Text.isDigit c then none else some rest
    | [] => some []
  | cs => afterDigits? cs

/-- The text after the fraction of a number, if there is one. -/
def afterFraction? : List Char → Option (List Char)
  | '.' :: rest => afterDigits? rest
  | cs => some cs

/-- The text after the exponent of a number, if there is one. -/
def afterExponent? : List Char → Option (List Char)
  | e :: rest =>
    if e == 'e' || e == 'E' then
      match rest with
      | s :: digits => if s == '+' || s == '-' then afterDigits? digits else afterDigits? rest
      | [] => none
    else some (e :: rest)
  | [] => some []

/-- The text after a number. -/
def afterNumber? (cs : List Char) : Option (List Char) := do
  let unsigned :=
    match cs with
    | '-' :: rest => rest
    | _ => cs
  let cs ← afterWhole? unsigned
  let cs ← afterFraction? cs
  afterExponent? cs

/-! ## Values -/

mutual

/-- Reads a value and gives the text after it. Each value takes a character at least, and one more
goes with it inside of another value, so `n` may be twice the number of characters. -/
def value? : (n : Nat) → List Char → Option (Json × List Char)
  | 0, _ => none
  | n + 1, cs =>
    match skip cs with
    | '"' :: rest => (string? rest).map fun p => (.string p.1, p.2)
    | '[' :: rest =>
      match skip rest with
      | ']' :: rest => some (.array [], rest)
      | rest => (items? n rest).map fun p => (.array p.1, p.2)
    | '{' :: rest =>
      match skip rest with
      | '}' :: rest => some (.object [], rest)
      | rest => (members? n rest).map fun p => (.object p.1, p.2)
    | 'n' :: 'u' :: 'l' :: 'l' :: rest => some (.null, rest)
    | 't' :: 'r' :: 'u' :: 'e' :: rest => some (.boolean true, rest)
    | 'f' :: 'a' :: 'l' :: 's' :: 'e' :: rest => some (.boolean false, rest)
    | cs => (afterNumber? cs).map fun rest => (.number, rest)

/-- Reads items up to a closing bracket. -/
def items? : (n : Nat) → List Char → Option (List Json × List Char)
  | 0, _ => none
  | n + 1, cs => do
    let (v, rest) ← value? n cs
    match skip rest with
    | ',' :: rest =>
      let (vs, rest) ← items? n rest
      return (v :: vs, rest)
    | ']' :: rest => return ([v], rest)
    | _ => none

/-- Reads members up to a closing brace. -/
def members? : (n : Nat) → List Char → Option (List (Option String × Json) × List Char)
  | 0, _ => none
  | n + 1, cs => do
    match skip cs with
    | '"' :: rest =>
      let (key, rest) ← string? rest
      match skip rest with
      | ':' :: rest =>
        let (v, rest) ← value? n rest
        match skip rest with
        | ',' :: rest =>
          let (vs, rest) ← members? n rest
          return ((key, v) :: vs, rest)
        | '}' :: rest => return ([(key, v)], rest)
        | _ => none
      | _ => none
    | _ => none

end

/-- The value of a text. Only white space may follow it. -/
def ofText? (text : String) : Option Json :=
  let cs := text.toList
  match value? (2 * cs.length + 1) cs with
  | some (v, rest) => if (skip rest).isEmpty then some v else none
  | none => none

/-- The text of a string. -/
def text? : Json → Option String
  | .string text => text
  | _ => none

/-- The truth value that a value is. -/
def boolean? : Json → Option Bool
  | .boolean b => some b
  | _ => none

/-- The texts of an array of strings. -/
def texts? : Json → Option (List String)
  | .array items => items.mapM text?
  | _ => none

end Json

end EventScript
