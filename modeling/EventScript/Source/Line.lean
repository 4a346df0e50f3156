import EventScript.Catalog.Basic
import EventScript.Source.Fault
import EventScript.Source.Lexer

/-!
# Preparing the lines of a script

Before a line is cut into tokens its comment goes, blanks after commas go, the shorthands `x++`,
`x--`, `x += e` and `x -= e` are written out, and `<Name>` is replaced by the ordinal of the map or
item. None of this touches the inside of string literals; `Quoting` follows them through a line.
-/

namespace EventScript.Source

/-- Where a scan of a line stands with respect to string literals. -/
inductive Quoting where
  | outside
  | inside
  /-- Inside, right after a backslash. -/
  | escaped
  deriving DecidableEq, Repr

/-- Where the scan stands after one more character. -/
def Quoting.next : Quoting → Char → Quoting
  | outside, c => if c = '"' then inside else outside
  | inside, c => if c = '\\' then escaped else if c = '"' then outside else inside
  | escaped, _ => inside

/-- The part of a line in front of its comment, without the spaces that follow a comma. `comma` says
that only spaces have come since a comma. -/
def uncommented (q : Quoting) (comma : Bool) : List Char → List Char
  | [] => []
  | c :: cs =>
    if comma && c == ' ' then uncommented q true cs
    else if q = .outside ∧ c = '/' ∧ cs.head? = some '/' then []
    else c :: uncommented (q.next c) (q == .outside && c == ',') cs

/-- A line without its comment, the spaces after its commas and the blanks at its ends. -/
def stripComment (line : List Char) : List Char :=
  Text.trim (uncommented .outside false line)

/-- Cuts a line at the first `a` followed by `b` outside string literals. -/
def cutOutside? (a b : Char) (q : Quoting) : List Char → Option (List Char × List Char)
  | [] => none
  | c :: cs =>
    if q = .outside ∧ c = a ∧ cs.head? = some b then some ([], cs.tail)
    else (cutOutside? a b (q.next c) cs).map fun p => (c :: p.1, p.2)

/-- The assignment `target = target op value`. -/
def writtenOut (target : List Char) (op : Char) (value : List Char) : List Char :=
  target ++ " = ".toList ++ target ++ [' ', op, ' '] ++ value

/-- What stands in front of a doubled character at the end of a line. -/
def beforeDoubled? (c : Char) (line : List Char) : Option (List Char) :=
  (Text.after? [c, c] line.reverse).map List.reverse

/-- A line with `x += e`, `x -= e`, `x++` or `x--` written out. -/
def expandCompound (line : List Char) : List Char :=
  match cutOutside? '+' '=' .outside line with
  | some (target, value) => writtenOut (Text.trim target) '+' (Text.trim value)
  | none =>
    match cutOutside? '-' '=' .outside line with
    | some (target, value) => writtenOut (Text.trim target) '-' (Text.trim value)
    | none =>
      match beforeDoubled? '+' line with
      | some target => writtenOut (Text.trim target) '+' ['1']
      | none =>
        match beforeDoubled? '-' line with
        | some target => writtenOut (Text.trim target) '-' ['1']
        | none => line

/-- The identifier between `<` and `>` at the front of a text. -/
def bracketName? (c : Char) (cs : List Char) : Option (List Char) :=
  let name := cs.takeWhile Name.isPart
  if c = '<' ∧ Name.isIdentifier name ∧ (cs.drop name.length).head? = some '>' then some name
  else none

/-- What `<name>` is replaced by: the marker `<ScriptRv>` stays, another name becomes its ordinal. -/
def bracketText (catalog : Catalog) (name : List Char) : Except Fault (List Char) :=
  let text := String.ofList name
  if text = resultMarker then .ok ('<' :: name ++ ['>'])
  else
    match catalog.bracketed? text with
    | some ordinal => .ok (Text.decimal ordinal).toList
    | none => .error (.unknownSymbol ("<" ++ text ++ ">"))

/-- Replaces `<Name>` outside string literals, from a point on where the next `skip` characters belong
to a name that has been replaced. -/
def substitute (catalog : Catalog) : Quoting → (skip : Nat) → List Char → Except Fault (List Char)
  | _, _, [] => .ok []
  | q, skip + 1, _ :: cs => substitute catalog q skip cs
  | q, 0, c :: cs =>
    match if q = .outside then bracketName? c cs else none with
    | some name => do
      let text ← bracketText catalog name
      return text ++ (← substitute catalog q (name.length + 1) cs)
    | none => do
      return c :: (← substitute catalog (q.next c) 0 cs)

/-- Replaces `<Name>` outside string literals. -/
def substituteBrackets (catalog : Catalog) (line : List Char) : Except Fault (List Char) :=
  substitute catalog .outside 0 line

/-- A line ready to be cut into tokens, or nothing if only its comment said something. -/
def prepared (catalog : Catalog) (raw : List Char) : Except Fault (Option (List Char)) :=
  let line := stripComment raw
  if line.isEmpty then .ok none
  else (substituteBrackets catalog (expandCompound line)).map some

/-- A line of script with its number. -/
structure Line where
  number : Nat
  text : List Char
  deriving DecidableEq, Repr

/-- The lines that are left to assemble, the first of the given lines having number `n`. A fault comes
with the number of its line. -/
def preparedFrom (catalog : Catalog) (n : Nat) : List String → Except (Nat × Fault) (List Line)
  | [] => .ok []
  | raw :: raws =>
    match prepared catalog raw.toList with
    | .error e => .error (n, e)
    | .ok none => preparedFrom catalog (n + 1) raws
    | .ok (some text) =>
      match preparedFrom catalog (n + 1) raws with
      | .error e => .error e
      | .ok rest => .ok (⟨n, text⟩ :: rest)

end EventScript.Source
