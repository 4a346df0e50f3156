import EventScript.Operator
import EventScript.Text.Quoted

/-!
# Tokens

The pieces of a line: names, integers, quoted strings, labels `#N`, the marker `<ScriptRv>` and
symbols. `Token.display` is how messages show a token.
-/

namespace EventScript.Source

/-- The symbols of the script text. -/
inductive Symbol where
  | notEqual
  | lessEqual
  | greaterEqual
  | equal
  | less
  | greater
  | plus
  | minus
  | times
  | divide
  | percent
  | leftParen
  | rightParen
  | comma
  | dot
  | colon
  | atSign
  | leftBrace
  | rightBrace
  deriving DecidableEq, Repr

namespace Symbol

/-- The spelling of a symbol. -/
def text : Symbol → String
  | notEqual => "!="
  | lessEqual => "<="
  | greaterEqual => ">="
  | equal => "="
  | less => "<"
  | greater => ">"
  | plus => "+"
  | minus => "-"
  | times => "*"
  | divide => "/"
  | percent => "%"
  | leftParen => "("
  | rightParen => ")"
  | comma => ","
  | dot => "."
  | colon => ":"
  | atSign => "@"
  | leftBrace => Text.leftBrace
  | rightBrace => Text.rightBrace

/-- The symbol made of one character. -/
def ofChar? : Char → Option Symbol
  | '=' => some equal
  | '<' => some less
  | '>' => some greater
  | '+' => some plus
  | '-' => some minus
  | '*' => some times
  | '/' => some divide
  | '%' => some percent
  | '(' => some leftParen
  | ')' => some rightParen
  | ',' => some comma
  | '.' => some dot
  | ':' => some colon
  | '@' => some atSign
  | '{' => some leftBrace
  | '}' => some rightBrace
  | _ => none

/-- The symbol made of a character and an equals sign. -/
def withEqual? : Char → Option Symbol
  | '!' => some notEqual
  | '<' => some lessEqual
  | '>' => some greaterEqual
  | _ => none

/-- The operator that a symbol stands for. -/
def operator? : Symbol → Option Operator
  | plus => some .add
  | minus => some .sub
  | times => some .mul
  | divide => some .div
  | percent => some .mod
  | _ => none

/-- The comparator that a symbol stands for. -/
def comparator? : Symbol → Option Comparator
  | equal => some .equal
  | notEqual => some .notEqual
  | less => some .less
  | greater => some .greater
  | lessEqual => some .lessEqual
  | greaterEqual => some .greaterEqual
  | _ => none

end Symbol

/-- The name of the marker for the value that the last call gave back. -/
def resultMarker : String := "ScriptRv"

/-- A piece of a line. -/
inductive Token where
  | ident (name : String)
  | int (value : Nat)
  | str (text : String)
  | label (number : UInt32)
  /-- The marker `<ScriptRv>`. -/
  | result
  | sym (symbol : Symbol)
  deriving DecidableEq, Repr

/-- A token as messages show it. -/
def Token.display : Token → String
  | ident name => "Ident(" ++ Text.quoted name ++ ")"
  | int value => "Int(" ++ Text.decimal value ++ ")"
  | str text => "Str(" ++ Text.quoted text ++ ")"
  | label number => "Label(" ++ Text.decimal number.toNat ++ ")"
  | result => "ScriptRv"
  | sym symbol => "Sym(" ++ Text.quoted symbol.text ++ ")"

end EventScript.Source
