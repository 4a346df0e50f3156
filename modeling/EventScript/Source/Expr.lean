import EventScript.Name
import EventScript.Operator

/-!
# Values as the script text writes them

`Operand`, `Object` and `Expr` are what a line says, with names in place of ordinals. `print` gives
the text that listings show.
-/

namespace EventScript.Source

mutual

/-- A single value of the script text. -/
inductive Operand where
  | int (value : Int)
  | str (text : String)
  /-- An item or a map, written `<name>`. -/
  | bracket (name : String)
  | flag (name : String)
  | var (slot : UInt8)
  | field (object : Object) (reference : String)
  | call (routine : String) (arguments : List Expr)
  /-- A routine of an object; only listings mark a value with `async`. -/
  | objectCall (async : Bool) (object : Object) (routine : String) (arguments : List Expr)

/-- What a field or a routine belongs to. -/
inductive Object where
  | builtin (which : Builtin)
  | named (name : String)
  /-- The object that a value refers to. -/
  | dynamic (value : Operand)

/-- Operands joined by operators. -/
inductive Expr where
  | last (operand : Operand)
  | more (operand : Operand) (operator : Operator) (rest : Expr)

end

/-- A character inside a string literal. -/
def literalChar (c : Char) : List Char :=
  if c = '"' then ['\\', '"']
  else if c = '\\' then ['\\', '\\']
  else if c = '\n' then ['\\', 'n']
  else [c]

/-- A string literal. -/
def quote (s : String) : String :=
  String.ofList ('"' :: s.toList.flatMap literalChar ++ ['"'])

mutual

/-- The text of an operand. -/
def Operand.print : Operand → String
  | .int value => Text.signedDecimal value
  | .str text => quote text
  | .bracket name => "<" ++ name ++ ">"
  | .flag name => name
  | .var slot => Name.withNumber "var" slot.toNat
  | .field object reference => object.print ++ "." ++ reference
  | .call routine arguments => routine ++ "(" ++ printArguments arguments ++ ")"
  | .objectCall async object routine arguments =>
    (if async then "async " else "") ++ object.print ++ "." ++ routine ++ "("
      ++ printArguments arguments ++ ")"

/-- The text of an object. -/
def Object.print : Object → String
  | .builtin which => which.name
  | .named name => quote name
  | .dynamic value => value.print

/-- The text of an expression. -/
def Expr.print : Expr → String
  | .last operand => operand.print
  | .more operand operator rest => operand.print ++ " " ++ operator.text ++ " " ++ rest.print

/-- The text of the arguments of a call. -/
def printArguments : List Expr → String
  | [] => ""
  | e :: es => e.print ++ printFurther es

/-- The text of the arguments that follow another. -/
def printFurther : List Expr → String
  | [] => ""
  | e :: es => ", " ++ e.print ++ printFurther es

end

end EventScript.Source
