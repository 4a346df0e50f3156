import EventScript.Catalog.Symbol
import EventScript.Code.Basic
import EventScript.Source.Expr

/-!
# Names for code

`toSource` gives the names of a catalog to code, and `remarks` the dialogue texts that its arguments
refer to. The names do not depend on the dialogue texts.
-/

namespace EventScript.Code

/-- What names are taken from. -/
structure Names where
  catalog : Catalog
  strings : List String

namespace Names

/-- The string with an index. -/
def string (names : Names) (index : UInt32) : String := (names.strings[index.toNat]?).getD ""

/-- The string that a number is the index of. -/
def label? (names : Names) (value : Int32) : Option String :=
  if 0 ≤ value then names.strings[value.toInt.toNat]? else none

/-- The name that a table has for a number. -/
def entry? (names : Names) (table : Table) (value : Int32) : Option String :=
  if 0 ≤ value then names.catalog.name? table value.toInt.toNat else none

/-- A number that may stand for a dialogue label, an item or a map. -/
def flexible (names : Names) (kind : Option ArgumentKind) (value : Int32) : Source.Operand :=
  match kind with
  | some .dialogue => ((names.label? value).map .str).getD (.int value.toInt)
  | some .item => ((names.entry? .items value).map .bracket).getD (.int value.toInt)
  | some .map => ((names.entry? .maps value).map .bracket).getD (.int value.toInt)
  | none => .int value.toInt

/-- The dialogue text that a number refers to. -/
def remark? (names : Names) (kind : Option ArgumentKind) (value : Int32) : Option String :=
  if kind = some .dialogue then (names.label? value).bind names.catalog.dialogueText? else none

/-- What the argument at a position of a routine stands for; only a routine with a name has such
arguments. -/
def kind? (names : Names) (routine : UInt16) (index : Nat) : Option ArgumentKind :=
  (names.catalog.name? .routines routine.toNat).bind fun name => ArgumentKind.of? name index

end Names

mutual

/-- An operand with names. -/
def Operand.toSource (names : Names) (kind : Option ArgumentKind) : Operand → Source.Operand
  | .flag ordinal => .flag (names.catalog.printedName .flag ordinal.toNat)
  | .var slot => .var slot
  | .field object reference =>
    .field (object.toSource names) (names.catalog.printedName .reference reference.toNat)
  | .literal value => .int value.toInt
  | .flexible value => names.flexible kind value
  | .string index => .str (names.string index)
  | .call routine arguments =>
    .call (names.catalog.printedName .routine routine.toNat)
      (argumentsToSource names routine 0 arguments)
  | .objectCall object mode routine arguments =>
    .objectCall (mode == .async) (object.toSource names)
      (names.catalog.printedName .routine routine.toNat) (argumentsToSource names routine 0 arguments)

/-- An object with names. -/
def Object.toSource (names : Names) : Object → Source.Object
  | .builtin which => .builtin which
  | .named index => .named (names.string index)
  | .dynamic value => .dynamic (value.toSource names none)

/-- The arguments of a routine from a position on, with names. -/
def argumentsToSource (names : Names) (routine : UInt16) (index : Nat) :
    List Operand → List Source.Expr
  | [] => []
  | a :: as =>
    .last (a.toSource names (names.kind? routine index)) ::
      argumentsToSource names routine (index + 1) as

end

mutual

/-- The dialogue texts that an operand refers to. -/
def Operand.remarks (names : Names) (kind : Option ArgumentKind) : Operand → List String
  | .field object _ => object.remarks names
  | .flexible value => (names.remark? kind value).toList
  | .call routine arguments => argumentRemarks names routine 0 arguments
  | .objectCall object _ routine arguments =>
    object.remarks names ++ argumentRemarks names routine 0 arguments
  | .flag _ => []
  | .var _ => []
  | .literal _ => []
  | .string _ => []

/-- The dialogue texts that an object refers to. -/
def Object.remarks (names : Names) : Object → List String
  | .dynamic value => value.remarks names none
  | .builtin _ => []
  | .named _ => []

/-- The dialogue texts that the arguments of a routine from a position on refer to. -/
def argumentRemarks (names : Names) (routine : UInt16) (index : Nat) : List Operand → List String
  | [] => []
  | a :: as =>
    a.remarks names (names.kind? routine index) ++ argumentRemarks names routine (index + 1) as

end

/-- A formula with names. -/
def Formula.toSource (names : Names) : Formula → Source.Expr
  | last operand => .last (operand.toSource names none)
  | more operand operator rest =>
    .more (operand.toSource names none) operator (rest.toSource names)

/-- The dialogue texts that a formula refers to. -/
def Formula.remarks (names : Names) : Formula → List String
  | last operand => operand.remarks names none
  | more operand _ rest => operand.remarks names none ++ rest.remarks names

/-- The text of a comparison. -/
def Comparison.text (names : Names) (c : Comparison) : String :=
  (c.left.toSource names).print ++ " " ++ c.comparator.text ++ " " ++ (c.right.toSource names).print

/-- The text of a condition. -/
def Condition.text (names : Names) : Condition → String
  | last comparison => comparison.text names
  | more comparison conjunction rest =>
    comparison.text names ++ " " ++ conjunction.text ++ " " ++ rest.text names

/-- The dialogue texts that a comparison refers to. -/
def Comparison.remarks (names : Names) (c : Comparison) : List String :=
  c.left.remarks names ++ c.right.remarks names

/-- The dialogue texts that a condition refers to. -/
def Condition.remarks (names : Names) : Condition → List String
  | last comparison => comparison.remarks names
  | more comparison _ rest => comparison.remarks names ++ rest.remarks names

/-- The text of a guard. -/
def Guard.text (names : Names) : Guard → String
  | condition c => "if " ++ c.text names
  | result value => "if <ScriptRv> = " ++ Text.decimal value.toNat

/-- The dialogue texts that a guard refers to. -/
def Guard.remarks (names : Names) : Guard → List String
  | condition c => c.remarks names
  | result _ => []

/-- A label as scripts write it. -/
def labelText (label : UInt32) : String := "#" ++ Text.decimal label.toNat

/-- A jump with an optional target. -/
def jumpText (word : String) : Option UInt32 → String
  | none => word
  | some label => word ++ " " ++ labelText label

/-- The word in front of a statement that calls a routine. -/
def callWord : CallMode → String
  | .task => ""
  | .async => "async "
  | .function => "call "

/-- The text of a statement without a block. -/
def Action.text (names : Names) : Action → String
  | call mode routine arguments =>
    callWord mode ++ ((Operand.call routine arguments).toSource names none).print
  | objectCall object mode routine arguments =>
    callWord mode ++ ((Operand.objectCall object .function routine arguments).toSource names none).print
  | assign place formula =>
    (place.operand.toSource names none).print ++ " = " ++ (formula.toSource names).print
  | goto target => jumpText "goto" target
  | stop target => jumpText "end" target
  | gosub target => jumpText "gosub" (some target)
  | pause target => jumpText "@pause" (some target)
  | anchor value => "@anchor " ++ Text.decimal value.toNat
  | leave => "return"
  | leaveInterrupt => "endint"

/-- The dialogue texts that a statement without a block refers to. -/
def Action.remarks (names : Names) : Action → List String
  | call _ routine arguments => argumentRemarks names routine 0 arguments
  | objectCall object _ routine arguments =>
    object.remarks names ++ argumentRemarks names routine 0 arguments
  | assign place formula => place.operand.remarks names none ++ formula.remarks names
  | _ => []

end EventScript.Code
