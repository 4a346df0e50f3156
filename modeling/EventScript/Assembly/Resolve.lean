import EventScript.Catalog.Symbol
import EventScript.Code.Basic
import EventScript.Source.Reading
import EventScript.Traced

/-!
# Code for values

`resolveOperand` finds the code for a value of the script text. A string is looked up in the strings
of the unit and added at the end if it is new. Calls with an unusual number of arguments are noted.
-/

namespace EventScript.Assembly

/-- A call whose number of arguments is not the declared one. -/
structure Arity where
  routine : String
  declared : Nat
  given : Nat
  deriving DecidableEq, Repr

/-- A step that may add strings to the unit. -/
abbrev Resolve := StateT (List String) (Traced Arity Source.Fault)

/-- Refuses the line. -/
def refuse {α : Type} (e : Source.Fault) : Resolve α := fun _ => Traced.fail e

/-- Notes a call. -/
def noteCall (a : Arity) : Resolve Unit := fun strings => ⟨[a], .ok ((), strings)⟩

/-- The index of a string, which is added if it is new. -/
def intern (text : String) : Resolve Nat := fun strings =>
  match strings.idxOf? text with
  | some index => Traced.value (index, strings)
  | none => Traced.value (strings.length, strings ++ [text])

/-- The code for a number; where the argument stands for something, that is left open. -/
def resolveNumber (kind : Option ArgumentKind) (value : Int) : Resolve Code.Operand := do
  let word ← Source.wordOf value
  return if kind.isSome then .flexible word else .literal word

/-- The ordinal of a routine that can be called with `count` arguments. The routine zero takes
none. -/
def resolveRoutine (catalog : Catalog) (name : String) (count : Nat) : Resolve UInt16 := do
  let ordinal ← catalog.resolve .routine name
  if ordinal = 0 then
    if count = 0 then return 0 else refuse (.takesNoArguments name)
  else if count ≤ 255 then
    match catalog.routine? ordinal with
    | some routine =>
      if routine.parameters = count then return UInt16.ofNat ordinal
      else
        noteCall ⟨name, routine.parameters, count⟩
        return UInt16.ofNat ordinal
    | none => return UInt16.ofNat ordinal
  else refuse (.tooManyArguments name)

mutual

/-- The code for an operand; `kind` says what it stands for if it is an argument. -/
def resolveOperand (catalog : Catalog) (kind : Option ArgumentKind) :
    Source.Operand → Resolve Code.Operand
  | .int value => resolveNumber kind value
  | .str text => do
    let index ← intern text
    if kind = some .dialogue then
      let word ← Source.wordOf index
      return .flexible word
    else return .string (UInt32.ofNat index)
  | .bracket name =>
    match catalog.bracketed? name with
    | some ordinal => resolveNumber kind ordinal
    | none => refuse (.unknownSymbol ("<" ++ name ++ ">"))
  | .flag name => do
    let ordinal ← catalog.resolve .flag name
    return .flag (UInt16.ofNat ordinal)
  | .var slot => return .var slot
  | .field object reference => do
    let object ← resolveObject catalog object
    let ordinal ← catalog.resolve .reference reference
    return .field object (UInt8.ofNat ordinal)
  | .call routine arguments => do
    let ordinal ← resolveRoutine catalog routine arguments.length
    let arguments ← resolveArguments catalog routine 0 arguments
    return .call ordinal arguments
  | .objectCall _ object routine arguments => do
    let object ← resolveObject catalog object
    let ordinal ← resolveRoutine catalog routine arguments.length
    let arguments ← resolveArguments catalog routine 0 arguments
    return .objectCall object .function ordinal arguments

/-- The code for an object. -/
def resolveObject (catalog : Catalog) : Source.Object → Resolve Code.Object
  | .builtin which => return .builtin which
  | .named name => do
    let index ← intern name
    return .named (UInt32.ofNat index)
  | .dynamic value => do
    let value ← resolveOperand catalog none value
    return .dynamic value

/-- The code for an argument, which may not use arithmetic. -/
def resolveArgument (catalog : Catalog) (kind : Option ArgumentKind) :
    Source.Expr → Resolve Code.Operand
  | .last operand => resolveOperand catalog kind operand
  | .more operand _ _ => do
    let _ ← resolveOperand catalog kind operand
    refuse .arithmeticInArguments

/-- The code for the arguments of a routine from a position on. -/
def resolveArguments (catalog : Catalog) (routine : String) (index : Nat) :
    List Source.Expr → Resolve (List Code.Operand)
  | [] => return []
  | e :: es => do
    let a ← resolveArgument catalog (ArgumentKind.of? routine index) e
    let as ← resolveArguments catalog routine (index + 1) es
    return a :: as

end

/-- The code for a formula. -/
def resolveFormula (catalog : Catalog) : Source.Expr → Resolve Code.Formula
  | .last operand => do
    let operand ← resolveOperand catalog none operand
    return .last operand
  | .more operand operator rest => do
    let operand ← resolveOperand catalog none operand
    let rest ← resolveFormula catalog rest
    return .more operand operator rest

/-- The code for what is assigned to. -/
def resolvePlace (catalog : Catalog) : Source.Operand → Resolve Code.Place
  | .flag name => do
    let ordinal ← catalog.resolve .flag name
    return .flag (UInt16.ofNat ordinal)
  | .var slot => return .var slot
  | .field object reference => do
    let object ← resolveObject catalog object
    let ordinal ← catalog.resolve .reference reference
    return .field object (UInt8.ofNat ordinal)
  | _ => refuse .notAssignable

end EventScript.Assembly
