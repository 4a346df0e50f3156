import EventScript.Source.Expr
import EventScript.Source.Fault

/-!
# Reading values from tokens

`Operand.read` and `Expr.read` take a value from the front of a list of tokens and give back the
tokens that follow it. The first argument of the functions with a bound is the depth to which they
may call each other; `bound` is more than any list of tokens needs.
-/

namespace EventScript.Source

/-- A name by itself: a variable slot or a flag. -/
def Operand.ofName (name : String) : Operand :=
  match Name.slot? name with
  | some slot => .var slot
  | none => .flag name

/-- A name in front of a dot: a built-in object, or the object that a variable or flag refers to. -/
def Object.ofName (name : String) : Object :=
  match Builtin.ofName? name with
  | some which => .builtin which
  | none => .dynamic (Operand.ofName name)

mutual

/-- Reads an operand. -/
def readOperand : Nat → List Token → Except Fault (Operand × List Token)
  | 0, _ => .error .missingValue
  | _ + 1, [] => .error .missingValue
  | n + 1, t :: ts =>
    match t, ts with
    | .int value, ts => .ok (.int value, ts)
    | .sym .minus, .int value :: ts => .ok (.int (-value), ts)
    | .sym .minus, _ => .error .integerAfterMinus
    | .str text, .sym .dot :: ts => readMember n (.named text) ts
    | .str text, ts => .ok (.str text, ts)
    | .ident name, .sym .leftParen :: ts => do
      let (arguments, ts) ← readArguments n ts
      return (.call name arguments, ts)
    | .ident name, .sym .dot :: ts => readMember n (Object.ofName name) ts
    | .ident name, ts => .ok (Operand.ofName name, ts)
    | t, _ => .error (.notValue t)

/-- Reads the field or the routine of an object, after the dot. -/
def readMember : Nat → Object → List Token → Except Fault (Operand × List Token)
  | 0, _, _ => .error .expectedMember
  | n + 1, object, ts =>
    match ts with
    | .ident member :: .sym .leftParen :: ts => do
      let (arguments, ts) ← readArguments n ts
      return (.objectCall false object member arguments, ts)
    | .ident member :: ts => .ok (.field object member, ts)
    | _ => .error .expectedMember

/-- Reads the arguments of a call, after the opening parenthesis, and the closing one. -/
def readArguments : Nat → List Token → Except Fault (List Expr × List Token)
  | 0, _ => .error .missingValue
  | n + 1, ts =>
    match ts with
    | .sym .rightParen :: ts => .ok ([], ts)
    | ts => readFurther n ts

/-- Reads one or more arguments and the closing parenthesis. -/
def readFurther : Nat → List Token → Except Fault (List Expr × List Token)
  | 0, _ => .error .missingValue
  | n + 1, ts => do
    let (e, ts) ← readExpr n ts
    match ts with
    | .sym .rightParen :: ts => return ([e], ts)
    | .sym .comma :: ts =>
      let (es, ts) ← readFurther n ts
      return (e :: es, ts)
    | _ => throw (.expectedSymbol .comma)

/-- Reads operands joined by operators. -/
def readExpr : Nat → List Token → Except Fault (Expr × List Token)
  | 0, _ => .error .missingValue
  | n + 1, ts => do
    let (operand, ts) ← readOperand n ts
    match ts with
    | .sym s :: rest =>
      match s.operator? with
      | some operator =>
        let (e, ts) ← readExpr n rest
        return (.more operand operator e, ts)
      | none => return (.last operand, ts)
    | ts => return (.last operand, ts)

end

/-- A depth that reading a list of tokens never reaches: of any four nested calls at least one takes
two tokens. -/
def bound (ts : List Token) : Nat := 2 * ts.length + 5

/-- Reads an operand. -/
def Operand.read (ts : List Token) : Except Fault (Operand × List Token) := readOperand (bound ts) ts

/-- Reads operands joined by operators. -/
def Expr.read (ts : List Token) : Except Fault (Expr × List Token) := readExpr (bound ts) ts

/-- Reads a symbol. -/
def readSymbol (s : Symbol) : List Token → Except Fault (List Token)
  | .sym t :: ts => if t = s then .ok ts else .error (.expectedSymbol s)
  | _ => .error (.expectedSymbol s)

/-- Reads a label. -/
def readLabel : List Token → Except Fault (UInt32 × List Token)
  | .label number :: ts => .ok (number, ts)
  | _ => .error .expectedLabel

/-- Reads an integer with an optional minus sign. -/
def readInteger : List Token → Except Fault (Int × List Token)
  | .sym .minus :: .int value :: ts => .ok (-value, ts)
  | .int value :: ts => .ok (value, ts)
  | _ => .error .expectedInteger

/-- Makes sure that nothing follows a statement. -/
def readEnd : List Token → Except Fault Unit
  | [] => .ok ()
  | t :: _ => .error (.afterStatement t)

/-- The byte that an integer stands for. -/
def byteOf (field : ByteField) (value : Int) : Except Fault UInt8 :=
  if 0 ≤ value ∧ value ≤ 255 then .ok (UInt8.ofNat value.toNat) else .error (.byteRange field value)

/-- The signed 32-bit word that an integer stands for. -/
def wordOf (value : Int) : Except Fault Int32 :=
  if -2147483648 ≤ value ∧ value ≤ 2147483647 then .ok (Int32.ofInt value) else .error (.wordRange value)

end EventScript.Source
