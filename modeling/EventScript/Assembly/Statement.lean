import EventScript.Assembly.Resolve

/-!
# Code for statements

`readPiece` finds the code for the tokens of one line: a whole statement, or the guard of a block that
may follow. A value is resolved as soon as it has been read, so of two faults in a line the earlier one
counts.
-/

namespace EventScript.Assembly

open Source

/-- What one line of a body says. -/
inductive Piece where
  | statement (statement : Code.Statement)
  | guard (guard : Code.Guard)

/-- Reads a comparator. -/
def readComparator : List Token → Except Source.Fault (Comparator × List Token)
  | .sym s :: ts =>
    match s.comparator? with
    | some comparator => .ok (comparator, ts)
    | none => .error .expectedComparator
  | _ => .error .expectedComparator

/-- The code for a comparison at the front of some tokens. -/
def readComparison (catalog : Catalog) (ts : List Token) :
    Resolve (Code.Comparison × List Token) := do
  let (left, ts) ← Expr.read ts
  let (comparator, ts) ← readComparator ts
  let (right, ts) ← Expr.read ts
  let left ← resolveFormula catalog left
  let right ← resolveFormula catalog right
  return (⟨left, comparator, right⟩, ts)

/-- The code for a condition of at most `n` comparisons. -/
def readCondition (catalog : Catalog) : (n : Nat) → List Token → Resolve Code.Condition
  | 0, _ => refuse .missingValue
  | n + 1, ts => do
    let (comparison, ts) ← readComparison catalog ts
    match ts with
    | [] => return .last comparison
    | t :: ts =>
      if t = .ident "and" then
        let rest ← readCondition catalog n ts
        return .more comparison .and rest
      else if t = .ident "or" then
        let rest ← readCondition catalog n ts
        return .more comparison .or rest
      else refuse (.inCondition t)

/-- The code for what follows `if`. -/
def readGuard (catalog : Catalog) : List Token → Resolve Code.Guard
  | .result :: ts => do
    let ts ← readSymbol .equal ts
    let (value, ts) ← readInteger ts
    let value ← byteOf .resultValue value
    readEnd ts
    return .result value
  | ts => do
    let condition ← readCondition catalog (ts.length + 1) ts
    return .condition condition

/-- The code for what follows `@`. -/
def readMarker : List Token → Resolve (Code.Action × List Token)
  | .ident word :: ts =>
    if word = "anchor" then do
      let (value, ts) ← readInteger ts
      let value ← byteOf .anchor value
      return (.anchor value, ts)
    else if word = "pause" then do
      let (label, ts) ← readLabel ts
      return (.pause label, ts)
    else refuse .expectedMarker
  | _ => refuse .expectedMarker

/-- The target of a jump that need not have one. -/
def readTarget : List Token → Except Source.Fault (Option UInt32 × List Token)
  | [] => .ok (none, [])
  | ts => (readLabel ts).map fun p => (some p.1, p.2)

/-- The code for a call of a routine, if the operand is one. -/
def resolveCall? (catalog : Catalog) (mode : CallMode) : Operand → Option (Resolve Code.Action)
  | .call routine arguments => some do
    let ordinal ← resolveRoutine catalog routine arguments.length
    let arguments ← resolveArguments catalog routine 0 arguments
    return .call mode ordinal arguments
  | .objectCall _ object routine arguments => some do
    let object ← resolveObject catalog object
    let ordinal ← resolveRoutine catalog routine arguments.length
    let arguments ← resolveArguments catalog routine 0 arguments
    return .objectCall object mode ordinal arguments
  | _ => none

/-- The code for what follows `async` or `call`. -/
def readCall (catalog : Catalog) (mode : CallMode) (ts : List Token) :
    Resolve (Code.Action × List Token) := do
  let (operand, ts) ← Operand.read ts
  match resolveCall? catalog mode operand with
  | some code => return (← code, ts)
  | none => refuse .expectedCall

/-- The code for a statement that begins with no word of its own: a call or an assignment. -/
def readPlain (catalog : Catalog) (ts : List Token) : Resolve (Code.Action × List Token) := do
  let (operand, ts) ← Operand.read ts
  match ts with
  | .sym .equal :: ts =>
    let (e, ts) ← Expr.read ts
    let place ← resolvePlace catalog operand
    let formula ← resolveFormula catalog e
    return (.assign place formula, ts)
  | ts =>
    match resolveCall? catalog .task operand with
    | some code => return (← code, ts)
    | none => refuse .expectedStatement

/-- The code for a statement that begins with `word`. -/
def readWord (catalog : Catalog) (word : String) (ts : List Token) :
    Resolve (Code.Action × List Token) :=
  if word = "goto" then do
    let (target, ts) ← readTarget ts
    return (.goto target, ts)
  else if word = "end" then do
    let (target, ts) ← readTarget ts
    return (.stop target, ts)
  else if word = "gosub" then do
    let (label, ts) ← readLabel ts
    return (.gosub label, ts)
  else if word = "return" then return (.leave, ts)
  else if word = "endint" then return (.leaveInterrupt, ts)
  else if word = "async" then readCall catalog .async ts
  else if word = "call" then readCall catalog .function ts
  else readPlain catalog (.ident word :: ts)

/-- Makes sure that a statement takes the whole line. -/
def readWhole (code : Resolve (Code.Action × List Token)) : Resolve Piece := do
  let (action, ts) ← code
  readEnd ts
  return .statement (.action action)

/-- The code for the tokens of a line. -/
def readPiece (catalog : Catalog) : List Token → Resolve Piece
  | .label label :: ts => do
    let ts ← readSymbol .colon ts
    readEnd ts
    return .statement (.mark label)
  | .sym .atSign :: ts => readWhole (readMarker ts)
  | .ident word :: ts =>
    if word = "if" then do
      let guard ← readGuard catalog ts
      return .guard guard
    else readWhole (readWord catalog word ts)
  | ts => readWhole (readPlain catalog ts)

end EventScript.Assembly
