/-!
# Operators, comparators and ways to call

The small vocabularies that scripts and bytecode share: each word has a spelling and a byte.
-/

namespace EventScript

/-- Arithmetic of formulas. -/
inductive Operator where
  | add
  | sub
  | mul
  | div
  | mod
  deriving DecidableEq, Repr

namespace Operator

/-- The spelling of an operator. -/
def text : Operator → String
  | add => "+"
  | sub => "-"
  | mul => "*"
  | div => "/"
  | mod => "%"

/-- The byte of an operator; no statement begins with one of these. -/
def code : Operator → UInt8
  | add => 0x20
  | sub => 0x21
  | mul => 0x22
  | div => 0x23
  | mod => 0x24

/-- The operator that a byte stands for. -/
def ofCode? (b : UInt8) : Option Operator :=
  if b = 0x20 then some add
  else if b = 0x21 then some sub
  else if b = 0x22 then some mul
  else if b = 0x23 then some div
  else if b = 0x24 then some mod
  else none

@[simp] theorem ofCode?_code (o : Operator) : ofCode? o.code = some o := by
  cases o <;> rfl

end Operator

/-- Comparisons of conditions. -/
inductive Comparator where
  | equal
  | notEqual
  | less
  | greater
  | lessEqual
  | greaterEqual
  deriving DecidableEq, Repr

namespace Comparator

/-- The spelling of a comparator. -/
def text : Comparator → String
  | equal => "="
  | notEqual => "!="
  | less => "<"
  | greater => ">"
  | lessEqual => "<="
  | greaterEqual => ">="

/-- The byte of a comparator. -/
def code : Comparator → UInt8
  | equal => 0
  | notEqual => 1
  | less => 2
  | greater => 3
  | lessEqual => 4
  | greaterEqual => 5

/-- The comparator that a byte stands for. -/
def ofCode? (b : UInt8) : Option Comparator :=
  if b = 0 then some equal
  else if b = 1 then some notEqual
  else if b = 2 then some less
  else if b = 3 then some greater
  else if b = 4 then some lessEqual
  else if b = 5 then some greaterEqual
  else none

@[simp] theorem ofCode?_code (c : Comparator) : ofCode? c.code = some c := by
  cases c <;> rfl

end Comparator

/-- How two comparisons of a condition are joined. -/
inductive Conjunction where
  | and
  | or
  deriving DecidableEq, Repr

namespace Conjunction

/-- The word for a conjunction. -/
def text : Conjunction → String
  | and => "and"
  | or => "or"

/-- The byte of a conjunction; zero ends a condition. -/
def code : Conjunction → UInt8
  | and => 1
  | or => 2

/-- The conjunction that a byte stands for. -/
def ofCode? (b : UInt8) : Option Conjunction :=
  if b = 1 then some and
  else if b = 2 then some or
  else none

@[simp] theorem ofCode?_code (c : Conjunction) : ofCode? c.code = some c := by
  cases c <;> rfl

end Conjunction

/-- How a routine is called: the script waits for it, or goes on, or takes its value. -/
inductive CallMode where
  | task
  | async
  | function
  deriving DecidableEq, Repr

namespace CallMode

/-- The byte of a way to call. -/
def code : CallMode → UInt8
  | task => 0
  | async => 1
  | function => 2

/-- The way to call that a byte stands for. -/
def ofCode? (b : UInt8) : Option CallMode :=
  if b = 0 then some task
  else if b = 1 then some async
  else if b = 2 then some function
  else none

@[simp] theorem ofCode?_code (m : CallMode) : ofCode? m.code = some m := by
  cases m <;> rfl

end CallMode

end EventScript
