import EventScript.Code.Decoding
import EventScript.Code.Label
import EventScript.Fault
import EventScript.Listing.Naming
import EventScript.Unit.Basic

/-!
# Listings

A listing shows a unit as text that can be assembled again: a preamble, then the statements with
their labels between braces. `instructions` gives the statements one by one, with their addresses.
-/

namespace EventScript

namespace Code

/-- A statement, without its block, as a listing shows it. -/
structure Instruction where
  /-- How many bytes of the code come before it. The record of a unit gives the length of its code in 32 bits,
  so that every address in the code of a container is a word. -/
  address : Nat
  /-- How many braces are open around it. -/
  indent : Nat
  text : String
  remark : Option String
  isLabel : Bool
  deriving DecidableEq, Repr

/-- The remark of a statement: the dialogue texts it refers to. -/
def remarkOf (remarks : List String) : Option String :=
  if remarks.isEmpty then none else some (" | ".intercalate remarks)

/-- The instruction for a guard at an address. -/
def Guard.instruction (names : Names) (labels : List UInt32) (indent address : Nat) (g : Guard) :
    Instruction :=
  ⟨address, indent, g.text names, remarkOf (g.remarks names), labels.any fun l => l.toNat == address⟩

/-- The instruction for a statement without a block at an address. -/
def Action.instruction (names : Names) (labels : List UInt32) (indent address : Nat) (a : Action) :
    Instruction :=
  ⟨address, indent, a.text names, remarkOf (a.remarks names), labels.any fun l => l.toNat == address⟩

mutual

/-- The instructions of a statement at an address. -/
def Statement.instructions (names : Names) (labels : List UInt32) (indent address : Nat) :
    Statement → List Instruction
  | .action a => [a.instruction names labels indent address]
  | .block guard body =>
    guard.instruction names labels indent address ::
      blockInstructions names labels (indent + 1) (address + guard.size) body
  | .mark _ => []

/-- The instructions of a block that begins at an address. -/
def blockInstructions (names : Names) (labels : List UInt32) (indent address : Nat) :
    List Statement → List Instruction
  | [] => []
  | s :: ss =>
    s.instructions names labels indent address ++
      blockInstructions names labels indent (address + s.size) ss

end

/-- The blanks in front of a line. -/
def margin (indent : Nat) : String := String.ofList (List.replicate (4 * indent) ' ')

/-- The lines for an instruction: its label, if a jump goes there, and its text with the remark. -/
def Instruction.lines (i : Instruction) : List String :=
  let label :=
    if i.isLabel then [margin i.indent ++ "#" ++ Text.decimal i.address ++ ":"] else []
  let remark :=
    match i.remark with
    | some remark => " // " ++ remark
    | none => ""
  label ++ [margin i.indent ++ i.text ++ remark]

mutual

/-- The lines of a statement at an address. An empty block is left out. -/
def Statement.lines (names : Names) (labels : List UInt32) (indent address : Nat) :
    Statement → List String
  | .action a => (a.instruction names labels indent address).lines
  | .block guard body =>
    let inner := blockLines names labels (indent + 1) (address + guard.size) body
    (guard.instruction names labels indent address).lines ++
      if body.isEmpty then [] else [margin indent ++ Text.leftBrace] ++ inner ++ [margin indent ++ Text.rightBrace]
  | .mark _ => []

/-- The lines of a block that begins at an address. -/
def blockLines (names : Names) (labels : List UInt32) (indent address : Nat) :
    List Statement → List String
  | [] => []
  | s :: ss =>
    s.lines names labels indent address ++ blockLines names labels indent (address + s.size) ss

end

mutual

/-- The addresses at which a statement and those of its block begin. -/
def Statement.starts (address : Nat) : Statement → List Nat
  | .action _ => [address]
  | .block guard body => address :: blockStarts (address + guard.size) body
  | .mark _ => []

/-- The addresses at which the statements of a block begin. -/
def blockStarts (address : Nat) : List Statement → List Nat
  | [] => []
  | s :: ss => s.starts address ++ blockStarts (address + s.size) ss

end

/-- The notice that a call has an unusual number of arguments. -/
def CallSite.notices (catalog : Catalog) (unit : String) (site : CallSite) : List Notice :=
  match catalog.routine? site.routine.toNat with
  | none => []
  | some routine =>
    if routine.parameters = site.count.toNat then []
    else
      [⟨.debug, "unit '" ++ unit ++ "': " ++ routine.name ++ " declared with "
        ++ Text.decimal routine.parameters ++ " parameters, called with "
        ++ Text.decimal site.count.toNat⟩]

end Code

namespace ScriptUnit

/-- What the names in a unit's listing are taken from. -/
def names (catalog : Catalog) (u : ScriptUnit) : Code.Names := ⟨catalog, u.strings⟩

/-- The labels of code: the targets of its jumps and the entry, unless that is the beginning. -/
def labels (u : ScriptUnit) (body : List Code.Statement) : List UInt32 :=
  Code.ascending (Code.blockTargets body ++ (Code.targetOf u.header.entry).toList)

/-- Makes sure that each label is the address of a statement or the end of the code. -/
def checkLabels (u : ScriptUnit) (body : List Code.Statement) : Except Fault Unit :=
  let starts := Code.blockStarts 0 body
  match (u.labels body).find? fun l => !(starts.contains l.toNat || l.toNat == u.code.length) with
  | some label => .error (.code u.header.name (.strayLabel label))
  | none => .ok ()

/-- The statements of a unit, whose jumps all go somewhere. -/
def statements (catalog : Catalog) (u : ScriptUnit) : Traced Notice Fault (List Code.Statement) := do
  let body ← (Code.decode u.strings.length u.code).mapBoth
    (Code.CallSite.notices catalog u.header.name) (Fault.code u.header.name)
  u.checkLabels body
  return body

/-- The statements of a unit one by one. -/
def instructions (catalog : Catalog) (u : ScriptUnit) :
    Traced Notice Fault (List Code.Instruction) := do
  let body ← u.statements catalog
  return Code.blockInstructions (u.names catalog) (u.labels body) 1 0 body

/-- The variables up to the last that is not zero. -/
def usedVariables (u : ScriptUnit) : List Int32 :=
  (u.vars.reverse.dropWhile fun v => v == 0).reverse

/-- The line for an attribute, if it is not zero. -/
def attributeLine? (catalog : Catalog) (index : Nat) (value : UInt8) : Option String :=
  if value = 0 then none
  else some (catalog.printedName .attr index ++ " = " ++ Text.decimal value.toNat)

/-- The lines in front of the statements. -/
def preamble (catalog : Catalog) (u : ScriptUnit) : List String :=
  let h := u.header
  ["unit " ++ Source.quote h.name, "instances = " ++ Text.decimal h.instances.toNat]
    ++ (if h.kind = 0 then [] else ["kind = " ++ Text.decimal h.kind.toNat])
    ++ ["entry = " ++ if h.entry = 0 then "0" else Code.labelText h.entry]
    ++ (if u.strings.isEmpty then []
        else ["strings = " ++ ", ".intercalate (u.strings.map Source.quote)])
    ++ ["variables(" ++ Text.decimal u.vars.length ++ ")" ++
        if u.usedVariables.isEmpty then ""
        else " = " ++ ", ".intercalate (u.usedVariables.map fun v => Text.signedDecimal v.toInt)]
    ++ u.attributes.zipIdx.filterMap fun p => attributeLine? catalog p.2 p.1

/-- The line for a label at the end of the code. -/
def endLabel? (u : ScriptUnit) (body : List Code.Statement) : Option String :=
  if (u.labels body).any (fun l => l.toNat == u.code.length) &&
      !(Code.blockStarts 0 body).contains u.code.length then
    some (Code.margin 1 ++ "#" ++ Text.decimal u.code.length ++ ":")
  else none

/-- The listing of a unit. -/
def listing (catalog : Catalog) (u : ScriptUnit) : Traced Notice Fault (List String) := do
  let body ← u.statements catalog
  return u.preamble catalog ++ [Text.leftBrace]
    ++ Code.blockLines (u.names catalog) (u.labels body) 1 0 body
    ++ (u.endLabel? body).toList ++ [Text.rightBrace]

/-- The listings of units, with an empty line between them. -/
def listings (catalog : Catalog) : List ScriptUnit → Traced Notice Fault (List String)
  | [] => return []
  | [u] => u.listing catalog
  | u :: us => do
    let first ← u.listing catalog
    let rest ← listings catalog us
    return first ++ "" :: rest

end ScriptUnit

end EventScript
