import EventScript.Catalog.Basic
import EventScript.Source.Fault

/-!
# Names that stand for ordinals in code

Routines, flags, references and attributes are named in scripts. An ordinal without a name is written
as a stem with a number. `printedName` is the name that listings show and `resolve` finds the ordinal
that a name stands for.
-/

namespace EventScript

/-- The kinds of names that stand for ordinals in code. -/
inductive NameClass where
  | routine
  | flag
  | reference
  | attr
  deriving DecidableEq, Repr

namespace NameClass

/-- The table that defines the names. -/
def table : NameClass → Table
  | routine => .routines
  | flag => .flags
  | reference => .references
  | attr => .attributes

/-- The stem of the names for ordinals that have none. -/
def stem : NameClass → String
  | routine => "routine"
  | flag => "flag"
  | reference => "ref"
  | attr => "attr"

/-- The largest ordinal that code can hold. -/
def most : NameClass → Nat
  | routine => 65535
  | flag => 65535
  | reference => 255
  | attr => 255

end NameClass

namespace Catalog

/-- The name that listings show for an ordinal. -/
def printedName (c : Catalog) (k : NameClass) (ordinal : Nat) : String :=
  (c.name? k.table ordinal).getD (Name.withNumber k.stem ordinal)

/-- The ordinal that a name stands for: the catalog's, else the number after the stem. -/
def meaning? (c : Catalog) (k : NameClass) (name : String) : Option Nat :=
  c.ordinal? k.table name <|> (Name.number? k.stem name).filter fun n => n ≤ Text.maxWord64

/-- The ordinal that a name stands for, if code can hold it. -/
def resolve (c : Catalog) (k : NameClass) (name : String) : Except Source.Fault Nat :=
  match c.meaning? k name with
  | none => .error (.unknownSymbol name)
  | some ordinal =>
    if ordinal ≤ k.most then .ok ordinal else .error (.ordinalRange ordinal name k.most)

end Catalog

end EventScript
