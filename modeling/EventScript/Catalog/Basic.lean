import EventScript.Catalog.Argument
import EventScript.Disk.Fault
import EventScript.Name

/-!
# The catalog of names

A catalog has six tables that give names to ordinals, and the texts of dialogue labels. A table
keeps its definitions in file order: an ordinal has at most one, and of two with the same name the
earlier one says which ordinal the name stands for.
-/

namespace EventScript

/-- The tables of a catalog. -/
inductive Table where
  | routines
  | flags
  | items
  | maps
  | references
  | attributes
  deriving DecidableEq, Repr

/-- The file that defines a table. -/
def Table.file : Table → String
  | routines => "routines.txt"
  | flags => "flags.txt"
  | items => "items.txt"
  | maps => "maps.txt"
  | references => "references.txt"
  | attributes => "attributes.txt"

/-- The name of the file with the dialogue texts. -/
def dialogueFile : String := "dialogue.txt"

/-- Whether a routine is started as a statement or gives a value. -/
inductive RoutineKind where
  | task
  | function
  deriving DecidableEq, Repr

/-- The definition of a routine. -/
structure Routine where
  ordinal : Nat
  name : String
  parameters : Nat
  kind : RoutineKind
  deriving DecidableEq, Repr

/-- Definitions of names, in file order. -/
structure NameTable where
  entries : List (Nat × String)
  deriving DecidableEq, Repr

namespace NameTable

/-- A table without definitions. -/
def empty : NameTable := ⟨[]⟩

/-- The name of an ordinal. -/
def name? (t : NameTable) (ordinal : Nat) : Option String :=
  (t.entries.find? fun e => e.1 == ordinal).map Prod.snd

/-- The ordinal that a name stands for. -/
def ordinal? (t : NameTable) (name : String) : Option Nat :=
  (t.entries.find? fun e => e.2 == name).map Prod.fst

/-- One more than the largest ordinal. -/
def size (t : NameTable) : Nat := t.entries.foldl (fun n e => max n (e.1 + 1)) 0

end NameTable

/-- The names and dialogue texts that scripts refer to. -/
structure Catalog where
  routines : List Routine
  flags : NameTable
  items : NameTable
  maps : NameTable
  references : NameTable
  attributes : NameTable
  /-- Labels with their texts, the latest first. -/
  dialogue : List (String × String)
  deriving DecidableEq, Repr

namespace Catalog

/-- What is wrong with the definitions. -/
inductive Fault where
  | notOrdinal (table : Table) (line : Nat) (token : String)
  | badName (table : Table) (line : Nat) (name : String)
  | missingName (line : Nat)
  | badParameterCount (line : Nat) (token : String)
  | unknownKind (line : Nat) (token : String)
  | ordinalTwice (table : Table) (ordinal : Nat)
  | sharedNames (names : List String)
  | unreadable (path : String) (cause : Disk.Fault)
  deriving DecidableEq, Repr

/-- The wording of a fault. -/
def Fault.message : Fault → String
  | notOrdinal table line token =>
    table.file ++ " line " ++ Text.decimal line ++ ": '" ++ token ++ "' is not an ordinal"
  | badName table line name =>
    table.file ++ " line " ++ Text.decimal line ++ ": invalid name '" ++ name ++ "'"
  | missingName line =>
    Table.routines.file ++ " line " ++ Text.decimal line ++ ": missing name"
  | badParameterCount line token =>
    Table.routines.file ++ " line " ++ Text.decimal line ++ ": bad parameter count '" ++ token ++ "'"
  | unknownKind line token =>
    Table.routines.file ++ " line " ++ Text.decimal line ++ ": unknown routine kind '" ++ token ++ "'"
  | ordinalTwice table ordinal =>
    table.file ++ ": ordinal " ++ Text.decimal ordinal ++ " is defined twice"
  | sharedNames names => "names defined as both map and item: " ++ ", ".intercalate names
  | unreadable path cause => "cannot read " ++ path ++ ": " ++ cause.message

/-- The definition of the routine with an ordinal. -/
def routine? (c : Catalog) (ordinal : Nat) : Option Routine :=
  c.routines.find? fun r => r.ordinal == ordinal

/-- The definition that says which routine a name stands for. -/
def routineByName? (c : Catalog) (name : String) : Option Routine :=
  c.routines.find? fun r => r.name == name

/-- The name of an ordinal. -/
def name? (c : Catalog) : Table → Nat → Option String
  | .routines, ordinal => (c.routine? ordinal).map Routine.name
  | .flags, ordinal => c.flags.name? ordinal
  | .items, ordinal => c.items.name? ordinal
  | .maps, ordinal => c.maps.name? ordinal
  | .references, ordinal => c.references.name? ordinal
  | .attributes, ordinal => c.attributes.name? ordinal

/-- The ordinal that a name stands for. -/
def ordinal? (c : Catalog) : Table → String → Option Nat
  | .routines, name => (c.routineByName? name).map Routine.ordinal
  | .flags, name => c.flags.ordinal? name
  | .items, name => c.items.ordinal? name
  | .maps, name => c.maps.ordinal? name
  | .references, name => c.references.ordinal? name
  | .attributes, name => c.attributes.ordinal? name

/-- The text of a dialogue label. -/
def dialogueText? (c : Catalog) (label : String) : Option String :=
  (c.dialogue.find? fun d => d.1 == label).map Prod.snd

/-- The ordinal that `<Name>` stands for: a map's, else an item's. -/
def bracketed? (c : Catalog) (name : String) : Option Nat :=
  c.ordinal? .maps name <|> c.ordinal? .items name

end Catalog

end EventScript
