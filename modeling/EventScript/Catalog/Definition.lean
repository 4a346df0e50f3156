import EventScript.Catalog.Basic
import EventScript.Text.Lines
import EventScript.Traced

/-!
# Definition files

A definition file has one definition a line; blank lines and lines that begin with `#` or `//` say
nothing. `N = …` gives a definition the ordinal `N`; without it the ordinal is one more than that of
the definition before, from zero on. `Catalog.ofSources` reads all the files.
-/

namespace EventScript

/-- A line of a definition file. -/
structure Definition where
  /-- The text in front of the equals sign, if there is one. -/
  ordinal? : Option (List Char)
  body : List Char
  deriving DecidableEq, Repr

namespace Definition

/-- What a line defines. -/
def ofLine? (raw : List Char) : Option Definition :=
  let line := Text.trim raw
  if line.isEmpty || (Text.after? ['#'] line).isSome || (Text.after? ['/', '/'] line).isSome then none
  else
    match Text.cutAt? '=' line with
    | some (ordinal, rest) => some ⟨some (Text.trim ordinal), Text.trim rest⟩
    | none => some ⟨none, line⟩

/-- The definitions of a text with the numbers of their lines. -/
def ofText (text : String) : List (Nat × Definition) :=
  (Text.numbered (Text.lines text.toList)).filterMap fun p => (ofLine? p.2).map fun d => (p.1, d)

/-- The ordinal of a definition that follows one with the ordinal before `next`. -/
def ordinal (table : Table) (line next : Nat) (d : Definition) : Except Catalog.Fault Nat :=
  match d.ordinal? with
  | none => .ok next
  | some token =>
    match Text.unsigned? Text.maxWord64 token with
    | some n => .ok n
    | none => .error (.notOrdinal table line (String.ofList token))

end Definition

/-- The name, if it may be defined. -/
def Name.checked (table : Table) (line : Nat) (cs : List Char) : Except Catalog.Fault String :=
  if isDefinable cs then .ok (String.ofList cs)
  else .error (.badName table line (String.ofList cs))

namespace NameTable

/-- Adds a definition to a table, given and giving the ordinal that comes next. -/
def add (table : Table) (state : NameTable × Nat) (d : Nat × Definition) :
    Traced Notice Catalog.Fault (NameTable × Nat) := do
  let ordinal ← d.2.ordinal table d.1 state.2
  let name ← Name.checked table d.1 d.2.body
  if (state.1.name? ordinal).isSome then
    throw (Catalog.Fault.ordinalTwice table ordinal)
  Traced.noteIf (state.1.ordinal? name).isSome
    ⟨.warn, table.file ++ ": name '" ++ name ++ "' is defined more than once"⟩
  return (⟨state.1.entries ++ [(ordinal, name)]⟩, ordinal + 1)

/-- Reads a table from the text of its file. -/
def read (table : Table) (text : String) : Traced Notice Catalog.Fault NameTable := do
  let state ← (Definition.ofText text).foldlM (add table) (empty, 0)
  return state.1

end NameTable

namespace RoutineKind

/-- The kind a word stands for; the case of its letters does not matter. -/
def ofWord? (word : List Char) : Option RoutineKind :=
  let word := String.ofList (word.map Text.lower)
  if word = "task" then some .task
  else if word = "function" then some .function
  else none

end RoutineKind

namespace Routine

/-- The number of parameters that the second word of a definition gives. -/
def parametersOf (line : Nat) : Option (List Char) → Except Catalog.Fault Nat
  | none => .ok 0
  | some word =>
    match Text.unsigned? 255 word with
    | some n => .ok n
    | none => .error (.badParameterCount line (String.ofList word))

/-- The kind that the third word of a definition gives. -/
def kindOf (line : Nat) : Option (List Char) → Except Catalog.Fault RoutineKind
  | none => .ok .task
  | some word =>
    match RoutineKind.ofWord? word with
    | some k => .ok k
    | none => .error (.unknownKind line (String.ofList (word.map Text.lower)))

/-- Adds a definition `Name parameters kind` to the routines, given and giving the ordinal that
comes next. The number of parameters and the kind may be left out. -/
def add (state : List Routine × Nat) (d : Nat × Definition) :
    Except Catalog.Fault (List Routine × Nat) := do
  let ordinal ← d.2.ordinal .routines d.1 state.2
  let words := Text.words d.2.body
  match words with
  | [] => throw (.missingName d.1)
  | first :: rest =>
    let name ← Name.checked .routines d.1 first
    let parameters ← parametersOf d.1 rest[0]?
    let kind ← kindOf d.1 rest[1]?
    if state.1.any fun r => r.ordinal == ordinal then
      throw (.ordinalTwice .routines ordinal)
    return (state.1 ++ [⟨ordinal, name, parameters, kind⟩], ordinal + 1)

/-- Reads the routines from the text of their file. -/
def read (text : String) : Except Catalog.Fault (List Routine) := do
  let state ← (Definition.ofText text).foldlM add ([], 0)
  return state.1

end Routine

/-- The label and the text of a dialogue line: a tab, or else an equals sign, stands between them. -/
def dialogueEntry? (raw : List Char) : Option (String × String) :=
  let line := (raw.reverse.dropWhile fun c => c == '\r' || c == '\n').reverse
  if (Text.trim line).isEmpty || (Text.after? ['#'] line).isSome then none
  else
    (Text.cutAt? '\t' line <|> Text.cutAt? '=' line).map fun p =>
      (String.ofList (Text.trim p.1), String.ofList (Text.trim p.2))

/-- The entries of a dialogue file, the latest first. -/
def readDialogue (text : String) : List (String × String) :=
  ((Text.lines text.toList).filterMap dialogueEntry?).reverse

namespace Catalog

/-- The texts of the definition files; there may be no dialogue file. -/
structure Sources where
  routines : String
  flags : String
  items : String
  maps : String
  references : String
  attributes : String
  dialogue : Option String

/-- The names that stand for a map and an item, sorted. -/
def sharedNames (c : Catalog) : List String :=
  ((c.maps.entries.map Prod.snd).filter fun n => (c.items.ordinal? n).isSome).eraseDups.mergeSort
    fun a b => decide (a ≤ b)

/-- How many dialogue labels have a text. -/
def dialogueCount (c : Catalog) : Nat := (c.dialogue.map Prod.fst).eraseDups.length

/-- The notice that says what a catalog holds. -/
def overview (c : Catalog) : Notice :=
  ⟨.debug, "symbol catalog: "
    ++ Text.decimal (c.routines.foldl (fun n r => max n (r.ordinal + 1)) 0) ++ " routines, "
    ++ Text.decimal c.flags.size ++ " flags, "
    ++ Text.decimal c.items.size ++ " items, "
    ++ Text.decimal c.maps.size ++ " maps, "
    ++ Text.decimal c.references.size ++ " references, "
    ++ Text.decimal c.attributes.size ++ " attributes, "
    ++ Text.decimal c.dialogueCount ++ " dialogue labels"⟩

/-- Reads a catalog. No name may stand for a map and an item, because `<Name>` stands for either. -/
def ofSources (s : Sources) : Traced Notice Catalog.Fault Catalog := do
  let routines ← Routine.read s.routines
  let flags ← NameTable.read .flags s.flags
  let items ← NameTable.read .items s.items
  let maps ← NameTable.read .maps s.maps
  let references ← NameTable.read .references s.references
  let attributes ← NameTable.read .attributes s.attributes
  let dialogue := (s.dialogue.map readDialogue).getD []
  let catalog : Catalog := ⟨routines, flags, items, maps, references, attributes, dialogue⟩
  unless catalog.sharedNames.isEmpty do
    throw (Fault.sharedNames catalog.sharedNames)
  Traced.note catalog.overview
  return catalog

end Catalog

end EventScript
