import EventScript.Ordered
import EventScript.Text.Decimal
import EventScript.Text.Lines
import EventScript.Traced

/-!
# Patches

A patch set has edits for maps: at a line of the map's listing, the line can be taken out and other
lines can be put after it. Maps are named by their key, which does not depend on the directory, the
extension and the case of the name.
-/

namespace EventScript

/-- The characters after the last of some separators. -/
def Text.afterLast (isSeparator : Char → Bool) (cs : List Char) : List Char :=
  (cs.reverse.takeWhile fun c => !isSeparator c).reverse

/-- The part of a name in front of its last dot; a dot at the very front does not count. -/
def Text.stem (cs : List Char) : List Char :=
  match (cs.reverse.dropWhile fun c => c != '.').reverse with
  | [] => cs
  | [_] => cs
  | front => front.dropLast

/-- The key of a map: the file name without directories and extension, in lower case. -/
def mapKey (name : String) : String :=
  String.ofList ((Text.stem (Text.afterLast (fun c => c == '/' || c == '\\') name.toList)).map
    Text.lower)

/-- One change at a line. -/
inductive Entry where
  /-- Takes the line out. -/
  | delete
  /-- Puts a line after it, and after those put there before. -/
  | insert (text : String)
  deriving DecidableEq, Repr

/-- What happens at a line: whether it is taken out, and what is put after it. -/
structure Edit where
  deleted : Bool := false
  inserted : List String := []
  deriving DecidableEq, Repr

namespace Edit

/-- Adds a change. -/
def add (e : Edit) : Entry → Edit
  | .delete => { e with deleted := true }
  | .insert text => { e with inserted := e.inserted ++ [text] }

/-- Adds the changes of another edit. -/
def append (a b : Edit) : Edit := ⟨a.deleted || b.deleted, a.inserted ++ b.inserted⟩

/-- The changes of an edit. -/
def entries (e : Edit) : List Entry :=
  (if e.deleted then [.delete] else []) ++ e.inserted.map .insert

/-- What a line becomes. -/
def apply (e : Edit) (line : String) : List String :=
  (if e.deleted then [] else [line]) ++ e.inserted

end Edit

/-- Edits by position, in ascending order. -/
abbrev Edits := List (Nat × Edit)

/-- Edits for maps, in ascending order of the keys. -/
structure PatchSet where
  maps : List (String × Edits)
  deriving DecidableEq, Repr

namespace PatchSet

/-- A patch set without edits. -/
def empty : PatchSet := ⟨[]⟩

/-- Adds an edit at a position of the map with a key. -/
def addEdit (s : PatchSet) (key : String) (position : Nat) (edit : Edit) : PatchSet :=
  ⟨Ordered.update key
    (fun edits => Ordered.update position (fun e => (e.getD {}).append edit) (edits.getD [])) s.maps⟩

/-- Adds a change at a position of a map. -/
def push (s : PatchSet) (map : String) (position : Nat) (entry : Entry) : PatchSet :=
  s.addEdit (mapKey map) position (Edit.add {} entry)

/-- The edits for a map. -/
def edits? (s : PatchSet) (map : String) : Option Edits := Ordered.find? (mapKey map) s.maps

/-- Whether there are edits for a map. -/
def hasMap (s : PatchSet) (map : String) : Bool := (s.edits? map).isSome

/-- The keys of the maps that have edits. -/
def mapNames (s : PatchSet) : List String := s.maps.map Prod.fst

/-- Adds the edits for a key. -/
def addEdits (s : PatchSet) (m : String × Edits) : PatchSet :=
  m.2.foldl (fun s e => s.addEdit m.1 e.1 e.2) s

/-- Adds all edits of another patch set after those already there. -/
def append (a b : PatchSet) : PatchSet := b.maps.foldl addEdits a

/-- The edits of several patch sets, in their order. -/
def merge (sets : List PatchSet) : PatchSet := sets.foldl append empty

end PatchSet

/-- The lines that follow from edits, the first line having the position `n`. -/
def Edits.applyFrom (edits : Edits) (n : Nat) : List String → List String
  | [] => []
  | line :: lines =>
    (match Ordered.find? n edits with
      | some e => e.apply line
      | none => [line]) ++ edits.applyFrom (n + 1) lines

/-- Whether some edits stand at no line of a text. -/
def Edits.miss (edits : Edits) (lines : Nat) : Bool :=
  edits.any fun e => e.1 == 0 || decide (lines < e.1)

/-- The last position with an edit. -/
def Edits.last (edits : Edits) : Nat := (edits.getLast?.map Prod.fst).getD 0

namespace PatchSet

/-- Lays the edits for a map over the lines of its listing. Edits at other positions do nothing, and
are noted. -/
def apply {ε : Type} (s : PatchSet) (map : String) (lines : List String) :
    Traced Notice ε (List String) :=
  match s.edits? map with
  | none => Traced.value lines
  | some edits => do
    Traced.noteIf (edits.miss lines.length)
      ⟨.warn, "patches for '" ++ map ++ "' reach line " ++ Text.decimal edits.last
        ++ " but the text has " ++ Text.decimal lines.length ++ " lines; those edits are ignored"⟩
    return edits.applyFrom 1 lines

end PatchSet

end EventScript
