import EventScript.Disk.Fault
import EventScript.Path
import EventScript.Text.Utf8

/-!
# Files and directories

A disk holds files with their content, and directories. Paths are followed name by name from the
working directory, or from the root if they begin with `/`, and every name but the last has to lead to
a directory.

There is nothing else on a disk: links, permissions, and names that are not UTF-8 text are left out. What a
path leads to is found by its names alone, and a file that is there can always be read and written.
-/

namespace EventScript

/-- The names that lead to a file or directory from the root. -/
abbrev Location := List String

/-- What is at a location. -/
inductive Node where
  | file (content : Bytes)
  | directory
  deriving DecidableEq, Repr

/-- The files and directories below the root. -/
structure Disk where
  nodes : List (Location × Node)
  /-- Where paths begin. -/
  working : Location
  deriving DecidableEq, Repr

namespace Disk

/-- A disk without files and directories. -/
def empty : Disk := ⟨[], []⟩

/-- What is at a location; the root is always there. -/
def at? (d : Disk) (l : Location) : Option Node :=
  if l = [] then some .directory else d.nodes.lookup l

/-- Puts something at a location. -/
def set (d : Disk) (l : Location) (n : Node) : Disk :=
  { d with nodes := (l, n) :: d.nodes.filter fun e => e.1 != l }

theorem lookup_filter_ne {k l : Location} (h : k ≠ l) (nodes : List (Location × Node)) :
    (nodes.filter fun e => e.1 != l).lookup k = nodes.lookup k := by
  induction nodes with
  | nil => rfl
  | cons e es ih =>
    obtain ⟨m, n⟩ := e
    by_cases hm : m = l
    · have hk : (k == m) = false := by simpa [hm] using h
      rw [List.filter_cons_of_neg (by simp [hm]), ih]
      simp [List.lookup_cons, hk]
    · rw [List.filter_cons_of_pos (by simp [hm])]
      simp only [List.lookup_cons, ih]

@[simp] theorem at?_set_self (d : Disk) {l : Location} (h : l ≠ []) (n : Node) :
    (d.set l n).at? l = some n := by
  simp [at?, set, h]

theorem at?_set_of_ne (d : Disk) {k l : Location} (h : k ≠ l) (n : Node) :
    (d.set l n).at? k = d.at? k := by
  have hk : (k == l) = false := by simpa using h
  simp [at?, set, List.lookup_cons, hk, lookup_filter_ne h]

/-- Where one more name leads from a directory. -/
def enter (here : Location) (name : String) : Location :=
  if name = "." then here else if name = ".." then here.dropLast else here ++ [name]

/-- The most bytes of a name. -/
def longestName : Nat := 255

/-- The most bytes of a path. -/
def longestPath : Nat := 4095

/-- What is at a location, whose last name must not be too long. -/
def lookup (d : Disk) (l : Location) : Except Fault (Option Node) :=
  if longestName < (l.getLast?.getD "").utf8ByteSize then .error .tooLong else .ok (d.at? l)

/-- Where names lead. All but the last have to lead to directories. -/
def follow (d : Disk) (here : Location) : List String → Except Fault Location
  | [] => .ok here
  | [name] => .ok (enter here name)
  | name :: names => do
    match ← d.lookup (enter here name) with
    | none => throw .missing
    | some (.file _) => throw .notDirectory
    | some .directory => d.follow (enter here name) names

/-- The location of a path. -/
def locate (d : Disk) (path : String) : Except Fault Location :=
  if path.toList.contains (Char.ofNat 0) then .error .zeroInName
  else if path = "" then .error .missing
  else if longestPath < path.utf8ByteSize then .error .tooLong
  else d.follow (if Path.isAbsolute path then [] else d.working) (Path.parts path)

/-- What is at a path. -/
def node (d : Disk) (path : String) : Except Fault Node := do
  let l ← d.locate path
  match ← d.lookup l with
  | none => throw .missing
  | some (.file content) => if Path.endsOpen path then throw .notDirectory else return .file content
  | some .directory => return .directory

/-- Whether something is at a path. -/
def exists? (d : Disk) (path : String) : Bool := (d.node path).isOk

/-- Whether a directory is at a path. -/
def isDirectory (d : Disk) (path : String) : Bool :=
  match d.node path with
  | .ok .directory => true
  | _ => false

/-- The content of the file at a path. -/
def read (d : Disk) (path : String) : Except Fault Bytes := do
  match ← d.node path with
  | .file content => return content
  | .directory => throw .isDirectory

/-- The content of the file at a path, as text. -/
def readText (d : Disk) (path : String) : Except Fault String := do
  match Utf8.decode? (← d.read path) with
  | some text => return text
  | none => throw .notText

/-- Writes a file. Its directory has to be there. -/
def write (d : Disk) (path : String) (content : Bytes) : Except Fault Disk := do
  let l ← d.locate path
  if Path.endsOpen path then throw .isDirectory
  match ← d.lookup l with
  | some .directory => throw .isDirectory
  | _ => return d.set l (.file content)

/-- Makes a directory where nothing is. -/
def makeDirectory (d : Disk) (path : String) : Except Fault Disk := do
  let l ← d.locate path
  match ← d.lookup l with
  | some _ => throw .occupied
  | none => return d.set l .directory

/-- Makes a directory and those that lead to it, as far as they are not there; `n` is at least the
number of segments of the path. What was made stays when a fault ends it. -/
def makeDirectoriesWith (d : Disk) : (n : Nat) → String → Except Fault Unit × Disk
  | 0, _ => (.ok (), d)
  | n + 1, path =>
    if path = "" then (.ok (), d)
    else
      match d.makeDirectory path with
      | .ok d => (.ok (), d)
      | .error .missing =>
        match Path.parent? path with
        | none => (.error .missing, d)
        | some up =>
          match d.makeDirectoriesWith n up with
          | (.error e, d) => (.error e, d)
          | (.ok (), d) =>
            match d.makeDirectory path with
            | .ok d => (.ok (), d)
            | .error e => if d.isDirectory path then (.ok (), d) else (.error e, d)
      | .error e => if d.isDirectory path then (.ok (), d) else (.error e, d)

/-- Makes a directory and those that lead to it, as far as they are not there. -/
def makeDirectories (d : Disk) (path : String) : Except Fault Unit × Disk :=
  d.makeDirectoriesWith ((Path.segments path).length + 1) path

/-- The order of a walk: a directory comes before what it holds, and names go up. -/
def comesBefore : Location → Location → Bool
  | [], _ => true
  | _ :: _, [] => false
  | a :: as, b :: bs => if a = b then comesBefore as bs else decide (a < b)

/-- The names that lead from one location to another below it. -/
def below? (root l : Location) : Option Location :=
  match root, l with
  | [], rest => some rest
  | _ :: _, [] => none
  | a :: as, b :: bs => if a = b then below? as bs else none

/-- The files at a path and below it, in the order of a walk, with the names that lead to them from
there. -/
def filesUnder (d : Disk) (path : String) : Except Fault (List Location) := do
  let root ← d.locate path
  match ← d.node path with
  | .file _ => return [[]]
  | .directory =>
    let inside := d.nodes.filterMap fun e =>
      match e.2 with
      | .file _ => below? root e.1
      | .directory => none
    return inside.mergeSort comesBefore

end Disk

end EventScript
