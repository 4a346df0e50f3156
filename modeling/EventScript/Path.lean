import EventScript.Text.Blank

/-!
# Paths

A path is a text with `/` between its segments. Empty segments and `.` count for nothing, but for a
`.` at the front. The file name is the last segment, and its extension what follows the last dot that
is not at the very front.
-/

namespace EventScript.Path

/-- The pieces of a text between separators. -/
def splitAt (d : Char) : List Char → List (List Char)
  | [] => [[]]
  | c :: cs =>
    if c = d then [] :: splitAt d cs
    else
      match splitAt d cs with
      | [] => [[c]]
      | piece :: pieces => (c :: piece) :: pieces

/-- The segments of a path. -/
def segments (path : String) : List String := (splitAt '/' path.toList).map String.ofList

/-- The path with the given segments. -/
def ofSegments (segments : List String) : String := "/".intercalate segments

/-- Whether a path begins at the root of all directories. -/
def isAbsolute (path : String) : Bool := path.toList.head? = some '/'

/-- A segment that counts for nothing. -/
def isIdle (segment : String) : Bool := segment = "" || segment = "."

/-- The names that a path goes through one by one, `.` among them. -/
def parts (path : String) : List String := (segments path).filter fun s => s != ""

/-- Whether a path says at its end that it is that of a directory. -/
def endsOpen (path : String) : Bool := path.toList.getLast? = some '/'

/-- The first segment and those that follow it, without idle segments at the end. -/
def trimmed (path : String) : List String :=
  match segments path with
  | [] => []
  | first :: rest => first :: (rest.reverse.dropWhile isIdle).reverse

/-- The path of the directory that holds the last name of a path. -/
def parent? (path : String) : Option String :=
  match trimmed path with
  | [] => none
  | [first] => if first = "" then none else some ""
  | segments =>
    match trimmed (ofSegments segments.dropLast) with
    | [""] => some "/"
    | front => some (ofSegments front)

/-- The last segment of a path, if it is a name. -/
def fileName? (path : String) : Option String :=
  match (trimmed path).getLast? with
  | some segment => if isIdle segment || segment = ".." then none else some segment
  | none => none

/-- The stem of a file name and its extension; a dot at the very front begins no extension. -/
def splitName (name : List Char) : List Char × Option (List Char) :=
  match (name.reverse.dropWhile fun c => c != '.').reverse with
  | [] => (name, none)
  | [_] => (name, none)
  | front => (front.dropLast, some (name.drop front.length))

/-- The extension of a path's file name. -/
def extension? (path : String) : Option String :=
  (fileName? path).bind fun name => (splitName name.toList).2.map String.ofList

/-- Whether a path has an extension, up to the case of its letters. -/
def hasExtension (path extension : String) : Bool :=
  match extension? path with
  | some e => Text.sameUpToCase e.toList extension.toList
  | none => false

/-- A path without the letters of its extension; its dot stays. -/
def withoutExtension (path : String) : String :=
  match extension? path with
  | some e => String.ofList (path.toList.take (path.length - e.length))
  | none => path

/-- A path whose file name ends at its stem and then has an extension. A path without a file name stays
as it is. -/
def setExtension (path extension : String) : String :=
  match fileName? path with
  | none => path
  | some name =>
    ofSegments ((trimmed path).dropLast ++
      [String.ofList (splitName name.toList).1 ++ "." ++ extension])

/-- A path with the extension of its file name replaced. The name `..x` has nothing but a dot before
its extension, so that without it the path leads to the directory above and stays that way. -/
def withExtension (path extension : String) : String :=
  setExtension (withoutExtension path) extension

/-- The path that leads to `path` from the directory `base`. -/
def join (base path : String) : String :=
  if isAbsolute path || base = "" then path
  else if base.toList.getLast? = some '/' then base ++ path
  else base ++ "/" ++ path

/-- The path of what names lead to from a path. -/
def below (path : String) (names : List String) : String :=
  if names = [] then path else join path (ofSegments names)

end EventScript.Path
