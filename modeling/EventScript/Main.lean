import EventScript.CommandLine.Execution
import EventScript.CommandLine.Reach

/-!
# The program

Fills a disk with what a command touches, carries the command out there, and writes down what it
changed.
-/

namespace EventScript.Program

/-- The path of a location. -/
def pathOf (l : Location) : String := "/" ++ Path.ofSegments l

/-- What is at a location and below it. -/
partial def nodesFrom (l : Location) : IO (List (Location × Node)) := do
  try
    let path ← IO.FS.realPath (pathOf l)
    if ← path.isDir then
      let entries ← path.readDir
      let inside ← entries.toList.mapM fun e => nodesFrom (l ++ [e.fileName])
      return (l, .directory) :: inside.flatten
    else
      let content ← IO.FS.readBinFile path
      return [(l, .file content.toList)]
  catch _ => return []

/-- What is at a location, without what is below it. -/
def nodeAt (l : Location) : IO (List (Location × Node)) := do
  try
    let path ← IO.FS.realPath (pathOf l)
    if ← path.isDir then return [(l, .directory)]
    else
      let content ← IO.FS.readBinFile path
      return [(l, .file content.toList)]
  catch _ => return []

/-- The locations that names lead through. -/
def through (here : Location) : List String → List Location
  | [] => []
  | name :: names => Disk.enter here name :: through (Disk.enter here name) names

/-- Adds what is at a path, on the way to it and below it. -/
def reach (d : Disk) (path : String) : IO Disk := do
  let start := if Path.isAbsolute path then [] else d.working
  let locations := through start (Path.parts path)
  let onTheWay ← locations.mapM nodeAt
  let below ← nodesFrom (locations.getLast?.getD start)
  return (onTheWay.flatten ++ below).foldl (fun d e => d.set e.1 e.2) d

/-- A disk with the working directory of the process. -/
def start : IO Disk := do
  let working ← IO.FS.realPath "."
  let l := Path.parts working.toString
  let nodes ← (through [] l).mapM nodeAt
  return ⟨nodes.flatten, l⟩

/-- Writes down what is new or changed. -/
def writeBack (old new : Disk) : IO Unit := do
  for (l, n) in new.nodes.reverse do
    if old.at? l != some n then
      match n with
      | .directory => IO.FS.createDirAll (pathOf l)
      | .file content => IO.FS.writeBinFile (pathOf l) ⟨content.toArray⟩

/-- Carries out a command on the disk of the machine. -/
def perform (command : CommandLine.Command) : IO CommandLine.Outcome := do
  let given ← command.paths.foldlM reach (← start)
  let settings :=
    match command.settingsFile? with
    | some path => ((Settings.load path given).1.result.toOption.map Settings.paths).getD []
    | none => []
  let disk ← settings.foldlM reach given
  let (answer, after) := command.execute disk
  writeBack disk after
  match answer.result with
  | .ok outcome => return outcome
  | .error e => return .failure e.message

end EventScript.Program

/-- Carries out a command line. -/
def main (arguments : List String) : IO UInt32 := do
  let outcome ←
    match EventScript.CommandLine.Command.ofArguments arguments with
    | some command => EventScript.Program.perform command
    | none => pure .misuse
  IO.print outcome.output
  IO.eprint outcome.errors
  return outcome.code.toUInt32
