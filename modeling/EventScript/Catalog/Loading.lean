import EventScript.Catalog.Definition
import EventScript.Disk.Job

/-!
# Catalogs on disk

The definition files of a catalog stand in one directory, under fixed names. All of them have to be
there but the dialogue file.
-/

namespace EventScript.Catalog

/-- The dialogue file of a directory. Without it a listing has no remarks, and that is noted. -/
def loadDialogue (directory : String) : Job (Option String) := do
  let path := Path.join directory dialogueFile
  match ← Job.look fun d => d.readText path with
  | .ok text => return some text
  | .error e =>
    Job.note ⟨.warn, "dialogue database " ++ path ++ " unavailable (" ++ e.message
      ++ "); disassembly will carry no comments"⟩
    return none

/-- The definition file of a table in a directory. -/
def loadTable (directory : String) (table : Table) : Job String := do
  let path := Path.join directory table.file
  match ← Job.look fun d => d.readText path with
  | .ok text => return text
  | .error e => Job.fail (.catalog (.unreadable path e))

/-- The texts of the definition files of a directory. -/
def Sources.load (directory : String) : Job Sources := do
  let dialogue ← loadDialogue directory
  let routines ← loadTable directory .routines
  let flags ← loadTable directory .flags
  let items ← loadTable directory .items
  let maps ← loadTable directory .maps
  let references ← loadTable directory .references
  let attributes ← loadTable directory .attributes
  return ⟨routines, flags, items, maps, references, attributes, dialogue⟩

/-- Reads the catalog of a directory. -/
def load (directory : String) : Job Catalog := do
  let sources ← Sources.load directory
  (ofSources sources).mapFault Fault.catalog

end EventScript.Catalog
