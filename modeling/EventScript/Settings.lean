import EventScript.Disk.Job
import EventScript.Json

/-!
# Settings

What a batch run works on. Settings are written as a JSON object with the names of `fields`, or as an
array of their values in that order; only the three paths have to be given.
-/

namespace EventScript

/-- What a batch run works on. -/
structure Settings where
  /-- The directory of the definition files. -/
  definitions : String
  /-- Where the maps are. -/
  input : String
  /-- Where the results go. -/
  output : String
  /-- The extension of a map's file. -/
  mapExtension : String := "map"
  /-- Where patches come from; later ones come after earlier ones. -/
  patchSources : List String := []
  /-- Whether maps without edits are assembled again too. -/
  recompileAll : Bool := false
  /-- Whether listings are written beside the results. -/
  dumpText : Bool := false
  /-- Whether a protocol of the run is written. -/
  debug : Bool := false
  deriving DecidableEq, Repr

namespace Settings

/-- The names of the settings, in order. -/
def fields : List String :=
  ["definitions_path", "input_path", "output_path", "map_extension", "patch_sources", "recompile_all",
   "dump_text", "debug"]

/-- A value that has a default. -/
def withDefault {α : Type} (read : Json → Option α) (default : α) : Option Json → Option α
  | none => some default
  | some j => read j

/-- The settings with the given values. -/
def ofValues (value : String → Option Json) : Option Settings := do
  let definitions ← (← value "definitions_path").text?
  let input ← (← value "input_path").text?
  let output ← (← value "output_path").text?
  let mapExtension ← withDefault Json.text? "map" (value "map_extension")
  let patchSources ← withDefault Json.texts? [] (value "patch_sources")
  let recompileAll ← withDefault Json.boolean? false (value "recompile_all")
  let dumpText ← withDefault Json.boolean? false (value "dump_text")
  let debug ← withDefault Json.boolean? false (value "debug")
  return ⟨definitions, input, output, mapExtension, patchSources, recompileAll, dumpText, debug⟩

/-- Whether members have names, and none that is a setting stands twice. -/
def areDistinct (members : List (Option String × Json)) : Bool :=
  members.all (fun m => m.1.isSome) &&
    fields.all fun f => decide ((members.filter fun m => m.1 == some f).length ≤ 1)

/-- The settings that a JSON value gives. -/
def ofJson? : Json → Option Settings
  | .object members =>
    if areDistinct members then ofValues fun f => members.lookup (some f) else none
  | .array items =>
    if items.length ≤ fields.length then ofValues fun f => (fields.zip items).lookup f else none
  | _ => none

/-- The settings that a text gives. -/
def ofText (text : String) : Except Fault Settings :=
  match (Json.ofText? text).bind ofJson? with
  | some s => .ok s
  | none => .error .settings

/-- Reads settings from a file. -/
def load (path : String) : Job Settings := do
  let text ← Job.fetchText path
  ofText text

end Settings

end EventScript
