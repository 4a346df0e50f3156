import EventScript.Batch.Recompile
import EventScript.Catalog.Loading
import EventScript.Patch.Loading
import EventScript.Settings

/-!
# Batch runs

A run goes through the maps below the input path and leaves a file for each at the same place below
the output path. Maps with edits are assembled again; the others, and those for which that fails, are
copied as they are.
-/

namespace EventScript.Batch

/-- What became of a map. -/
inductive Result where
  | written (units size : Nat)
  | copied
  | failed (cause : Fault)
  deriving DecidableEq, Repr

/-- How many maps were written, copied and failed, and how many lines of patches were skipped. -/
structure Summary where
  written : Nat
  copied : Nat
  failed : Nat
  patchWarnings : Nat
  deriving DecidableEq, Repr

namespace Result

/-- Whether a map was assembled again. -/
def isWritten : Result → Bool
  | written _ _ => true
  | _ => false

/-- Whether a map was copied because nothing was to be done. -/
def isCopied : Result → Bool
  | copied => true
  | _ => false

/-- Whether a map could not be assembled again. -/
def isFailed : Result → Bool
  | failed _ => true
  | _ => false

/-- The lines of the protocol that say what became of a map. -/
def lines (map : String) : Result → List String
  | written units size =>
    [map ++ ": recompiled " ++ Text.decimal units ++ " unit(s), " ++ Text.decimal size ++ " bytes"]
  | copied => []
  | failed cause => [map ++ ": FAILED (" ++ cause.message ++ "), original copied"]

end Result

namespace Summary

/-- The summary of results. -/
def ofResults (results : List Result) (patchWarnings : Nat) : Summary :=
  ⟨results.countP Result.isWritten, results.countP Result.isCopied, results.countP Result.isFailed,
   patchWarnings⟩

/-- The last line of the protocol. -/
def line (s : Summary) : String :=
  "written " ++ Text.decimal s.written ++ ", copied " ++ Text.decimal s.copied ++ ", failed "
    ++ Text.decimal s.failed ++ ", patch warnings " ++ Text.decimal s.patchWarnings

end Summary

/-- Writes a listing beside the result of a map. -/
def writeListing (result extension : String) (lines : List String) : Job Unit :=
  Job.store (Path.withExtension result extension) (Utf8.encode ("\n".intercalate lines))

/-- The bytes of a map after edits. If listings are wanted, those before and after the edits are
written before the text is assembled. -/
def recompile (s : Settings) (catalog : Catalog) (patches : PatchSet) (map output : String)
    (m : MapFile) : Job Bytes :=
  if s.dumpText then do
    let before ← m.listing catalog
    let after ← (patches.apply map before : Traced Notice Fault _)
    writeListing output "before.txt" before
    writeListing output "after.txt" after
    m.rebuild catalog map after
  else Job.ofTraced (m.recompile catalog patches map)

/-- What is done with a map that has been read. -/
def conclude (s : Settings) (catalog : Catalog) (patches : PatchSet) (map output : String) (raw : Bytes)
    (m : MapFile) : Job Result := do
  if !s.recompileAll && !patches.hasMap map then
    Job.store output raw
    return .copied
  else
    match ← (recompile s catalog patches map output m).attempt with
    | .ok bytes =>
      Job.note ⟨.info, map ++ ": " ++ Text.decimal m.units.length ++ " unit(s) recompiled"⟩
      Job.store output bytes
      return .written m.units.length bytes.length
    | .error e =>
      Job.note ⟨.error, map ++ ": " ++ e.message ++ "; copying the original"⟩
      Job.store output raw
      return .failed e

/-- The name by which a run knows the map that names lead to. -/
def mapName (s : Settings) (names : Location) : String := mapKey (Path.below s.input names)

/-- Goes through one map, given by the names that lead to it from the input path. -/
def processMap (s : Settings) (catalog : Catalog) (patches : PatchSet) (names : Location) :
    Job Result := do
  let raw ← Job.fetch (Path.below s.input names)
  let m ← MapFile.decode raw
  conclude s catalog patches (mapName s names) (Path.join s.output (Path.ofSegments names)) raw m

/-- The maps below the input path, by the names that lead to them from there. -/
def findMaps (s : Settings) : Job (List Location) := do
  let found ← Job.filesUnder s.input
  return found.filter fun names => Path.hasExtension (Path.below s.input names) s.mapExtension

/-- The line of the protocol for a line of a patch that was skipped. -/
def skippedLine (w : Patch.Warning) : String :=
  "skipped patch line " ++ w.source ++ ":" ++ Text.decimal w.line ++ ": " ++ Text.quoted w.text

/-- Notes that there is no map for some edits. -/
def noteMissing (map : String) : Job Unit :=
  Job.note ⟨.warn, "patches target map '" ++ map ++ "' which is not in the input"⟩

/-- The line of the protocol for edits without a map. -/
def missingLine (map : String) : String := "no container for patched map '" ++ map ++ "'"

/-- The names of the maps that edits are for and that are not among those found. -/
def missingMaps (s : Settings) (patches : PatchSet) (maps : List Location) : List String :=
  patches.mapNames.filter fun name => !(maps.map (mapName s)).contains name

/-- The lines of the protocol of a run. -/
def protocol (s : Settings) (patches : PatchSet) (warnings : List Patch.Warning) (maps : List Location)
    (results : List Result) : List String :=
  warnings.map skippedLine ++ (missingMaps s patches maps).map missingLine
    ++ ((maps.map (mapName s)).zip results).flatMap (fun p => p.2.lines p.1)
    ++ [(Summary.ofResults results warnings.length).line]

/-- Writes the protocol of a run. -/
def writeLog (s : Settings) (lines : List String) : Job Unit :=
  Job.put (Path.join s.output "compile_log.txt")
    (Utf8.encode (String.join (lines.map fun l => l ++ "\n")))

/-- Writes the protocol of a run if that is wanted. -/
def report (s : Settings) (lines : List String) : Job Unit :=
  if s.debug then writeLog s lines else pure ()

/-- Makes the output directory if nothing is there. -/
def prepareOutput (s : Settings) : Job Unit := do
  if ← Job.look fun d => d.exists? s.output then return ()
  else Job.makeDirectories s.output

/-- A batch run. -/
def run (s : Settings) : Job Summary := do
  unless ← Job.look fun d => d.exists? s.input do
    Job.fail (.missingInput s.input)
  prepareOutput s
  let catalog ← Catalog.load s.definitions
  let (patches, warnings) ← Patch.load s.patchSources
  let maps ← findMaps s
  Job.note ⟨.info, Text.decimal maps.length ++ " map(s) under " ++ s.input ++ ", patches for "
    ++ Text.decimal patches.mapNames.length ++ " map(s)"⟩
  (missingMaps s patches maps).forM noteMissing
  let results ← maps.mapM (processMap s catalog patches)
  report s (protocol s patches warnings maps results)
  return Summary.ofResults results warnings.length

end EventScript.Batch
