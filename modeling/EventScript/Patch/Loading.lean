import EventScript.Archive.Basic
import EventScript.Disk.Job
import EventScript.Patch.Reading

/-!
# Patch sources

Edits come from a patch file, from the patch files of a directory, or from those of an archive. The
edits of later sources come after those of earlier ones.
-/

namespace EventScript.Patch

/-- Whether a name is that of a patch file. -/
def isPatchFile (name : String) : Bool := Path.hasExtension name "patch"

/-- The patch files of a directory with their paths, in the order of a walk. -/
def directoryFiles (path : String) : Job (List (String × String)) := do
  let found ← Job.filesUnder path
  let paths := (found.map (Path.below path)).filter isPatchFile
  paths.mapM fun p => do return (p, ← Job.fetchText p)

/-- The patch files of an archive, named after it and ordered by name. -/
def archiveFiles (path : String) : Job (List (String × String)) := do
  let raw ← Job.fetch path
  let files ← Archive.texts raw isPatchFile
  return (files.map fun f => (path ++ "!" ++ f.1, f.2)).mergeSort fun a b => decide (a.1 ≤ b.1)

/-- The patch files of a source. -/
def filesOf (path : String) : Job (List (String × String)) := do
  if ← Job.look fun d => d.isDirectory path then directoryFiles path
  else if Path.hasExtension path "zip" then archiveFiles path
  else return [(path, ← Job.fetchText path)]

/-- Reads a patch file and notes how many maps it is for. -/
def readNamed (name text : String) : Job (PatchSet × List Warning) := do
  let r ← (readNoted name text : Traced Notice Fault _)
  Job.note ⟨.debug, name ++ ": edits for " ++ Text.decimal r.1.maps.length ++ " map(s)"⟩
  return r

/-- Reads the edits of a source. -/
def loadSource (path : String) : Job (PatchSet × List Warning) := do
  let files ← filesOf path
  let parts ← files.mapM fun f => readNamed f.1 f.2
  return (PatchSet.merge (parts.map Prod.fst), parts.flatMap Prod.snd)

/-- Reads the edits of several sources. -/
def load (paths : List String) : Job (PatchSet × List Warning) := do
  let parts ← paths.mapM loadSource
  return (PatchSet.merge (parts.map Prod.fst), parts.flatMap Prod.snd)

end EventScript.Patch
