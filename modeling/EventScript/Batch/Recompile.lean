import EventScript.Assembly.Basic
import EventScript.Container.Units
import EventScript.Disk.Job
import EventScript.Listing.Basic
import EventScript.Patch.Basic

/-!
# A map assembled again

A map is read from the bytes of its container, shown as text, edited, and assembled into the same
container. `roundtrip` says whether the text without edits gives the same bytes.
-/

namespace EventScript

/-- A container and the units in it. -/
structure MapFile where
  container : Container
  units : List ScriptUnit
  deriving DecidableEq

namespace MapFile

/-- Reads a map from its bytes. -/
def decode (raw : Bytes) : Except Fault MapFile := do
  let container ← Container.decode raw
  let units ← container.units
  return ⟨container, units⟩

/-- The text of a map. -/
def listing (catalog : Catalog) (m : MapFile) : Traced Notice Fault (List String) :=
  ScriptUnit.listings catalog m.units

/-- The bytes of a map after its text was replaced. -/
def rebuild (catalog : Catalog) (map : String) (m : MapFile) (lines : List String) :
    Traced Notice Fault Bytes := do
  let units ← Assembly.assemble catalog map lines
  let container ← m.container.replaceUnits units
  container.encode

/-- The bytes of a map after edits to its text. -/
def recompile (catalog : Catalog) (patches : PatchSet) (map : String) (m : MapFile) :
    Traced Notice Fault Bytes := do
  let before ← m.listing catalog
  let after ← patches.apply map before
  m.rebuild catalog map after

end MapFile

/-- The text of the map in a file. -/
def dumpMap (catalog : Catalog) (path : String) : Job (List String) := do
  let raw ← Job.fetch path
  let m ← MapFile.decode raw
  m.listing catalog

/-- Whether the text of the map in a file, assembled again, gives the same bytes. -/
def roundtripMap (catalog : Catalog) (path : String) : Job Bool := do
  let raw ← Job.fetch path
  let m ← MapFile.decode raw
  let lines ← m.listing catalog
  let bytes ← m.rebuild catalog (mapKey path) lines
  return decide (bytes = raw)

end EventScript
