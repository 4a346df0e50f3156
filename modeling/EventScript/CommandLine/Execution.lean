import EventScript.Batch.Basic
import EventScript.CommandLine.Basic

/-!
# Carrying out commands

A command ends with a code and with texts for the standard output and for errors.
-/

namespace EventScript.CommandLine

/-- What a command leaves. -/
structure Outcome where
  code : UInt8
  output : String
  errors : String
  deriving DecidableEq, Repr

namespace Outcome

/-- A command that did what it had to do. -/
def success (lines : List String) : Outcome := ⟨0, String.join (lines.map fun l => l ++ "\n"), ""⟩

/-- A command that failed. -/
def failure (line : String) : Outcome := ⟨1, "", line ++ "\n"⟩

/-- A command line that stands for no command. -/
def misuse : Outcome := ⟨2, "", "error: the arguments make no command\n"⟩

end Outcome

/-- Goes on with the value of a job, or ends with what a fault gives. -/
def settle {α : Type} (x : Job α) (onFault : Fault → Outcome) (next : α → Job Outcome) :
    Job Outcome := do
  match ← x.attempt with
  | .ok a => next a
  | .error e => return onFault e

/-- The wording of a failure at a path. -/
def failedAt (what path : String) (e : Fault) : String :=
  "Failed to " ++ what ++ " " ++ Text.quoted path ++ ": " ++ e.message

/-- Goes on with the catalog of a place. -/
def withCatalog (place : DefinitionsPlace) (next : Catalog → Job Outcome) : Job Outcome :=
  let fromDirectory (path : String) : Job Outcome :=
    settle (Catalog.load path) (fun e => .failure (failedAt "load definitions from" path e)) next
  match place with
  | .directory path => fromDirectory path
  | .settings path =>
    settle (Settings.load path) (fun e => .failure (failedAt "load" path e)) fun s =>
      fromDirectory s.definitions

/-- Shows the text of a map. -/
def dump (map : String) (catalog : Catalog) : Job Outcome :=
  settle (dumpMap catalog map) (fun e => .failure (failedAt "disassemble" map e)) fun lines =>
    return .success lines

/-- Says whether a map is the same after its text was assembled again. -/
def roundtrip (map : String) (catalog : Catalog) : Job Outcome :=
  settle (roundtripMap catalog map) (fun e => .failure (failedAt "round-trip" map e)) fun same =>
    return if same then .success [Text.quoted map ++ ": identical"]
      else ⟨2, Text.quoted map ++ ": bytes differ after reassembly\n", ""⟩

/-- What is said after a batch run. -/
def summaryLine (s : Batch.Summary) : String :=
  Text.decimal s.written ++ " written, " ++ Text.decimal s.copied ++ " copied, "
    ++ Text.decimal s.failed ++ " failed, " ++ Text.decimal s.patchWarnings
    ++ " patch line(s) skipped"

/-- A batch run. -/
def batch (s : Settings) : Job Outcome :=
  settle (Batch.run s) (fun e => .failure ("Error: " ++ e.message)) fun summary =>
    return .success [summaryLine summary]

/-- Carries out a command. -/
def Command.execute : Command → Job Outcome
  | version => return .success ["mapscript 0.1.0"]
  | dump place map => withCatalog place (CommandLine.dump map)
  | roundtrip place map => withCatalog place (CommandLine.roundtrip map)
  | runSettings path =>
    settle (Settings.load path) (fun e => .failure ("Error: " ++ failedAt "load" path e)) batch
  | run settings => batch settings

/-- Carries out a command line. -/
def execute (arguments : List String) : Job Outcome :=
  match Command.ofArguments arguments with
  | some command => command.execute
  | none => return .misuse

end EventScript.CommandLine
