import EventScript.CommandLine.Basic

/-!
# What a command touches

The paths that a command reads and writes, at them or below them. With them a disk can be filled
before a command is carried out.
-/

namespace EventScript

/-- The paths that a batch run touches. -/
def Settings.paths (s : Settings) : List String :=
  s.definitions :: s.input :: s.output :: s.patchSources

namespace CommandLine

/-- The path that is given for the definitions. -/
def DefinitionsPlace.path : DefinitionsPlace → String
  | directory path => path
  | settings path => path

namespace Command

/-- The paths that a command gives. -/
def paths : Command → List String
  | version => []
  | dump place map => [place.path, map]
  | roundtrip place map => [place.path, map]
  | runSettings path => [path]
  | run settings => settings.paths

/-- The file of settings that a command reads. -/
def settingsFile? : Command → Option String
  | dump (.settings path) _ => some path
  | roundtrip (.settings path) _ => some path
  | runSettings path => some path
  | _ => none

end Command

end CommandLine

end EventScript
