import EventScript.Settings

/-!
# Command lines

A command line is a row of options. An option is `--name value`, `--name=value`, or for a switch
`--name`. `Command.ofArguments` gives the command that the options stand for.
-/

namespace EventScript.CommandLine

/-- An option that has a value. -/
inductive Choice where
  | config
  | definitions
  | input
  | output
  | mapExtension
  | patch
  | dumpMap
  | roundtripMap
  deriving DecidableEq, Repr

/-- An option that has none. -/
inductive Switch where
  | recompileAll
  | dumpText
  | debug
  deriving DecidableEq, Repr

namespace Choice

/-- The name of an option. -/
def name : Choice → String
  | config => "config"
  | definitions => "definitions"
  | input => "input"
  | output => "output"
  | mapExtension => "map-extension"
  | patch => "patch"
  | dumpMap => "dump-map"
  | roundtripMap => "roundtrip-map"

/-- All options that have a value. -/
def all : List Choice :=
  [config, definitions, input, output, mapExtension, patch, dumpMap, roundtripMap]

/-- The option with a name. -/
def ofName? (s : String) : Option Choice := all.find? fun c => c.name == s

/-- Whether an option can have a value; paths are not empty. -/
def admits (c : Choice) (value : String) : Bool := c == mapExtension || value != ""

/-- Whether an option may stand more than once. -/
def isRepeatable (c : Choice) : Bool := c == patch

end Choice

namespace Switch

/-- The name of a switch. -/
def name : Switch → String
  | recompileAll => "recompile-all"
  | dumpText => "dump-text"
  | debug => "debug"

/-- All switches. -/
def all : List Switch := [recompileAll, dumpText, debug]

/-- The switch with a name. -/
def ofName? (s : String) : Option Switch := all.find? fun w => w.name == s

end Switch

/-- The options of a command line, in order. -/
structure Options where
  values : List (Choice × String) := []
  switches : List Switch := []
  deriving DecidableEq, Repr

namespace Options

/-- The value of an option. -/
def value? (o : Options) (c : Choice) : Option String := o.values.lookup c

/-- All values of an option. -/
def valuesOf (o : Options) (c : Choice) : List String :=
  (o.values.filter fun p => p.1 == c).map Prod.snd

/-- Adds an option with a value. -/
def add? (o : Options) (c : Choice) (value : String) : Option Options :=
  if c.admits value && (c.isRepeatable || (o.value? c).isNone) then
    some { o with values := o.values ++ [(c, value)] }
  else none

/-- Adds a switch. -/
def turn? (o : Options) (w : Switch) : Option Options :=
  if o.switches.contains w then none else some { o with switches := o.switches ++ [w] }

end Options

/-- Where the definitions are: in a directory, or in that which settings name. -/
inductive DefinitionsPlace where
  | directory (path : String)
  | settings (path : String)
  deriving DecidableEq, Repr

/-- What is to be done. -/
inductive Command where
  | version
  | dump (definitions : DefinitionsPlace) (map : String)
  | roundtrip (definitions : DefinitionsPlace) (map : String)
  | runSettings (path : String)
  | run (settings : Settings)
  deriving DecidableEq, Repr

namespace Options

/-- Where the definitions are. -/
def definitions? (o : Options) : Option DefinitionsPlace :=
  match o.value? .definitions, o.value? .config with
  | some path, _ => some (.directory path)
  | none, some path => some (.settings path)
  | none, none => none

/-- The settings that options give. -/
def settings? (o : Options) : Option Settings := do
  return {
    definitions := ← o.value? .definitions
    input := ← o.value? .input
    output := ← o.value? .output
    mapExtension := (o.value? .mapExtension).getD "map"
    patchSources := o.valuesOf .patch
    recompileAll := o.switches.contains .recompileAll
    dumpText := o.switches.contains .dumpText
    debug := o.switches.contains .debug }

/-- The command that options stand for. -/
def command? (o : Options) : Option Command :=
  match o.definitions? with
  | none => none
  | some place =>
    match o.value? .dumpMap, o.value? .roundtripMap, o.value? .config with
    | some map, _, _ => some (.dump place map)
    | none, some map, _ => some (.roundtrip place map)
    | none, none, some path => some (.runSettings path)
    | none, none, none => o.settings?.map .run

end Options

/-- Whether an argument can be the value of the option before it. -/
def isValue (argument : String) : Bool :=
  argument.toList.head? != some '-' || argument == "-"

/-- What an argument brings. -/
inductive Step where
  /-- Something that is no option. -/
  | refused
  /-- The question for the version. -/
  | version
  /-- The end of all options. -/
  | stop
  /-- The options so far. -/
  | options (o : Options)
  /-- An option whose value is the next argument. -/
  | pending (c : Choice)
  deriving DecidableEq, Repr

namespace Options

/-- The step to options, if there are any. -/
def step : Option Options → Step
  | some o => .options o
  | none => .refused

/-- What an argument brings after some options. -/
def read (o : Options) (argument : String) : Step :=
  match argument.toList with
  | '-' :: 'V' :: _ => .version
  | ['-', '-'] => .stop
  | '-' :: '-' :: body =>
    match Text.cutAt? '=' body with
    | some (name, value) =>
      step ((Choice.ofName? (String.ofList name)).bind fun c => o.add? c (String.ofList value))
    | none =>
      let name := String.ofList body
      if name = "version" then .version
      else
        match Switch.ofName? name, Choice.ofName? name with
        | some w, _ => step (o.turn? w)
        | none, some c => .pending c
        | none, none => .refused
  | _ => .refused

/-- The command of the arguments that follow some options and maybe an option without its value, or
`none` if they stand for none. The version is given as soon as it is asked for. -/
def commandFrom (o : Options) (pending : Option Choice) : List String → Option Command
  | [] => if pending.isNone then o.command? else none
  | argument :: rest =>
    match pending with
    | some c =>
      match if isValue argument then o.add? c argument else none with
      | some o => o.commandFrom none rest
      | none => none
    | none =>
      match o.read argument with
      | .refused => none
      | .version => some .version
      | .stop => if rest.isEmpty then o.command? else none
      | .options o => o.commandFrom none rest
      | .pending c => o.commandFrom (some c) rest

end Options

/-- The command of a command line, or `none` if it stands for none. -/
def Command.ofArguments (arguments : List String) : Option Command := Options.commandFrom {} none arguments

end EventScript.CommandLine
