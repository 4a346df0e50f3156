import EventScript.Catalog.Basic
import EventScript.Code.Fault
import EventScript.Source.Fault

/-!
# Faults

Everything that can end an operation, by cause. `Fault.message` has the wording.
-/

namespace EventScript

/-- A size or position that does not fit. -/
inductive BoundsFault where
  | recordLength (length : Nat)
  | nameField (name : String)
  | unitChunk (length : Nat)
  | window (unit what : String) (start stop length : Nat)
  | stringOffset (unit : String) (offset length : Nat)
  | openString (unit : String) (offset : Nat)
  | entryPast (unit : String) (entry length : Nat)
  | gap (index : Nat) (unit : String) (start expected : Nat)
  | zeroInString (unit text : String)
  | tooLarge (what : String)
  | chunkTooLarge (tag : String)
  | codeTooLarge (map : String)
  deriving DecidableEq, Repr

/-- The number of bytes of a unit record. -/
def recordSize : Nat := 165

/-- The number of bytes for a unit's name in its record. -/
def nameSize : Nat := 128

/-- The wording of a fault. -/
def BoundsFault.message : BoundsFault → String
  | recordLength length =>
    "unit header record is " ++ Text.decimal length ++ " bytes, expected " ++ Text.decimal recordSize
  | nameField name =>
    "unit name '" ++ name ++ "' does not fit the " ++ Text.decimal nameSize ++ "-byte name field"
  | unitChunk length =>
    "UNIT chunk length " ++ Text.decimal length ++ " is not a multiple of " ++ Text.decimal recordSize
  | window unit what start stop length =>
    "unit '" ++ unit ++ "': " ++ what ++ " window " ++ Text.decimal start ++ ".." ++ Text.decimal stop
      ++ " exceeds chunk length " ++ Text.decimal length
  | stringOffset unit offset length =>
    "unit '" ++ unit ++ "': string offset " ++ Text.decimal offset ++ " exceeds pool length "
      ++ Text.decimal length
  | openString unit offset =>
    "unit '" ++ unit ++ "': string at offset " ++ Text.decimal offset ++ " is not NUL-terminated"
  | entryPast unit entry length =>
    "unit '" ++ unit ++ "': entry pc " ++ Text.decimal entry ++ " is past script length "
      ++ Text.decimal length
  | gap index unit start expected =>
    "unit " ++ Text.decimal index ++ " '" ++ unit ++ "' starts its bytecode at " ++ Text.decimal start
      ++ ", but the previous units end at " ++ Text.decimal expected
  | zeroInString unit text =>
    "unit '" ++ unit ++ "' string " ++ Text.quoted text ++ " contains a NUL byte"
  | tooLarge what => what ++ " exceeds the 32-bit format limit"
  | chunkTooLarge tag => "chunk '" ++ tag ++ "' exceeds 4 GiB and cannot be stored"
  | codeTooLarge map => map ++ ": code exceeds 4 GiB"

/-- The reason why an operation ended without a result. -/
inductive Fault where
  | file (cause : Disk.Fault)
  | truncatedChunk (tag : String) (offset : Nat)
  | bounds (cause : BoundsFault)
  | code (unit : String) (cause : Code.Fault)
  | line (map : String) (number : Nat) (cause : Source.Fault)
  | unresolvedLabel (map unit : String) (label : UInt32)
  | catalog (cause : Catalog.Fault)
  | missingInput (path : String)
  /-- Settings that are no JSON, or not of the right form. -/
  | settings
  /-- An archive that cannot be used. -/
  | archive
  /-- A directory that cannot be walked. -/
  | walk
  deriving DecidableEq, Repr

/-- The wording of a fault of bytecode. -/
def Code.Fault.message (unit : String) : Code.Fault → String
  | truncated want position length =>
    "bounds error: unit '" ++ unit ++ "': operand of " ++ Text.decimal want ++ " bytes at offset "
      ++ Text.decimal position ++ " runs past script length " ++ Text.decimal length
  | unknownOpcode offset opcode =>
    "unknown opcode 0x" ++ Text.hexByte opcode ++ " in unit '" ++ unit ++ "' at offset "
      ++ Text.decimal offset
  | crossesEnd stop =>
    "bounds error: unit '" ++ unit ++ "': statement crosses the block end at offset "
      ++ Text.decimal stop
  | longBlock size position length =>
    "bounds error: unit '" ++ unit ++ "': block of " ++ Text.decimal size ++ " bytes at offset "
      ++ Text.decimal position ++ " runs past script length " ++ Text.decimal length
  | noString index count =>
    "bounds error: unit '" ++ unit ++ "': string index " ++ Text.decimal index.toNat
      ++ " outside its table of " ++ Text.decimal count
  | strayLabel label =>
    "bounds error: unit '" ++ unit ++ "': label #" ++ Text.decimal label.toNat
      ++ " does not land on an instruction"

/-- The wording of a fault. -/
def Fault.message : Fault → String
  | file cause => "IO error: " ++ cause.message
  | truncatedChunk tag offset => "truncated chunk '" ++ tag ++ "' at offset " ++ Text.decimal offset
  | bounds cause => "bounds error: " ++ cause.message
  | code unit cause => cause.message unit
  | line map number (.unknownSymbol name) =>
    "unknown symbol '" ++ name ++ "' in " ++ map ++ " line " ++ Text.decimal number
  | line map number cause =>
    "syntax error in " ++ map ++ " line " ++ Text.decimal number ++ ": " ++ cause.message
  | unresolvedLabel map unit label =>
    "label #" ++ Text.decimal label.toNat ++ " is used but never defined in unit '" ++ unit ++ "' of "
      ++ map
  | catalog cause => "catalog error: " ++ cause.message
  | missingInput path => "configuration error: Input path does not exist: " ++ path
  | settings => "JSON error: "
  | archive => "zip error: "
  | walk => "directory walk error: "

end EventScript
