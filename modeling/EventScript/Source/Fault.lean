import EventScript.Source.Token

/-!
# What can be wrong with a line of script
-/

namespace EventScript.Source

/-- The numbers of the script text that have to fit one byte. -/
inductive ByteField where
  | anchor
  | resultValue
  | kind
  | attributeValue
  deriving DecidableEq, Repr

/-- The wording for a number that has to fit one byte. -/
def ByteField.text : ByteField → String
  | anchor => "anchor"
  | resultValue => "result value"
  | kind => "kind"
  | attributeValue => "attribute value"

/-- The reason why a line is refused. -/
inductive Fault where
  | unknownSymbol (name : String)
  | unterminatedEscape
  | unterminatedString
  | badLabel (rest : String)
  | integerRange (digits : String)
  | badCharacter (c : Char)
  | expectedSymbol (symbol : Symbol)
  | afterStatement (token : Token)
  | expectedLabel
  | expectedInteger
  | integerAfterMinus
  | notValue (token : Token)
  | missingValue
  | expectedMember
  | ordinalRange (ordinal : Nat) (name : String) (most : Nat)
  | wordRange (value : Int)
  | byteRange (field : ByteField) (value : Int)
  | labelTwice (label : UInt32)
  | unclosedBlock (unit : String)
  | strayBrace
  | blockTooLong
  | expectedMarker
  | expectedComparator
  | inCondition (token : Token)
  | expectedCall
  | expectedStatement
  | notAssignable
  | takesNoArguments (routine : String)
  | tooManyArguments (routine : String)
  | arithmeticInArguments
  | notPreamble (line : String)
  | instanceRange (value : Int)
  | entryRange
  | expectedEntry
  | expectedString
  | negativeCount
  | variableExcess (values slots : Nat)
  | noBody (unit : String)
  | expectedUnit (line : String)
  deriving DecidableEq, Repr

/-- The wording of a fault. -/
def Fault.message : Fault → String
  | unknownSymbol name => "unknown symbol '" ++ name ++ "'"
  | unterminatedEscape => "unterminated escape"
  | unterminatedString => "unterminated string"
  | badLabel rest => "bad label '" ++ rest ++ "'"
  | integerRange digits => "integer '" ++ digits ++ "' out of range"
  | badCharacter c => "unexpected character '" ++ String.ofList [c] ++ "'"
  | expectedSymbol symbol => "expected '" ++ symbol.text ++ "'"
  | afterStatement token => "unexpected " ++ token.display ++ " after statement"
  | expectedLabel => "expected a label '#N'"
  | expectedInteger => "expected an integer"
  | integerAfterMinus => "expected an integer after '-'"
  | notValue token => "unexpected " ++ token.display ++ " where a value was expected"
  | missingValue => "missing value"
  | expectedMember => "expected a member name after '.'"
  | ordinalRange ordinal name most =>
    "ordinal " ++ Text.decimal ordinal ++ " of '" ++ name ++ "' exceeds " ++ Text.decimal most
  | wordRange value => Text.signedDecimal value ++ " does not fit a 32-bit integer"
  | byteRange field value =>
    field.text ++ " " ++ Text.signedDecimal value ++ " is out of range 0-255"
  | labelTwice label => "label #" ++ Text.decimal label.toNat ++ " defined twice"
  | unclosedBlock unit => "block of unit '" ++ unit ++ "' is never closed"
  | strayBrace => "'" ++ Text.leftBrace ++ "' without a preceding if"
  | blockTooLong => "block exceeds the 32-bit length limit"
  | expectedMarker => "expected '@anchor n' or '@pause #N'"
  | expectedComparator => "expected a comparator"
  | inCondition token => "unexpected " ++ token.display ++ " in condition"
  | expectedCall => "expected a routine call"
  | expectedStatement => "expected a call or an assignment"
  | notAssignable => "only a flag, variable or field can be assigned"
  | takesNoArguments routine => routine ++ " takes no arguments"
  | tooManyArguments routine => "too many arguments to " ++ routine
  | arithmeticInArguments => "arithmetic is not allowed in call arguments"
  | notPreamble line => "unexpected line '" ++ line ++ "' before the unit body"
  | instanceRange value => "instance count " ++ Text.signedDecimal value ++ " out of range"
  | entryRange => "entry out of range"
  | expectedEntry => "expected '#N' or an address after 'entry ='"
  | expectedString => "expected a quoted string"
  | negativeCount => "negative variable count"
  | variableExcess values slots =>
    Text.decimal values ++ " variable values given for " ++ Text.decimal slots ++ " slots"
  | noBody unit => "unit '" ++ unit ++ "' has no body"
  | expectedUnit line => "expected 'unit \"Name\"', found '" ++ line ++ "'"

end EventScript.Source
