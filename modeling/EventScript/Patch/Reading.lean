import EventScript.Patch.Basic
import EventScript.Text.Quoted

/-!
# Patch files

A line of a patch file that is not indented names a map; the indented lines after it are edits of the
form position, tab, text. The text `null` takes the line out. Lines that cannot be understood lead to
warnings.
-/

namespace EventScript.Patch

/-- Why an indented line is no edit. -/
inductive Reason where
  | noMap
  | noTab
  | badPosition
  deriving DecidableEq, Repr

/-- The wording of a reason. -/
def Reason.message : Reason → String
  | noMap => "edit before any map name"
  | noTab => "expected position<TAB>text"
  | badPosition => "line position is not a positive integer"

/-- A line that was passed over. -/
structure Warning where
  source : String
  line : Nat
  text : String
  reason : Reason
  deriving DecidableEq, Repr

/-- The notice for a warning. -/
def Warning.notice (w : Warning) : Notice :=
  ⟨.warn, w.source ++ ":" ++ Text.decimal w.line ++ ": " ++ w.reason.message ++ " ("
    ++ Text.quoted w.text ++ ")"⟩

/-- What a line of a patch file says. -/
inductive Content where
  /-- Blank, or a comment. -/
  | nothing
  | heading (key : String)
  | edit (position : Nat) (entry : Entry)
  | bad (reason : Reason)
  deriving DecidableEq, Repr

/-- What an indented line says. -/
def Content.ofIndented (raw : List Char) : Content :=
  match Text.cutAt? '\t' (Text.trimStart raw) with
  | none => .bad .noTab
  | some (position, body) =>
    match Text.unsigned? Text.maxWord64 (Text.trim position) with
    | none => .bad .badPosition
    | some position =>
      if position = 0 then .bad .badPosition
      else if body = "null".toList then .edit position .delete
      else .edit position (.insert (String.ofList body))

/-- Whether a line begins with a space or a tab. -/
def isIndented (raw : List Char) : Bool :=
  match raw with
  | c :: _ => c == ' ' || c == '\t'
  | [] => false

/-- What a line says. -/
def Content.ofLine (raw : List Char) : Content :=
  if (Text.trim raw).isEmpty then .nothing
  else if isIndented raw then ofIndented raw
  else
    let heading := Text.trim raw
    if (Text.after? ['#'] heading).isSome || (Text.after? ['/', '/'] heading).isSome then .nothing
    else .heading (mapKey (String.ofList heading))

/-- What is known after some lines. -/
structure State where
  set : PatchSet := PatchSet.empty
  warnings : List Warning := []
  /-- The key of the map that edits are for. -/
  current : Option String := none

/-- Goes on with a line. -/
def State.step (source : String) (s : State) (line : Nat × List Char) : State :=
  let raw := (line.2.reverse.dropWhile fun c => c == '\r').reverse
  let warn (reason : Reason) : State :=
    { s with warnings := s.warnings ++ [⟨source, line.1, String.ofList raw, reason⟩] }
  match Content.ofLine raw, s.current with
  | .nothing, _ => s
  | .heading key, _ => { s with current := some key }
  | .edit _ _, none => warn .noMap
  | .bad _, none => warn .noMap
  | .bad reason, some _ => warn reason
  | .edit position entry, some map => { s with set := s.set.push map position entry }

/-- Reads a patch file. -/
def read (source text : String) : PatchSet × List Warning :=
  let s := (Text.numbered (Text.lines text.toList)).foldl (State.step source) {}
  (s.set, s.warnings)

/-- Reads a patch file and leaves notices. -/
def readNoted {ε : Type} (source text : String) : Traced Notice ε (PatchSet × List Warning) :=
  let r := read source text
  ⟨r.2.map Warning.notice, .ok r⟩

end EventScript.Patch
