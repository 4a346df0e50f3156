import EventScript.Assembly.Preamble
import EventScript.Assembly.Statement
import EventScript.Code.Label
import EventScript.Fault
import EventScript.Source.Line

/-!
# Assembly

`assemble` turns the lines of a script into units. It goes through the prepared lines one at a time;
`State` is what is known after some lines. Labels keep their numbers until the body of a unit is
complete, and only then become addresses.
-/

namespace EventScript.Assembly

open Source (Line)

/-- A block that is open: its guard, and the statements in front of it, the last one first. -/
structure Frame where
  guard : Code.Guard
  before : List Code.Statement

/-- A body that is not complete. -/
structure Body where
  strings : List String
  /-- The labels that have been marked. -/
  marked : List UInt32 := []
  /-- The open blocks, the innermost first. -/
  frames : List Frame := []
  /-- The statements of the innermost block, the last one first. -/
  done : List Code.Statement := []
  /-- A guard whose block may begin with the next line. -/
  pending : Option Code.Guard := none

/-- What the lines so far make of the current unit. -/
inductive Phase where
  /-- No unit has begun. -/
  | idle
  | preamble (name : String) (preamble : Preamble)
  | body (name : String) (preamble : Preamble) (body : Body)

/-- What is known after some lines. -/
structure State where
  /-- The line that a fault at the end of the text is blamed on. -/
  line : Nat := 0
  units : List ScriptUnit := []
  /-- The length of the code of all units. -/
  offset : Nat := 0
  phase : Phase := .idle

namespace Body

/-- Gives a guard that no block follows an empty one. -/
def settle (b : Body) : Body :=
  match b.pending with
  | some guard => { b with done := .block guard [] :: b.done, pending := none }
  | none => b

/-- Begins the block of a guard. -/
def openBlock (b : Body) (guard : Code.Guard) : Body :=
  { b with frames := ⟨guard, b.done⟩ :: b.frames, done := [], pending := none }

/-- Ends the innermost block of a body without a pending guard, if one is open. The length of a block is
written as a word of 32 bits. -/
def closeBlock? (b : Body) : Option (Except Source.Fault Body) :=
  match b.frames with
  | [] => none
  | f :: fs =>
    let inner := b.done.reverse
    some (if Code.blockSize inner ≤ 4294967295 then
        .ok { b with frames := fs, done := .block f.guard inner :: f.before }
      else .error .blockTooLong)

/-- Adds what a line says. A label may be marked only once. -/
def add (b : Body) : Piece → Except Source.Fault Body
  | .guard guard => .ok { b with pending := some guard }
  | .statement (.mark label) =>
    if b.marked.contains label then .error (.labelTwice label)
    else .ok { b with marked := label :: b.marked, done := .mark label :: b.done }
  | .statement s => .ok { b with done := s :: b.done }

end Body

/-- The address of a label. -/
def address? (marks : List (UInt32 × Nat)) (label : UInt32) : Option Nat := marks.lookup label

/-- What is written for a label: the low half of its address. -/
def lowAddress (marks : List (UInt32 × Nat)) (label : UInt32) : UInt32 :=
  UInt32.ofNat (((address? marks label).getD 0) % 65536)

/-- Makes sure that a label has an address, and notes one that is too large to be written. -/
def checkLabel (map unit : String) (marks : List (UInt32 × Nat)) (label : UInt32) :
    Traced Notice Fault Unit :=
  match address? marks label with
  | none => Traced.fail (.unresolvedLabel map unit label)
  | some address =>
    Traced.noteIf (65535 < address)
      ⟨.warn, map ++ ": unit '" ++ unit ++ "' label #" ++ Text.decimal label.toNat ++ " at "
        ++ Text.decimal address ++ " does not fit its 16-bit slot"⟩

/-- Makes sure that labels have addresses. -/
def checkLabels (map unit : String) (marks : List (UInt32 × Nat)) :
    List UInt32 → Traced Notice Fault Unit
  | [] => Traced.value ()
  | l :: ls => do
    checkLabel map unit marks l
    checkLabels map unit marks ls

/-- The address at which a unit starts. -/
def entryOf (map unit : String) (marks : List (UInt32 × Nat)) (p : Preamble) : Except Fault UInt32 :=
  match p.entryLabel with
  | some label =>
    match address? marks label with
    | some address => .ok (UInt32.ofNat address)
    | none => .error (.unresolvedLabel map unit label)
  | none => .ok (p.entry.getD 0)

/-- The unit with a complete body. -/
def unitOf (map name : String) (p : Preamble) (strings : List String) (body : List Code.Statement) :
    Traced Notice Fault ScriptUnit := do
  let marks := Code.blockMarks 0 body
  checkLabels map name marks (Code.ascending (Code.blockTargets body ++ marks.map Prod.fst))
  let entry ← entryOf map name marks p
  let code := Code.encodeBlock (lowAddress marks) body
  Traced.note ⟨.debug, map ++ ": unit '" ++ name ++ "' assembled to " ++ Text.decimal code.length
    ++ " bytes, " ++ Text.decimal strings.length ++ " strings"⟩
  return {
    header := {
      name := name
      instances := p.instances
      scriptLength := UInt32.ofNat code.length
      entry := entry
      kind := p.kind }
    strings := strings
    vars := p.vars
    code := code
    attributes := p.attributes }

/-- The notice for a call with an unusual number of arguments. -/
def Arity.notice (map : String) (line : Nat) (a : Arity) : Notice :=
  ⟨.debug, map ++ " line " ++ Text.decimal line ++ ": " ++ a.routine ++ " declared with "
    ++ Text.decimal a.declared ++ " parameters, called with " ++ Text.decimal a.given⟩

namespace State

/-- Adds a unit, whose code follows that of the units before. -/
def addUnit (map : String) (s : State) (u : ScriptUnit) : Except Fault State :=
  let u := { u with header := { u.header with scriptOffset := UInt32.ofNat s.offset } }
  let offset := s.offset + u.header.scriptLength.toNat
  if offset ≤ 4294967295 then
    .ok { s with units := s.units ++ [u], offset := offset, phase := .idle }
  else .error (.bounds (.codeTooLarge map))

/-- Goes on with a line outside of units. -/
def begin (map : String) (s : State) (l : Line) : Except Fault State :=
  match Source.tokens l.text with
  | .ok [.ident "unit", .str name] => .ok { s with line := l.number, phase := .preamble name {} }
  | _ => .error (.line map l.number (.expectedUnit (String.ofList l.text)))

/-- Goes on with a line before a body. -/
def prepare (catalog : Catalog) (map : String) (s : State) (name : String) (p : Preamble) (l : Line) :
    Except Fault State :=
  if l.text = ['{'] then
    .ok { s with line := l.number, phase := .body name p { strings := p.strings } }
  else
    match p.read catalog l.text with
    | .ok p => .ok { s with line := l.number, phase := .preamble name p }
    | .error e => .error (.line map l.number e)

/-- Goes on with a statement of a body without a pending guard. -/
def addLine (catalog : Catalog) (map : String) (s : State) (name : String) (p : Preamble) (b : Body)
    (l : Line) : Traced Notice Fault State := do
  let blame := Fault.line map l.number
  let ts ← (Source.tokens l.text).mapError blame
  let (piece, strings) ← ((readPiece catalog ts).run b.strings).mapBoth
    (fun a => [a.notice map l.number]) blame
  let b ← ({ b with strings := strings }.add piece).mapError blame
  return { s with line := l.number, phase := .body name p b }

/-- Goes on with a line of a body. -/
def continueBody (catalog : Catalog) (map : String) (s : State) (name : String) (p : Preamble)
    (b : Body) (l : Line) : Traced Notice Fault State :=
  if l.text = ['{'] then
    match b.pending with
    | some guard => Traced.value { s with phase := .body name p (b.openBlock guard) }
    | none => Traced.fail (.line map l.number .strayBrace)
  else if l.text = ['}'] then
    let b := b.settle
    match b.closeBlock? with
    | some closed => do
      let b ← closed.mapError (Fault.line map l.number)
      return { s with line := l.number, phase := .body name p b }
    | none => do
      let u ← unitOf map name p b.strings b.done.reverse
      { s with line := l.number }.addUnit map u
  else s.addLine catalog map name p b.settle l

/-- Goes on with a line. -/
def step (catalog : Catalog) (map : String) (s : State) (l : Line) : Traced Notice Fault State :=
  match s.phase with
  | .idle => Traced.ofExcept (s.begin map l)
  | .preamble name p => Traced.ofExcept (s.prepare catalog map name p l)
  | .body name p b => s.continueBody catalog map name p b l

/-- The units, if the last one is complete. -/
def finish (map : String) (s : State) : Except Fault (List ScriptUnit) :=
  match s.phase with
  | .idle => .ok s.units
  | .preamble name _ => .error (.line map s.line (.noBody name))
  | .body name _ _ => .error (.line map s.line (.unclosedBlock name))

end State

/-- The units that the lines of a script describe. -/
def assemble (catalog : Catalog) (map : String) (lines : List String) :
    Traced Notice Fault (List ScriptUnit) := do
  let lines ← (Source.preparedFrom catalog 1 lines).mapError fun e => Fault.line map e.1 e.2
  let s ← lines.foldlM (State.step catalog map) {}
  s.finish map

end EventScript.Assembly
