import EventScript.Name
import EventScript.Source.Fault

/-!
# From characters to tokens

`step` reads one token, or skips one blank, and says what is left; `tokens` reads a whole line.
-/

namespace EventScript.Source

/-- What is left of a text after something was read from its front. -/
abbrev Rest (cs : List Char) := { rest : List Char // rest.length ≤ cs.length }

/-- The text in front of the closing quote and what follows it; a backslash makes the character after
it stand for itself, but `\n` stands for a line feed. -/
def literal : (cs : List Char) → Except Fault (List Char × Rest cs)
  | [] => .error .unterminatedString
  | '"' :: cs => .ok ([], ⟨cs, by simp⟩)
  | ['\\'] => .error .unterminatedEscape
  | '\\' :: c :: cs =>
    match literal cs with
    | .error e => .error e
    | .ok (text, ⟨rest, h⟩) =>
      .ok ((if c = 'n' then '\n' else c) :: text, ⟨rest, by simp; omega⟩)
  | c :: cs =>
    match literal cs with
    | .error e => .error e
    | .ok (text, ⟨rest, h⟩) => .ok (c :: text, ⟨rest, by simp; omega⟩)

/-- The characters at the front that satisfy `p`, and the rest. -/
def spanRest (p : Char → Bool) (cs : List Char) : List Char × Rest cs :=
  (cs.takeWhile p, ⟨cs.dropWhile p, (List.dropWhile_sublist p).length_le⟩)

/-- The largest integer that a token can hold. -/
def maxInteger : Nat := 9223372036854775807

/-- The largest label number. -/
def maxLabel : Nat := 4294967295

/-- The characters of the marker `<ScriptRv>` after its first. -/
def resultTail : List Char := resultMarker.toList ++ ['>']

/-- Reads a symbol or the marker `<ScriptRv>` that begins with `c`. -/
def symbolStep (c : Char) (cs : List Char) : Except Fault (Token × Rest cs) :=
  if c = '<' ∧ (Text.after? resultTail cs).isSome then
    .ok (.result, ⟨cs.drop resultTail.length, by simp⟩)
  else
    match Symbol.withEqual? c, cs with
    | some s, '=' :: rest => .ok (.sym s, ⟨rest, by simp⟩)
    | _, cs =>
      match Symbol.ofChar? c with
      | some s => .ok (.sym s, ⟨cs, Nat.le_refl _⟩)
      | none => .error (.badCharacter c)

/-- Reads what begins with `c`: a token, or nothing if `c` is blank. -/
def step (c : Char) (cs : List Char) : Except Fault (Option Token × Rest cs) :=
  if Text.isBlank c then .ok (none, ⟨cs, Nat.le_refl _⟩)
  else if c = '"' then
    match literal cs with
    | .error e => .error e
    | .ok (text, rest) => .ok (some (.str (String.ofList text)), rest)
  else if c = '#' then
    let (digits, rest) := spanRest Text.isDigit cs
    match Text.boundedNumeral? maxLabel digits with
    | some n => .ok (some (.label (UInt32.ofNat n)), rest)
    | none => .error (.badLabel (String.ofList (c :: cs)))
  else if Text.isDigit c then
    let (digits, rest) := spanRest Text.isDigit cs
    match Text.boundedNumeral? maxInteger (c :: digits) with
    | some n => .ok (some (.int n), rest)
    | none => .error (.integerRange (String.ofList (c :: digits)))
  else if Name.isStart c then
    let (part, rest) := spanRest Name.isPart cs
    .ok (some (.ident (String.ofList (c :: part))), rest)
  else
    match symbolStep c cs with
    | .error e => .error e
    | .ok (t, rest) => .ok (some t, rest)

/-- The tokens of a line. -/
def tokens : List Char → Except Fault (List Token)
  | [] => .ok []
  | c :: cs =>
    match step c cs with
    | .error e => .error e
    | .ok (t, ⟨rest, _⟩) =>
      match tokens rest with
      | .error e => .error e
      | .ok ts => .ok (t.toList ++ ts)
  termination_by cs => cs.length
  decreasing_by simp; omega

end EventScript.Source
