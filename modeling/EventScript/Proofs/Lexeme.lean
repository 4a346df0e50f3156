import EventScript.Proofs.Digits
import EventScript.Source.Expr
import EventScript.Source.Line

/-!
# Lines as lexemes

A line that a listing shows is a list of `Lexeme`s, and everything that is done to a line before its
tokens are read can be followed lexeme by lexeme: `raw` is the text in the listing, `stripped` the text
after the spaces behind commas are gone, and `Lexeme.tokens` what the text is read as. `Chain` says
that no lexeme runs into the one after it.
-/

namespace EventScript.Source

/-- A piece of a line that a listing shows. -/
inductive Lexeme where
  | word (name : String)
  | numeral (n : Nat)
  | literal (text : String)
  | label (number : UInt32)
  /-- An item or a map, or the marker for the value of the last call. -/
  | bracket (name : String)
  | symbol (symbol : Symbol)
  | space

namespace Lexeme

/-- The text in a listing, where a space follows a comma. -/
def raw : Lexeme → List Char
  | word name => name.toList
  | numeral n => Nat.toDigits 10 n
  | literal text => (quote text).toList
  | label number => '#' :: Nat.toDigits 10 number.toNat
  | bracket name => '<' :: name.toList ++ ['>']
  | symbol s => if s = .comma then [',', ' '] else s.text.toList
  | space => [' ']

/-- The text without the space after a comma. -/
def stripped : Lexeme → List Char
  | symbol s => s.text.toList
  | l => l.raw

/-- What the text is read as. -/
def tokens : Lexeme → List Token
  | word name => [.ident name]
  | numeral n => [.int n]
  | literal text => [.str text]
  | label number => [.label number]
  | bracket name =>
    if name = resultMarker then [.result] else [.sym .less, .ident name, .sym .greater]
  | symbol s => [.sym s]
  | space => []

/-- A lexeme with the ordinal of an item or a map in place of its name. -/
def substituted (catalog : Catalog) : Lexeme → Lexeme
  | bracket name =>
    if name = resultMarker then bracket name else numeral ((catalog.bracketed? name).getD 0)
  | l => l

/-- The text of the lexeme is read as one piece. -/
def Valid : Lexeme → Prop
  | word name => Name.isIdentifier name.toList = true
  | numeral n => n ≤ maxInteger
  | bracket name => Name.isIdentifier name.toList = true
  | _ => True

/-- Whether a character may come right after a symbol. -/
def symbolAllows : Symbol → Char → Bool
  | .comma, c => c != ' '
  | .less, c => c != '=' && !Name.isStart c
  | .greater, c => c != '='
  | .plus, c => c != '='
  | .minus, c => c != '='
  | .divide, c => c != '/'
  | _, _ => true

/-- Whether a character may come right after a lexeme. An angle bracket may become a digit, so it is
as bad as one. -/
def allows : Lexeme → Char → Bool
  | word _, c => !Name.isPart c && c != '<'
  | numeral _, c => !Text.isDigit c && c != '<'
  | label _, c => !Text.isDigit c && c != '<'
  | bracket _, c => !Text.isDigit c && (c != '<' && c != '=')
  | symbol s, c => symbolAllows s c
  | literal _, _ => true
  | space, _ => true

end Lexeme

/-- The text of lexemes in a listing. -/
def rawText (ls : List Lexeme) : List Char := ls.flatMap Lexeme.raw

/-- The text of lexemes without the spaces after commas. -/
def strippedText (ls : List Lexeme) : List Char := ls.flatMap Lexeme.stripped

/-- The first character of lexemes that stand in front of `next`. -/
def front (next : Option Char) : List Lexeme → Option Char
  | [] => next
  | l :: _ => l.raw.head?

/-- Each lexeme is valid and does not run into what follows it; `next` follows the last one. -/
def Chain (next : Option Char) : List Lexeme → Prop
  | [] => True
  | l :: ls => l.Valid ∧ (∀ c ∈ front next ls, l.allows c = true) ∧ Chain next ls

@[simp] theorem rawText_nil : rawText [] = [] := rfl

@[simp] theorem rawText_cons (l : Lexeme) (ls : List Lexeme) :
    rawText (l :: ls) = l.raw ++ rawText ls := rfl

@[simp] theorem rawText_append (as bs : List Lexeme) :
    rawText (as ++ bs) = rawText as ++ rawText bs := List.flatMap_append

@[simp] theorem strippedText_nil : strippedText [] = [] := rfl

@[simp] theorem strippedText_cons (l : Lexeme) (ls : List Lexeme) :
    strippedText (l :: ls) = l.stripped ++ strippedText ls := rfl

theorem front_append (next : Option Char) (as bs : List Lexeme) :
    front next (as ++ bs) = front (front next bs) as := by
  cases as <;> rfl

theorem chain_append (next : Option Char) (as bs : List Lexeme) :
    Chain next (as ++ bs) ↔ Chain (front next bs) as ∧ Chain next bs := by
  induction as with
  | nil => simp [Chain]
  | cons l as ih =>
    rw [List.cons_append, Chain, Chain, front_append, ih]
    simp only [and_assoc]

/-! ### Characters of lexemes -/

theorem ne_of_isPart {c d : Char} (h : Name.isPart c = true) (hd : Name.isPart d = false) :
    c ≠ d := by
  rintro rfl
  rw [h] at hd
  cases hd

theorem isBlank_of_isPart {c : Char} (h : Name.isPart c = true) : Text.isBlank c = false := by
  rw [Name.isPart_iff] at h
  simp only [Text.isBlank, Text.blankRanges, List.any_cons, List.any_nil, Bool.or_eq_false_iff,
    Bool.and_eq_false_iff, decide_eq_false_iff_not, and_true]
  omega

/-- What holds of each of a few characters can be found out one by one. -/
theorem forall_mem_of_all {p : Char → Prop} [DecidablePred p] {cs : List Char}
    (h : (cs.all fun c => decide (p c)) = true) : ∀ c ∈ cs, p c := by
  intro c hc
  exact of_decide_eq_true (List.all_eq_true.mp h c hc)

theorem isDigit_of_isStart {c : Char} (h : Name.isStart c = true) : Text.isDigit c = false := by
  rw [← Bool.not_eq_true, Text.isDigit_iff]
  simp only [Name.isStart, Bool.or_eq_true, Text.isLetter_iff, beq_iff_eq] at h
  rcases h with h | rfl
  · omega
  · decide

/-- An identifier begins with a character that can begin one. -/
theorem identifier_cons {cs : List Char} (h : Name.isIdentifier cs = true) :
    ∃ c part, cs = c :: part ∧ Name.isStart c = true ∧ ∀ d ∈ part, Name.isPart d = true := by
  cases cs with
  | nil => cases h
  | cons c part =>
    rw [Name.isIdentifier, Bool.and_eq_true] at h
    exact ⟨c, part, rfl, h.1, List.all_eq_true.mp h.2⟩

theorem toDigits_cons (n : Nat) : ∃ d ds, Nat.toDigits 10 n = d :: ds := by
  cases h : Nat.toDigits 10 n with
  | nil => exact absurd h Nat.toDigits_ne_nil
  | cons d ds => exact ⟨d, ds, rfl⟩

/-- Every symbol but the comma is written the same way before and after the spaces are gone. -/
theorem raw_symbol_of_ne {s : Symbol} (h : s ≠ .comma) :
    (Lexeme.symbol s).raw = s.text.toList := by
  rw [Lexeme.raw, if_neg h]

theorem Lexeme.raw_ne_nil {l : Lexeme} (h : l.Valid) : l.raw ≠ [] := by
  cases l with
  | word name =>
    obtain ⟨c, part, e, -, -⟩ := identifier_cons h
    rw [Lexeme.raw, e]
    exact List.cons_ne_nil c part
  | numeral n => exact Nat.toDigits_ne_nil
  | literal text => rw [Lexeme.raw, quote, String.toList_ofList]; exact List.cons_ne_nil _ _
  | label number => exact List.cons_ne_nil _ _
  | bracket name => exact List.cons_ne_nil _ _
  | symbol s => cases s <;> simp [Lexeme.raw, Symbol.text, Text.leftBrace, Text.rightBrace]
  | space => exact List.cons_ne_nil _ _

/-- The first character of a lexeme stays the first when the spaces are gone. -/
theorem Lexeme.head?_stripped (l : Lexeme) : l.stripped.head? = l.raw.head? := by
  cases l with
  | symbol s => cases s <;> rfl
  | _ => rfl

theorem front_eq_rawText {next : Option Char} {ls : List Lexeme} (h : Chain next ls)
    {rest : List Char} (hr : rest.head? = next) : (rawText ls ++ rest).head? = front next ls := by
  cases ls with
  | nil => exact hr
  | cons l ls =>
    obtain ⟨c, cs, e⟩ := List.exists_cons_of_ne_nil (Lexeme.raw_ne_nil h.1)
    rw [rawText_cons, front, e]
    rfl

theorem head?_rawText {ls : List Lexeme} (h : Chain none ls) : (rawText ls).head? = front none ls := by
  rw [← List.append_nil (rawText ls)]
  exact front_eq_rawText h rfl

theorem front_eq_strippedText {next : Option Char} {ls : List Lexeme} (h : Chain next ls)
    {rest : List Char} (hr : rest.head? = next) :
    (strippedText ls ++ rest).head? = front next ls := by
  cases ls with
  | nil => exact hr
  | cons l ls =>
    obtain ⟨c, cs, e⟩ := List.exists_cons_of_ne_nil (Lexeme.raw_ne_nil h.1)
    have head : l.stripped.head? = some c := by rw [Lexeme.head?_stripped, e]; rfl
    obtain ⟨ds, hd⟩ := List.head?_eq_some_iff.mp head
    rw [strippedText_cons, front, e, hd]
    rfl

theorem head?_strippedText {ls : List Lexeme} (h : Chain none ls) :
    (strippedText ls).head? = front none ls := by
  rw [← List.append_nil (strippedText ls)]
  exact front_eq_strippedText h rfl

end EventScript.Source
