import EventScript.Proofs.CatalogNames
import EventScript.Proofs.PreambleLines

/-!
# Quoted texts in lines

The lines of a listing that quote texts, the heading of a unit and the line of its strings, pass all that is done to a
line before it is read: only the spaces between the quoted texts go, and each quoted text is read as a literal with this
text, whatever its characters are (`passes_quoted`).
-/

namespace EventScript.Source

variable {catalog : Catalog}

/-- A line is left as `kept` when its comment goes, no later step changes it, and it is read as the tokens. -/
structure Passes (catalog : Catalog) (line kept : String) (ts : List Token) : Prop where
  stripped : stripComment line.toList = kept.toList
  expanded : expandCompound kept.toList = kept.toList
  substituted : substituteBrackets catalog kept.toList = .ok kept.toList
  read : tokens kept.toList = .ok ts

/-- A line of lexemes without names in angle brackets passes. -/
theorem WordLine.passes {line kept key : String} {ls : List Lexeme} (word : WordLine catalog line key ls)
    (plain : ∀ l ∈ ls, l.substituted catalog = l) (text : kept.toList = strippedText (.word key :: ls)) :
    Passes catalog line kept (.ident key :: ls.flatMap Lexeme.tokens) := by
  have legible := word.legible
  have chain := legible.chain none stop_none
  have same : (Lexeme.word key :: ls).map (Lexeme.substituted catalog) = .word key :: ls := by
    rw [List.map_cons, List.map_congr_left plain, List.map_id']
    rfl
  constructor
  · have stripped := legible.stripComment_line 0 .none
    rwa [List.replicate_zero, List.nil_append, List.append_nil, ← word.text, ← text] at stripped
  · rw [text]
    exact expandCompound_strippedText chain legible.bounded
  · have substituted := substituteBrackets_strippedText chain fun l mem => (legible.meant l mem).1
    rwa [same, ← text] at substituted
  · rw [text]
    exact tokens_strippedText chain

/-! ### Quoted texts with commas between them -/

/-- What is left of quoted texts when the spaces after the commas are gone. -/
theorem strippedText_quoted : ∀ texts : List String,
    strippedText (separatedLexemes (texts.map Operand.str)) = (",".intercalate (texts.map quote)).toList
  | [] => rfl
  | [text] => by
    rw [List.map_singleton, List.map_singleton, String.intercalate_singleton]
    exact List.append_nil _
  | text :: next :: texts => by
    have rest := strippedText_quoted (next :: texts)
    have comma : ",".toList = (Lexeme.symbol .comma).stripped := by decide
    simp only [List.map_cons] at rest ⊢
    rw [String.intercalate_cons_cons, String.toList_append, String.toList_append, ← rest, comma, separatedLexemes,
      List.append_assoc]
    rfl

theorem tokens_quoted : ∀ texts : List String,
    (separatedLexemes (texts.map Operand.str)).flatMap Lexeme.tokens =
      (texts.map Token.str).intersperse (.sym .comma)
  | [] => rfl
  | [_] => rfl
  | text :: next :: texts => by
    have rest := tokens_quoted (next :: texts)
    simp only [List.map_cons] at rest ⊢
    rw [List.intersperse_cons_cons, ← rest]
    rfl

/-- Quoted texts have no names in angle brackets outside of them. -/
theorem substituted_quoted (catalog : Catalog) : ∀ texts : List String,
    ∀ l ∈ separatedLexemes (texts.map Operand.str), l.substituted catalog = l
  | [] => by simp [separatedLexemes]
  | [text] => by simp [separatedLexemes, Operand.lexemes, Lexeme.substituted]
  | text :: next :: texts => by
    have rest := substituted_quoted catalog (next :: texts)
    simp only [List.map_cons] at rest
    simpa [separatedLexemes, Operand.lexemes, Lexeme.substituted] using rest

/-- The heading of a unit passes as it is. The line of strings passes without the spaces between the strings, if there
are any. Each quoted text is read as this text. -/
theorem passes_quoted (catalog : Catalog) :
    (∀ text : String, Passes catalog ("unit " ++ quote text) ("unit " ++ quote text) [.ident "unit", .str text]) ∧
    ∀ texts : List String, texts ≠ [] →
      Passes catalog ("strings = " ++ ", ".intercalate (texts.map quote))
        ("strings = " ++ ",".intercalate (texts.map quote))
        (.ident "strings" :: .sym .equal :: (texts.map Token.str).intersperse (.sym .comma)) := by
  constructor
  · intro text
    refine (wordLine_unit catalog text).passes (by simp [Lexeme.substituted]) ?_
    exact (wordLine_unit catalog text).text
  · intro texts some
    have plain : ∀ l ∈ .space :: .symbol .equal :: .space :: separatedLexemes (texts.map Operand.str),
        l.substituted catalog = l := by
      simpa [Lexeme.substituted] using substituted_quoted catalog texts
    have kept : ("strings = " ++ ",".intercalate (texts.map quote)).toList = strippedText
        (.word "strings" :: .space :: .symbol .equal :: .space :: separatedLexemes (texts.map Operand.str)) := by
      simp only [strippedText_cons, strippedText_quoted, String.toList_append]
      rfl
    have passes := (wordLine_strings some).passes plain kept
    simp only [List.flatMap_cons, tokens_quoted] at passes
    exact passes

/-- Texts that look like a comment, a shorthand, a name in angle brackets and a list. -/
def trickyTexts : List String :=
  ["a \"b\" \\ // c", "x += 1", "<Potion>\n<Nowhere>", "p, \", q++", "Käse 😀"]

/-- The characters of a text change nothing. -/
theorem passes_quoted_tricky :
    trickyTexts ≠ [] ∧ Passes .village ("strings = " ++ ", ".intercalate (trickyTexts.map quote))
      ("strings = " ++ ",".intercalate (trickyTexts.map quote))
      (.ident "strings" :: .sym .equal :: (trickyTexts.map Token.str).intersperse (.sym .comma)) :=
  ⟨by decide, (passes_quoted .village).2 trickyTexts (by decide)⟩

end EventScript.Source
