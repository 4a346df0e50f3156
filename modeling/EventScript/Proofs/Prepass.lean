import EventScript.Proofs.Lexeme

/-!
# Preparing the lines of a listing

A line of a listing is a margin, lexemes and perhaps a remark. Preparing it leaves the text of the
lexemes with ordinals in place of the names in angle brackets (`prepared_line`): the remark goes, no
shorthand is found, and the inside of string literals is not touched (`scan_literal`).
-/

namespace EventScript.Source

/-! ### String literals -/

theorem toList_quote (s : String) :
    (quote s).toList = '"' :: s.toList.flatMap literalChar ++ ['"'] := by
  rw [quote, String.toList_ofList]

/-- A scan that only copies characters inside a literal copies the whole of it. -/
theorem scan_literal {α : Type} (scan : Quoting → List Char → α) (copy : Char → α → α)
    (copies : ∀ q c cs, q ≠ .outside → scan q (c :: cs) = copy c (scan (q.next c) cs))
    (text rest : List Char) :
    scan .inside (text.flatMap literalChar ++ '"' :: rest) =
      (text.flatMap literalChar ++ ['"']).foldr copy (scan .outside rest) := by
  have inside : Quoting.inside ≠ .outside := by decide
  have escaped : Quoting.escaped ≠ .outside := by decide
  induction text with
  | nil => exact copies _ _ _ inside
  | cons c text ih =>
    have char : scan .inside (literalChar c ++ (text.flatMap literalChar ++ '"' :: rest)) =
        (literalChar c).foldr copy (scan .inside (text.flatMap literalChar ++ '"' :: rest)) := by
      by_cases quote : c = '"'
      · subst quote
        exact (copies _ _ _ inside).trans (congrArg _ (copies _ _ _ escaped))
      by_cases slash : c = '\\'
      · subst slash
        exact (copies _ _ _ inside).trans (congrArg _ (copies _ _ _ escaped))
      by_cases feed : c = '\n'
      · subst feed
        exact (copies _ _ _ inside).trans (congrArg _ (copies _ _ _ escaped))
      have plain : Quoting.next .inside c = .inside := by simp [Quoting.next, slash, quote]
      simp only [literalChar, quote, slash, feed, if_false, List.cons_append, List.nil_append,
        List.foldr_cons, List.foldr_nil]
      rw [copies _ _ _ inside, plain]
    rw [List.flatMap_cons, List.append_assoc, List.append_assoc, char, ih, ← List.foldr_append]

/-! ### Comments and the spaces after commas -/

theorem uncommented_inside (q : Quoting) (c : Char) (cs : List Char) (h : q ≠ .outside) :
    uncommented q false (c :: cs) = c :: uncommented (q.next c) false cs := by
  have outside : (q == Quoting.outside) = false := by simpa using h
  simp [uncommented, h, outside]

theorem uncommented_quoted (text : String) (rest : List Char) :
    uncommented .outside false ((quote text).toList ++ rest) =
      (quote text).toList ++ uncommented .outside false rest := by
  have literal := scan_literal (fun q => uncommented q false) List.cons uncommented_inside
    text.toList rest
  have first : uncommented .outside false ('"' :: (text.toList.flatMap literalChar ++ '"' :: rest)) =
      '"' :: uncommented .inside false (text.toList.flatMap literalChar ++ '"' :: rest) := by
    simp [uncommented, Quoting.next]
  rw [toList_quote, List.append_assoc, List.singleton_append, List.cons_append, first, literal,
    List.foldr_cons_eq_append, List.map_id']
  rfl

/-- Characters that mean nothing to the removal of comments are kept. -/
theorem uncommented_quiet {cs : List Char} (quiet : ∀ c ∈ cs, c ≠ '"' ∧ c ≠ ',' ∧ c ≠ '/')
    (rest : List Char) :
    uncommented .outside false (cs ++ rest) = cs ++ uncommented .outside false rest := by
  induction cs with
  | nil => rfl
  | cons c cs ih =>
    obtain ⟨hq, hc, hs⟩ := quiet c (List.mem_cons_self ..)
    have same : Quoting.next .outside c = .outside := by simp [Quoting.next, hq]
    have comma : (c == ',') = false := by simpa using hc
    rw [List.cons_append, uncommented]
    simp only [Bool.false_and, Bool.false_eq_true, hs, false_and, and_false, if_false, same, comma,
      Bool.and_false]
    rw [ih fun d hd => quiet d (List.mem_cons_of_mem _ hd)]
    rfl

theorem uncommented_comma {rest : List Char} (h : ∀ c ∈ rest.head?, c ≠ ' ') :
    uncommented .outside true rest = uncommented .outside false rest := by
  cases rest with
  | nil => rfl
  | cons c rest =>
    have space : (c == ' ') = false := by simpa using h c rfl
    simp [uncommented, space]

/-- The characters of names and numerals mean nothing outside of literals. -/
theorem quiet_of_isPart {c : Char} (h : Name.isPart c = true) : c ≠ '"' ∧ c ≠ ',' ∧ c ≠ '/' :=
  ⟨ne_of_isPart h rfl, ne_of_isPart h rfl, ne_of_isPart h rfl⟩

theorem isPart_of_mem_toDigits {c : Char} {n : Nat} (h : c ∈ Nat.toDigits 10 n) :
    Name.isPart c = true := Name.isPart_of_isDigit (Text.isDigit_of_mem_toDigits h)

theorem mem_raw_bracket {name : String} {c : Char} (h : c ∈ (Lexeme.bracket name).raw) :
    c = '<' ∨ c ∈ name.toList ∨ c = '>' := by
  simpa [Lexeme.raw] using h

theorem uncommented_lexeme {l : Lexeme} (valid : l.Valid) {rest : List Char}
    (follow : ∀ c ∈ rest.head?, l.allows c = true) :
    uncommented .outside false (l.raw ++ rest) = l.stripped ++ uncommented .outside false rest := by
  cases l with
  | word name =>
    exact uncommented_quiet (fun c h => quiet_of_isPart (Name.isPart_of_mem_identifier valid c h)) _
  | numeral n => exact uncommented_quiet (fun c h => quiet_of_isPart (isPart_of_mem_toDigits h)) _
  | literal text => exact uncommented_quoted text rest
  | label number =>
    refine uncommented_quiet (fun c h => ?_) _
    rcases List.mem_cons.mp h with rfl | h
    · decide
    · exact quiet_of_isPart (isPart_of_mem_toDigits h)
  | bracket name =>
    refine uncommented_quiet (fun c h => ?_) _
    rcases mem_raw_bracket h with rfl | h | rfl
    · decide
    · exact quiet_of_isPart (Name.isPart_of_mem_identifier valid c h)
    · decide
  | space => exact uncommented_quiet (forall_mem_of_all (by decide)) _
  | symbol s =>
    by_cases comma : s = .comma
    · subst comma
      have head : ∀ c ∈ rest.head?, c ≠ ' ' := fun c h => by
        simpa [Lexeme.allows, Lexeme.symbolAllows] using follow c h
      exact congrArg (List.cons ',') (uncommented_comma head)
    by_cases divide : s = .divide
    · subst divide
      have head : rest.head? ≠ some '/' := fun h => absurd (follow '/' h) (by decide)
      simp [Lexeme.raw, Lexeme.stripped, Symbol.text, uncommented, head, Quoting.next]
    rw [raw_symbol_of_ne comma]
    refine uncommented_quiet (forall_mem_of_all ?_) _
    revert comma divide
    cases s <;> decide

theorem uncommented_rawText {ls : List Lexeme} {rest : List Char} (chain : Chain rest.head? ls) :
    uncommented .outside false (rawText ls ++ rest) =
      strippedText ls ++ uncommented .outside false rest := by
  induction ls with
  | nil => rfl
  | cons l ls ih =>
    obtain ⟨valid, follow, chain⟩ := chain
    rw [rawText_cons, List.append_assoc, uncommented_lexeme valid, ih chain, strippedText_cons,
      List.append_assoc]
    rwa [front_eq_rawText chain rfl]

/-! ### The ends of a line -/

namespace Lexeme

/-- Lexemes that can stand at the beginning of a line. -/
def leads : Lexeme → Bool
  | space => false
  | _ => true

/-- Lexemes that can stand at the end of a line. -/
def solid : Lexeme → Bool
  | space => false
  | symbol .plus => false
  | symbol .minus => false
  | _ => true

/-- A lexeme at the end of a line ends with no blank and with no half of a shorthand. -/
theorem last_stripped {l : Lexeme} (valid : l.Valid) (solid : l.solid = true) :
    ∃ cs c, l.stripped = cs ++ [c] ∧ Text.isBlank c = false ∧ c ≠ '+' ∧ c ≠ '-' := by
  have part : ∀ c, Name.isPart c = true → Text.isBlank c = false ∧ c ≠ '+' ∧ c ≠ '-' :=
    fun c h => ⟨isBlank_of_isPart h, ne_of_isPart h rfl, ne_of_isPart h rfl⟩
  cases l with
  | word name =>
    have nonempty : name.toList ≠ [] := raw_ne_nil (l := word name) valid
    refine ⟨_, _, (List.dropLast_concat_getLast nonempty).symm, part _ ?_⟩
    exact Name.isPart_of_mem_identifier valid _ (List.getLast_mem nonempty)
  | numeral n =>
    have nonempty : Nat.toDigits 10 n ≠ [] := Nat.toDigits_ne_nil
    refine ⟨_, _, (List.dropLast_concat_getLast nonempty).symm, part _ ?_⟩
    exact isPart_of_mem_toDigits (List.getLast_mem nonempty)
  | literal text => exact ⟨_, '"', toList_quote text, by decide⟩
  | label number =>
    have nonempty : Nat.toDigits 10 number.toNat ≠ [] := Nat.toDigits_ne_nil
    refine ⟨'#' :: (Nat.toDigits 10 number.toNat).dropLast, _, ?_,
      part _ (isPart_of_mem_toDigits (List.getLast_mem nonempty))⟩
    rw [List.cons_append, List.dropLast_concat_getLast]
    rfl
  | bracket name => exact ⟨_, '>', rfl, by decide⟩
  | space => cases solid
  | symbol s =>
    cases s with
    | plus => cases solid
    | minus => cases solid
    | notEqual => exact ⟨['!'], '=', rfl, by decide⟩
    | lessEqual => exact ⟨['<'], '=', rfl, by decide⟩
    | greaterEqual => exact ⟨['>'], '=', rfl, by decide⟩
    | _ => exact ⟨[], _, rfl, by decide⟩

/-- A lexeme at the beginning of a line begins with no blank. -/
theorem head_stripped {l : Lexeme} (valid : l.Valid) (leads : l.leads = true) :
    ∃ c cs, l.stripped = c :: cs ∧ Text.isBlank c = false := by
  cases l with
  | word name =>
    obtain ⟨c, part, e, start, -⟩ := identifier_cons valid
    exact ⟨c, part, e, isBlank_of_isPart (Name.isPart_of_isStart start)⟩
  | numeral n =>
    obtain ⟨d, ds, e⟩ := toDigits_cons n
    have digit : d ∈ Nat.toDigits 10 n := by rw [e]; exact List.mem_cons_self ..
    exact ⟨d, ds, e, isBlank_of_isPart (isPart_of_mem_toDigits digit)⟩
  | literal text => exact ⟨'"', _, toList_quote text, by decide⟩
  | label number => exact ⟨'#', _, rfl, by decide⟩
  | bracket name => exact ⟨'<', _, rfl, by decide⟩
  | space => cases leads
  | symbol s => cases s <;> exact ⟨_, _, rfl, by decide⟩

end Lexeme

/-- Lexemes that make up a line: there is a first and a last one, and neither is a space. -/
def Bounded (ls : List Lexeme) : Prop :=
  ∃ first last, ls.head? = some first ∧ ls.getLast? = some last ∧
    first.leads = true ∧ last.solid = true

theorem Chain.valid {next : Option Char} {ls : List Lexeme} (chain : Chain next ls) :
    ∀ l ∈ ls, l.Valid := by
  induction ls with
  | nil => intro l h; cases h
  | cons a ls ih =>
    intro l h
    rcases List.mem_cons.mp h with rfl | h
    · exact chain.1
    · exact ih chain.2.2 l h

theorem strippedText_ends {next : Option Char} {ls : List Lexeme} (chain : Chain next ls)
    (bounded : Bounded ls) :
    (∃ c cs, strippedText ls = c :: cs ∧ Text.isBlank c = false) ∧
      ∃ cs c, strippedText ls = cs ++ [c] ∧ Text.isBlank c = false ∧ c ≠ '+' ∧ c ≠ '-' := by
  obtain ⟨first, last, hf, hl, sf, sl⟩ := bounded
  constructor
  · obtain ⟨ls, rfl⟩ := List.head?_eq_some_iff.mp hf
    obtain ⟨c, cs, e, blank⟩ := Lexeme.head_stripped (chain.valid _ (List.mem_cons_self ..)) sf
    exact ⟨c, cs ++ strippedText ls, by rw [strippedText_cons, e]; rfl, blank⟩
  · obtain ⟨ls, rfl⟩ := List.getLast?_eq_some_iff.mp hl
    have mem : last ∈ ls ++ [last] := by simp
    obtain ⟨cs, c, e, h⟩ := Lexeme.last_stripped (chain.valid _ mem) sl
    refine ⟨strippedText ls ++ cs, c, ?_, h⟩
    simp [strippedText, e]

theorem dropWhile_blank {before : List Char} (blank : ∀ c ∈ before, Text.isBlank c = true)
    (rest : List Char) : (before ++ rest).dropWhile Text.isBlank = rest.dropWhile Text.isBlank := by
  induction before with
  | nil => rfl
  | cons c before ih =>
    rw [List.cons_append, List.dropWhile_cons, if_pos (blank c (List.mem_cons_self ..))]
    exact ih fun d h => blank d (List.mem_cons_of_mem _ h)

/-- Blanks around a text that neither begins nor ends with one are dropped. -/
theorem trim_padded {before text after : List Char}
    (blankBefore : ∀ c ∈ before, Text.isBlank c = true)
    (blankAfter : ∀ c ∈ after, Text.isBlank c = true)
    (head : ∃ c cs, text = c :: cs ∧ Text.isBlank c = false)
    (last : ∃ cs c, text = cs ++ [c] ∧ Text.isBlank c = false) :
    Text.trim (before ++ text ++ after) = text := by
  have start : Text.trimStart (before ++ text ++ after) = text ++ after := by
    obtain ⟨c, cs, rfl, hc⟩ := head
    rw [Text.trimStart, List.append_assoc, dropWhile_blank blankBefore, List.cons_append,
      List.dropWhile_cons, if_neg (by simp [hc])]
  obtain ⟨cs, c, rfl, hc⟩ := last
  rw [Text.trim, start, Text.trimEnd, List.reverse_append, dropWhile_blank, List.reverse_append,
    List.reverse_singleton, List.singleton_append, List.dropWhile_cons, if_neg (by simp [hc]),
    List.reverse_cons, List.reverse_reverse]
  intro d h
  exact blankAfter d (List.mem_reverse.mp h)

/-- What may stand after the lexemes of a line: nothing, or a remark. -/
inductive Remark : List Char → Prop where
  | none : Remark []
  | some (text : List Char) : Remark (' ' :: '/' :: '/' :: text)

/-- Nothing but the lexemes of a line is left when the margin and the remark are gone. -/
theorem stripComment_line {ls : List Lexeme} {remark : List Char} (margin : Nat)
    (hr : Remark remark) (chain : Chain remark.head? ls) (bounded : Bounded ls) :
    stripComment (List.replicate margin ' ' ++ rawText ls ++ remark) = strippedText ls := by
  obtain ⟨head, cs, c, e, blank, -⟩ := strippedText_ends chain bounded
  have quiet : ∀ c ∈ List.replicate margin ' ', c ≠ '"' ∧ c ≠ ',' ∧ c ≠ '/' := by
    intro c h
    rw [List.eq_of_mem_replicate h]
    decide
  have spaces : ∀ c ∈ List.replicate margin ' ', Text.isBlank c = true := by
    intro c h
    rw [List.eq_of_mem_replicate h]
    decide
  have rest : ∀ c ∈ uncommented .outside false remark, Text.isBlank c = true := by
    cases hr with
    | none => exact fun c h => absurd h List.not_mem_nil
    | some text =>
      have cut : uncommented .outside false (' ' :: '/' :: '/' :: text) = [' '] := by
        simp [uncommented, Quoting.next]
      rw [cut]
      exact forall_mem_of_all (by decide)
  rw [stripComment, List.append_assoc, uncommented_quiet quiet, uncommented_rawText chain,
    ← List.append_assoc]
  exact trim_padded spaces rest head ⟨cs, c, e, blank⟩

/-! ### Shorthands -/

theorem cutOutside?_inside (a b : Char) (q : Quoting) (c : Char) (cs : List Char)
    (h : q ≠ .outside) : cutOutside? a b q (c :: cs) =
      (cutOutside? a b (q.next c) cs).map fun p => (c :: p.1, p.2) := by
  simp [cutOutside?, h]

theorem foldr_map_none (text : List Char) :
    text.foldr (fun c (r : Option (List Char × List Char)) => r.map fun p => (c :: p.1, p.2)) none =
      none := by
  induction text with
  | nil => rfl
  | cons c text ih => rw [List.foldr_cons, ih, Option.map_none]

theorem cutOutside?_quiet {a : Char} {cs rest : List Char} (quiet : ∀ c ∈ cs, c ≠ '"' ∧ c ≠ a)
    (h : cutOutside? a '=' .outside rest = none) :
    cutOutside? a '=' .outside (cs ++ rest) = none := by
  induction cs with
  | nil => exact h
  | cons c cs ih =>
    obtain ⟨hq, ha⟩ := quiet c (List.mem_cons_self ..)
    have same : Quoting.next .outside c = .outside := by simp [Quoting.next, hq]
    rw [List.cons_append, cutOutside?, if_neg (by simp [ha]), same,
      ih fun d hd => quiet d (List.mem_cons_of_mem _ hd), Option.map_none]

theorem cutOutside?_lexeme {a : Char} (ha : a = '+' ∨ a = '-') {l : Lexeme} (valid : l.Valid)
    {rest : List Char} (follow : ∀ c ∈ rest.head?, l.allows c = true)
    (h : cutOutside? a '=' .outside rest = none) :
    cutOutside? a '=' .outside (l.stripped ++ rest) = none := by
  have part : ∀ c, Name.isPart c = true → c ≠ '"' ∧ c ≠ a := by
    intro c hc
    rcases ha with rfl | rfl <;> exact ⟨ne_of_isPart hc rfl, ne_of_isPart hc rfl⟩
  cases l with
  | word name =>
    exact cutOutside?_quiet (fun c hc => part c (Name.isPart_of_mem_identifier valid c hc)) h
  | numeral n => exact cutOutside?_quiet (fun c hc => part c (isPart_of_mem_toDigits hc)) h
  | literal text =>
    have literal := scan_literal (cutOutside? a '=') _ (cutOutside?_inside a '=') text.toList rest
    have first : ∀ cs, cutOutside? a '=' .outside ('"' :: cs) =
        (cutOutside? a '=' .inside cs).map fun p => ('"' :: p.1, p.2) := by
      rcases ha with rfl | rfl <;> intro cs <;> simp [cutOutside?, Quoting.next]
    show cutOutside? a '=' .outside ((quote text).toList ++ rest) = none
    rw [toList_quote, List.append_assoc, List.singleton_append, List.cons_append, first, literal, h,
      foldr_map_none, Option.map_none]
  | label number =>
    refine cutOutside?_quiet (fun c hc => ?_) h
    rcases List.mem_cons.mp hc with rfl | hc
    · rcases ha with rfl | rfl <;> decide
    · exact part c (isPart_of_mem_toDigits hc)
  | bracket name =>
    refine cutOutside?_quiet (fun c hc => ?_) h
    rcases mem_raw_bracket hc with rfl | hc | rfl
    · rcases ha with rfl | rfl <;> decide
    · exact part c (Name.isPart_of_mem_identifier valid c hc)
    · rcases ha with rfl | rfl <;> decide
  | space => exact cutOutside?_quiet (forall_mem_of_all (by rcases ha with rfl | rfl <;> decide)) h
  | symbol s =>
    have equal : s = .plus ∨ s = .minus → rest.head? ≠ some '=' := by
      rintro (rfl | rfl) e <;> exact absurd (follow '=' e) (by decide)
    by_cases plus : s = .plus
    · subst plus
      have head := equal (.inl rfl)
      rcases ha with rfl | rfl <;>
        simp [Lexeme.stripped, Symbol.text, cutOutside?, Quoting.next, head, h]
    by_cases minus : s = .minus
    · subst minus
      have head := equal (.inr rfl)
      rcases ha with rfl | rfl <;>
        simp [Lexeme.stripped, Symbol.text, cutOutside?, Quoting.next, head, h]
    refine cutOutside?_quiet (forall_mem_of_all ?_) h
    revert plus minus
    rcases ha with rfl | rfl <;> cases s <;> decide

theorem cutOutside?_strippedText {a : Char} (ha : a = '+' ∨ a = '-') {ls : List Lexeme}
    (chain : Chain none ls) : cutOutside? a '=' .outside (strippedText ls) = none := by
  induction ls with
  | nil => rfl
  | cons l ls ih =>
    obtain ⟨valid, follow, chain⟩ := chain
    rw [strippedText_cons]
    exact cutOutside?_lexeme ha valid (by rwa [head?_strippedText chain]) (ih chain)

theorem beforeDoubled?_eq_none {d c : Char} (h : c ≠ d) (cs : List Char) :
    beforeDoubled? d (cs ++ [c]) = none := by
  rw [beforeDoubled?, List.reverse_append, List.reverse_singleton, List.singleton_append,
    Text.after?, if_neg h.symm, Option.map_none]

/-- No line of a listing is a shorthand. -/
theorem expandCompound_strippedText {ls : List Lexeme} (chain : Chain none ls)
    (bounded : Bounded ls) : expandCompound (strippedText ls) = strippedText ls := by
  obtain ⟨-, cs, c, e, -, plus, minus⟩ := strippedText_ends chain bounded
  rw [expandCompound, cutOutside?_strippedText (.inl rfl) chain,
    cutOutside?_strippedText (.inr rfl) chain, e, beforeDoubled?_eq_none plus,
    beforeDoubled?_eq_none minus]

/-! ### Names in angle brackets -/

variable {catalog : Catalog}

/-- A character outside of literals in front of a replaced text. -/
def keep (c : Char) (r : Except Fault (List Char)) : Except Fault (List Char) := r.map (c :: ·)

theorem substitute_keep {q : Quoting} {c : Char} {cs : List Char}
    (h : q = .outside → bracketName? c cs = none) :
    substitute catalog q 0 (c :: cs) = keep c (substitute catalog (q.next c) 0 cs) := by
  have none : (if q = .outside then bracketName? c cs else none) = none := by
    split
    · next outside => exact h outside
    · rfl
  rw [substitute, none]
  cases substitute catalog (q.next c) 0 cs <;> rfl

theorem foldr_keep (text rest : List Char) :
    text.foldr keep (.ok rest) = .ok (text ++ rest) := by
  induction text with
  | nil => rfl
  | cons c text ih => rw [List.foldr_cons, ih]; rfl

theorem bracketName?_of_ne {c : Char} (h : c ≠ '<') (cs : List Char) : bracketName? c cs = none := by
  simp [bracketName?, h]

theorem substitute_quiet {cs rest out : List Char} (quiet : ∀ c ∈ cs, c ≠ '"' ∧ c ≠ '<')
    (h : substitute catalog .outside 0 rest = .ok out) :
    substitute catalog .outside 0 (cs ++ rest) = .ok (cs ++ out) := by
  induction cs with
  | nil => exact h
  | cons c cs ih =>
    obtain ⟨hq, hb⟩ := quiet c (List.mem_cons_self ..)
    have same : Quoting.next .outside c = .outside := by simp [Quoting.next, hq]
    rw [List.cons_append, substitute_keep fun _ => bracketName?_of_ne hb _, same,
      ih fun d hd => quiet d (List.mem_cons_of_mem _ hd)]
    rfl

theorem substitute_skip (q : Quoting) (skipped rest : List Char) :
    substitute catalog q skipped.length (skipped ++ rest) = substitute catalog q 0 rest := by
  induction skipped with
  | nil => rfl
  | cons c skipped ih => rw [List.length_cons, List.cons_append, substitute, ih]

theorem takeWhile_isPart_append {name rest : List Char} (h : ∀ c ∈ name, Name.isPart c = true)
    (hr : ∀ c ∈ rest.head?, Name.isPart c = false) :
    (name ++ rest).takeWhile Name.isPart = name := by
  rw [List.takeWhile_append_of_pos h]
  cases rest with
  | nil => simp
  | cons c rest => rw [List.takeWhile_cons, if_neg (by simp [hr c rfl]), List.append_nil]

/-- A name between angle brackets is found. -/
theorem bracketName?_name {name : List Char} (h : Name.isIdentifier name = true)
    (rest : List Char) : bracketName? '<' (name ++ '>' :: rest) = some name := by
  have part : ∀ c ∈ ('>' :: rest).head?, Name.isPart c = false := by
    intro c hc
    cases hc
    rfl
  rw [bracketName?, takeWhile_isPart_append (Name.isPart_of_mem_identifier h) part,
    if_pos ⟨rfl, h, by simp⟩]

theorem bracketName?_of_not_start {c : Char} {cs : List Char}
    (h : ∀ d ∈ cs.head?, Name.isStart d = false) : bracketName? c cs = none := by
  rw [bracketName?, if_neg]
  rintro ⟨-, ident, -⟩
  cases cs with
  | nil => cases ident
  | cons d cs =>
    rw [List.takeWhile_cons] at ident
    split at ident
    · rw [Name.isIdentifier, h d rfl] at ident
      cases ident
    · cases ident

/-- The catalog knows the name in angle brackets. -/
def Lexeme.Known (catalog : Catalog) : Lexeme → Prop
  | bracket name => name = resultMarker ∨ (catalog.bracketed? name).isSome = true
  | _ => True

theorem bracketText_known {name : String} (known : (Lexeme.bracket name).Known catalog) :
    bracketText catalog name.toList =
      .ok ((Lexeme.bracket name).substituted catalog).stripped := by
  rw [bracketText, String.ofList_toList, Lexeme.substituted]
  by_cases marker : name = resultMarker
  · rw [if_pos marker, if_pos marker]
    rfl
  · obtain ⟨ordinal, e⟩ := Option.isSome_iff_exists.mp (known.resolve_left marker)
    rw [if_neg marker, if_neg marker, e]
    exact congrArg Except.ok (Text.toList_decimal ordinal)

theorem substitute_lexeme {l : Lexeme} (valid : l.Valid) (known : l.Known catalog)
    {rest out : List Char} (follow : ∀ c ∈ rest.head?, l.allows c = true)
    (h : substitute catalog .outside 0 rest = .ok out) :
    substitute catalog .outside 0 (l.stripped ++ rest) =
      .ok ((l.substituted catalog).stripped ++ out) := by
  have part : ∀ c, Name.isPart c = true → c ≠ '"' ∧ c ≠ '<' :=
    fun c hc => ⟨ne_of_isPart hc rfl, ne_of_isPart hc rfl⟩
  cases l with
  | word name =>
    exact substitute_quiet (fun c hc => part c (Name.isPart_of_mem_identifier valid c hc)) h
  | numeral n => exact substitute_quiet (fun c hc => part c (isPart_of_mem_toDigits hc)) h
  | literal text =>
    have literal := scan_literal (fun q => substitute catalog q 0) keep
      (fun q c cs outside => substitute_keep fun e => absurd e outside) text.toList rest
    show substitute catalog .outside 0 ((quote text).toList ++ rest) = .ok ((quote text).toList ++ out)
    rw [toList_quote, List.append_assoc, List.singleton_append, List.cons_append,
      substitute_keep fun _ => bracketName?_of_ne (by decide) _]
    refine (congrArg (keep '"') literal).trans ?_
    rw [h, foldr_keep]
    rfl
  | label number =>
    refine substitute_quiet (fun c hc => ?_) h
    rcases List.mem_cons.mp hc with rfl | hc
    · decide
    · exact part c (isPart_of_mem_toDigits hc)
  | bracket name =>
    have skip : substitute catalog .outside (name.toList.length + 1) (name.toList ++ '>' :: rest) =
        .ok out := by
      rw [← h, ← substitute_skip .outside (name.toList ++ ['>']) rest, List.length_append,
        List.append_assoc]
      rfl
    show substitute catalog .outside 0 ('<' :: (name.toList ++ ['>']) ++ rest) = _
    rw [List.cons_append, List.append_assoc, substitute, if_pos rfl]
    simp only [List.singleton_append, bracketName?_name valid, bracketText_known known]
    rw [skip]
    rfl
  | space => exact substitute_quiet (forall_mem_of_all (by decide)) h
  | symbol s =>
    by_cases less : s = .less
    · subst less
      have start : ∀ d ∈ rest.head?, Name.isStart d = false := by
        intro d hd
        have := follow d hd
        simp only [Lexeme.allows, Lexeme.symbolAllows, Bool.and_eq_true, Bool.not_eq_true'] at this
        exact this.2
      show substitute catalog .outside 0 ('<' :: rest) = .ok ('<' :: out)
      rw [substitute_keep fun _ => bracketName?_of_not_start start]
      exact congrArg (keep '<') h
    by_cases lessEqual : s = .lessEqual
    · subst lessEqual
      show substitute catalog .outside 0 ('<' :: ['='] ++ rest) = .ok ('<' :: (['='] ++ out))
      rw [List.cons_append, substitute_keep fun _ => bracketName?_of_not_start (by simp; rfl)]
      exact congrArg (keep '<') (substitute_quiet (forall_mem_of_all (by decide)) h)
    refine substitute_quiet (forall_mem_of_all ?_) h
    revert less lessEqual
    cases s <;> decide

theorem substituteBrackets_strippedText {ls : List Lexeme} (chain : Chain none ls)
    (known : ∀ l ∈ ls, l.Known catalog) :
    substituteBrackets catalog (strippedText ls) =
      .ok (strippedText (ls.map (Lexeme.substituted catalog))) := by
  rw [substituteBrackets]
  induction ls with
  | nil => rfl
  | cons l ls ih =>
    obtain ⟨valid, follow, chain⟩ := chain
    rw [strippedText_cons, List.map_cons, strippedText_cons]
    refine substitute_lexeme valid (known l (List.mem_cons_self ..)) (by rwa [head?_strippedText chain]) ?_
    exact ih chain fun l hl => known l (List.mem_cons_of_mem _ hl)

/-- Preparing a line of a listing leaves its lexemes, with ordinals for names in angle brackets. -/
theorem prepared_line {ls : List Lexeme} {remark : List Char} (margin : Nat) (hr : Remark remark)
    (chain : ∀ next, next = none ∨ next = some ' ' → Chain next ls) (bounded : Bounded ls)
    (known : ∀ l ∈ ls, l.Known catalog) :
    prepared catalog (List.replicate margin ' ' ++ rawText ls ++ remark) =
      .ok (some (strippedText (ls.map (Lexeme.substituted catalog)))) := by
  have next : remark.head? = none ∨ remark.head? = some ' ' := by
    cases hr with
    | none => exact .inl rfl
    | some text => exact .inr rfl
  have chainNone := chain none (.inl rfl)
  obtain ⟨⟨c, cs, e, -⟩, -⟩ := strippedText_ends chainNone bounded
  have nonempty : (strippedText ls).isEmpty = false := by rw [e]; rfl
  simp only [prepared, stripComment_line margin hr (chain _ next) bounded, nonempty,
    expandCompound_strippedText chainNone bounded, substituteBrackets_strippedText chainNone known]
  rfl

end EventScript.Source
