import EventScript.Proofs.Prepass

/-!
# Tokens of a printed line

The text of lexemes is read as their tokens (`tokens_strippedText`), before and after the names in
angle brackets are replaced.
-/

namespace EventScript.Source

/-- Reading on after one step. -/
theorem tokens_step {c : Char} {cs rest : List Char} {t : Option Token} {ts : List Token}
    {h : rest.length ≤ cs.length} (first : step c cs = .ok (t, ⟨rest, h⟩))
    (then_ : tokens rest = .ok ts) : tokens (c :: cs) = .ok (t.toList ++ ts) := by
  rw [tokens, first]
  simp only [then_]

theorem length_le_append (cs rest : List Char) : rest.length ≤ (cs ++ rest).length := by
  rw [List.length_append]
  exact Nat.le_add_left ..

theorem spanRest_append {p : Char → Bool} {cs rest : List Char} (h : ∀ c ∈ cs, p c = true)
    (hr : ∀ c ∈ rest.head?, p c = false) :
    spanRest p (cs ++ rest) = (cs, ⟨rest, length_le_append cs rest⟩) := by
  have take : rest.takeWhile p = [] := by
    cases rest with
    | nil => rfl
    | cons c rest => rw [List.takeWhile_cons, if_neg (by simp [hr c rfl])]
  have drop : rest.dropWhile p = rest := by
    cases rest with
    | nil => rfl
    | cons c rest => rw [List.dropWhile_cons, if_neg (by simp [hr c rfl])]
  refine Prod.ext ?_ (Subtype.ext ?_)
  · show (cs ++ rest).takeWhile p = cs
    rw [List.takeWhile_append_of_pos h, take, List.append_nil]
  · show (cs ++ rest).dropWhile p = rest
    rw [List.dropWhile_append_of_pos h, drop]

/-- A name is read up to the first character that cannot belong to it. -/
theorem tokens_word {name : String} (valid : Name.isIdentifier name.toList = true)
    {rest : List Char} {ts : List Token} (hr : ∀ c ∈ rest.head?, Name.isPart c = false)
    (h : tokens rest = .ok ts) : tokens (name.toList ++ rest) = .ok (.ident name :: ts) := by
  obtain ⟨c, part, e, start, parts⟩ := identifier_cons valid
  have partC := Name.isPart_of_isStart start
  have first : step c (part ++ rest) = .ok (some (.ident name), ⟨rest, by simp⟩) := by
    rw [step, isBlank_of_isPart partC, if_neg Bool.false_ne_true, if_neg (ne_of_isPart partC rfl),
      if_neg (ne_of_isPart partC rfl), isDigit_of_isStart start, if_neg Bool.false_ne_true,
      if_pos start, spanRest_append parts hr]
    simp only [← e, String.ofList_toList]
  rw [e, List.cons_append]
  exact tokens_step first h

theorem tokens_numeral {n : Nat} (bound : n ≤ maxInteger) {rest : List Char} {ts : List Token}
    (hr : ∀ c ∈ rest.head?, Text.isDigit c = false) (h : tokens rest = .ok ts) :
    tokens (Nat.toDigits 10 n ++ rest) = .ok (.int n :: ts) := by
  obtain ⟨d, ds, e⟩ := toDigits_cons n
  have digits : ∀ c ∈ d :: ds, Text.isDigit c = true := fun c hc =>
    Text.isDigit_of_mem_toDigits (by rwa [e])
  have digit := digits d (List.mem_cons_self ..)
  have partD := Name.isPart_of_isDigit digit
  have first : step d (ds ++ rest) = .ok (some (.int n), ⟨rest, by simp⟩) := by
    rw [step, isBlank_of_isPart partD, if_neg Bool.false_ne_true, if_neg (ne_of_isPart partD rfl),
      if_neg (ne_of_isPart partD rfl), if_pos digit,
      spanRest_append (fun c hc => digits c (List.mem_cons_of_mem _ hc)) hr]
    simp only [← e, Text.boundedNumeral?_toDigits bound]
  rw [e, List.cons_append]
  exact tokens_step first h

theorem tokens_label (number : UInt32) {rest : List Char} {ts : List Token}
    (hr : ∀ c ∈ rest.head?, Text.isDigit c = false) (h : tokens rest = .ok ts) :
    tokens ('#' :: Nat.toDigits 10 number.toNat ++ rest) = .ok (.label number :: ts) := by
  have bound : number.toNat ≤ maxLabel := by
    have := number.toNat_lt
    rw [maxLabel]
    omega
  have first : step '#' (Nat.toDigits 10 number.toNat ++ rest) =
      .ok (some (.label number), ⟨rest, by simp⟩) := by
    rw [step, if_neg (by decide), if_neg (by decide), if_pos rfl,
      spanRest_append (fun c => Text.isDigit_of_mem_toDigits) hr]
    simp only [Text.boundedNumeral?_toDigits bound, UInt32.ofNat_toNat]
  rw [List.cons_append]
  exact tokens_step first h

/-- The text of a literal is read back from its characters. -/
theorem literal_quoted (text rest : List Char) :
    ∃ h, literal (text.flatMap literalChar ++ '"' :: rest) = .ok (text, ⟨rest, h⟩) := by
  induction text with
  | nil => exact ⟨_, rfl⟩
  | cons c text ih =>
    obtain ⟨h, e⟩ := ih
    rw [List.flatMap_cons, List.append_assoc]
    generalize text.flatMap literalChar ++ '"' :: rest = cs at h e ⊢
    by_cases quote : c = '"'
    · subst quote
      exact ⟨by simp [literalChar]; omega, by simp [literalChar, literal, e]⟩
    by_cases slash : c = '\\'
    · subst slash
      exact ⟨by simp [literalChar]; omega, by simp [literalChar, literal, e]⟩
    by_cases feed : c = '\n'
    · subst feed
      exact ⟨by simp [literalChar]; omega, by simp [literalChar, literal, e]⟩
    rw [literalChar, if_neg quote, if_neg slash, if_neg feed, List.singleton_append]
    refine ⟨by rw [List.length_cons]; omega, ?_⟩
    rw [literal]
    · simp only [e]
    · exact quote
    · rintro rfl
      exact absurd rfl slash
    · rintro d ds rfl
      exact absurd rfl slash

theorem tokens_literal (text : String) {rest : List Char} {ts : List Token}
    (h : tokens rest = .ok ts) : tokens ((quote text).toList ++ rest) = .ok (.str text :: ts) := by
  obtain ⟨le, e⟩ := literal_quoted text.toList rest
  rw [toList_quote, List.append_assoc, List.singleton_append, List.cons_append]
  have first : step '"' (text.toList.flatMap literalChar ++ '"' :: rest) =
      .ok (some (.str text), ⟨rest, le⟩) := by
    rw [step, if_neg (by decide), if_pos rfl, e]
    simp only [String.ofList_toList]
  exact tokens_step first h

theorem tokens_space {rest : List Char} {ts : List Token} (h : tokens rest = .ok ts) :
    tokens (' ' :: rest) = .ok ts :=
  tokens_step (t := none) (h := Nat.le_refl _) rfl h

/-- A character that begins a symbol begins no other token. -/
theorem step_symbol {c : Char} (begins : (Symbol.ofChar? c).isSome = true ∨ (Symbol.withEqual? c).isSome = true)
    {cs : List Char} {t : Token} {rest : Rest cs} (read : symbolStep c cs = .ok (t, rest)) :
    step c cs = .ok (some t, rest) := by
  have plain : Text.isBlank c = false ∧ c ≠ '"' ∧ c ≠ '#' ∧ Text.isDigit c = false ∧
      Name.isStart c = false := by
    rcases begins with single | pair
    · unfold Symbol.ofChar? at single
      split at single
      case h_17 => cases single
      all_goals decide
    · unfold Symbol.withEqual? at pair
      split at pair
      case h_4 => cases pair
      all_goals decide
  obtain ⟨blank, quote, hash, digit, start⟩ := plain
  rw [step, blank, if_neg Bool.false_ne_true, if_neg quote, if_neg hash, digit,
    if_neg Bool.false_ne_true, start, if_neg Bool.false_ne_true, read]

/-- A symbol of one character is read unless it runs into what follows. -/
theorem tokens_symbol {c : Char} {s : Symbol} (hs : Symbol.ofChar? c = some s) {rest : List Char}
    {ts : List Token} (marker : c = '<' → ∀ d ∈ rest.head?, Name.isStart d = false)
    (equal : (Symbol.withEqual? c).isSome = true → rest.head? ≠ some '=')
    (h : tokens rest = .ok ts) : tokens (c :: rest) = .ok (.sym s :: ts) := by
  have noMarker : ¬ (c = '<' ∧ (Text.after? resultTail rest).isSome) := by
    rintro ⟨less, after⟩
    obtain ⟨tail, e⟩ := Option.isSome_iff_exists.mp after
    have start := marker less 'S' (by rw [Text.eq_append_of_after? e]; rfl)
    cases start
  have single : symbolStep c rest = .ok (.sym s, ⟨rest, Nat.le_refl _⟩) := by
    rw [symbolStep, if_neg noMarker]
    cases e : Symbol.withEqual? c with
    | none => simp only [hs]
    | some t =>
      have head := equal (by rw [e]; rfl)
      cases rest with
      | nil => simp only [hs]
      | cons d rest =>
        have ne : d ≠ '=' := fun h => head (congrArg some h)
        simp [hs, ne]
  exact tokens_step (step_symbol (.inl (by rw [hs]; rfl)) single) h

/-- A symbol that ends with an equals sign. -/
theorem tokens_withEqual {c : Char} {s : Symbol} (hs : Symbol.withEqual? c = some s)
    {rest : List Char} {ts : List Token} (h : tokens rest = .ok ts) :
    tokens (c :: '=' :: rest) = .ok (.sym s :: ts) := by
  have noMarker : ¬ (c = '<' ∧ (Text.after? resultTail ('=' :: rest)).isSome) := by
    rintro ⟨-, after⟩
    cases after
  have single : symbolStep c ('=' :: rest) = .ok (.sym s, ⟨rest, by simp⟩) := by
    rw [symbolStep, if_neg noMarker]
    simp only [hs]
  exact tokens_step (step_symbol (.inr (by rw [hs]; rfl)) single) h

theorem tokens_marker {rest : List Char} {ts : List Token} (h : tokens rest = .ok ts) :
    tokens ('<' :: resultMarker.toList ++ '>' :: rest) = .ok (.result :: ts) := by
  have after : Text.after? resultTail (resultMarker.toList ++ '>' :: rest) = some rest := by
    rw [← List.singleton_append, ← List.append_assoc]
    exact Text.after?_append resultTail rest
  have drop : (resultMarker.toList ++ '>' :: rest).drop resultTail.length = rest := by
    rw [← List.singleton_append, ← List.append_assoc]
    exact List.drop_left
  have marker : symbolStep '<' (resultMarker.toList ++ '>' :: rest) =
      .ok (.result, ⟨(resultMarker.toList ++ '>' :: rest).drop resultTail.length, by simp⟩) := by
    rw [symbolStep, if_pos ⟨rfl, by rw [after]; rfl⟩]
  rw [List.cons_append]
  exact tokens_step (step_symbol (.inl rfl) marker) (by rw [drop]; exact h)

/-- The characters that a symbol is made of. -/
theorem symbol_text (s : Symbol) :
    (∃ c, s.text.toList = [c] ∧ Symbol.ofChar? c = some s) ∨
      ∃ c, s.text.toList = [c, '='] ∧ Symbol.withEqual? c = some s := by
  cases s with
  | notEqual => exact .inr ⟨'!', rfl, rfl⟩
  | lessEqual => exact .inr ⟨'<', rfl, rfl⟩
  | greaterEqual => exact .inr ⟨'>', rfl, rfl⟩
  | _ => exact .inl ⟨_, rfl, rfl⟩

theorem tokens_bracket {name : String} (valid : Name.isIdentifier name.toList = true)
    {rest : List Char} {ts : List Token} (follow : rest.head? ≠ some '=') (h : tokens rest = .ok ts) :
    tokens ((Lexeme.bracket name).raw ++ rest) = .ok ((Lexeme.bracket name).tokens ++ ts) := by
  rw [Lexeme.raw, Lexeme.tokens, List.cons_append, List.cons_append, List.append_assoc,
    List.singleton_append]
  by_cases marker : name = resultMarker
  · rw [if_pos marker, marker]
    exact tokens_marker h
  · rw [if_neg marker]
    have close : tokens ('>' :: rest) = .ok (.sym .greater :: ts) :=
      tokens_symbol rfl (fun e => absurd e (by decide)) (fun _ => follow) h
    have inner : tokens (name.toList ++ '>' :: rest) = .ok (.ident name :: .sym .greater :: ts) :=
      tokens_word valid (by rintro c ⟨⟩; rfl) close
    obtain ⟨c, part, e, start, -⟩ := identifier_cons valid
    -- the text after `<` is no marker, since it ends with another name
    have noMarker : ¬ ('<' = '<' ∧ (Text.after? resultTail (name.toList ++ '>' :: rest)).isSome) := by
      rintro ⟨-, after⟩
      obtain ⟨tail, same⟩ := Option.isSome_iff_exists.mp after
      have split := Text.eq_append_of_after? same
      have part : ∀ c ∈ ('>' :: rest).head?, Name.isPart c = false := by rintro c ⟨⟩; rfl
      have part' : ∀ c ∈ ('>' :: tail).head?, Name.isPart c = false := by rintro c ⟨⟩; rfl
      have left := takeWhile_isPart_append (Name.isPart_of_mem_identifier valid) part
      have right : (resultMarker.toList ++ '>' :: tail).takeWhile Name.isPart = resultMarker.toList :=
        takeWhile_isPart_append (forall_mem_of_all (by decide)) part'
      rw [split, resultTail, List.append_assoc, List.singleton_append, right] at left
      exact marker (String.toList_inj.mp left.symm)
    have single : symbolStep '<' (name.toList ++ '>' :: rest) =
        .ok (.sym .less, ⟨name.toList ++ '>' :: rest, Nat.le_refl _⟩) := by
      have ne : c ≠ '=' := ne_of_isPart (Name.isPart_of_isStart start) rfl
      rw [symbolStep, if_neg noMarker, e]
      simp [Symbol.withEqual?, Symbol.ofChar?, ne]
    exact tokens_step (step_symbol (.inl rfl) single) inner

theorem eq_false_of_not_and {a b : Bool} (h : (!a && b) = true) : a = false := by
  rw [Bool.and_eq_true, Bool.not_eq_true'] at h
  exact h.1

theorem tokens_lexeme {l : Lexeme} (valid : l.Valid) {rest : List Char} {ts : List Token}
    (follow : ∀ c ∈ rest.head?, l.allows c = true) (h : tokens rest = .ok ts) :
    tokens (l.stripped ++ rest) = .ok (l.tokens ++ ts) := by
  cases l with
  | word name =>
    refine tokens_word valid (fun c hc => ?_) h
    exact eq_false_of_not_and (follow c hc)
  | numeral n =>
    refine tokens_numeral valid (fun c hc => ?_) h
    exact eq_false_of_not_and (follow c hc)
  | literal text => exact tokens_literal text h
  | label number =>
    refine tokens_label number (fun c hc => ?_) h
    exact eq_false_of_not_and (follow c hc)
  | bracket name => exact tokens_bracket valid (fun e => absurd (follow '=' e) (by simp [Lexeme.allows])) h
  | space => exact tokens_space h
  | symbol s =>
    rcases symbol_text s with ⟨c, text, hs⟩ | ⟨c, text, hs⟩
    · rw [Lexeme.stripped, text]
      refine tokens_symbol hs ?_ ?_ h
      · rintro rfl d hd
        obtain rfl := Option.some.inj hs
        have := follow d hd
        simp only [Lexeme.allows, Lexeme.symbolAllows, Bool.and_eq_true, Bool.not_eq_true'] at this
        exact this.2
      · intro pair e
        have := follow '=' e
        revert hs this
        unfold Symbol.withEqual? at pair
        split at pair
        · rintro ⟨⟩
        · rintro ⟨⟩ this
          cases this
        · rintro ⟨⟩ this
          cases this
        · cases pair
    · rw [Lexeme.stripped, text]
      exact tokens_withEqual hs h

/-- The text of lexemes is read as their tokens. -/
theorem tokens_strippedText {ls : List Lexeme} (chain : Chain none ls) :
    tokens (strippedText ls) = .ok (ls.flatMap Lexeme.tokens) := by
  induction ls with
  | nil => rw [strippedText_nil, tokens]; rfl
  | cons l ls ih =>
    obtain ⟨valid, follow, chain⟩ := chain
    rw [strippedText_cons, List.flatMap_cons]
    exact tokens_lexeme valid (by rwa [head?_strippedText chain]) (ih chain)

/-! ### Replacing names in angle brackets -/

variable {catalog : Catalog}

namespace Lexeme

/-- The ordinal of an item or a map can be read as a number. -/
def Small (catalog : Catalog) : Lexeme → Prop
  | bracket name => name = resultMarker ∨ (catalog.bracketed? name).getD 0 ≤ maxInteger
  | _ => True

theorem valid_substituted {l : Lexeme} (valid : l.Valid) (small : l.Small catalog) :
    (l.substituted catalog).Valid := by
  cases l with
  | bracket name =>
    rw [substituted]
    split
    · exact valid
    · next marker => exact small.resolve_left marker
  | _ => exact valid

theorem allows_substituted {l : Lexeme} {c : Char} (h : l.allows c = true) :
    (l.substituted catalog).allows c = true := by
  cases l with
  | bracket name =>
    rw [substituted]
    split
    · exact h
    · simp only [allows, Bool.and_eq_true] at h ⊢
      exact ⟨h.1, h.2.1⟩
  | _ => exact h

theorem allows_digit {l : Lexeme} {d : Char} (digit : Text.isDigit d = true)
    (h : l.allows '<' = true) : l.allows d = true := by
  have part := Name.isPart_of_isDigit digit
  have start : Name.isStart d = false := by
    cases e : Name.isStart d with
    | false => rfl
    | true => rw [isDigit_of_isStart e] at digit; cases digit
  cases l with
  | symbol s =>
    cases s <;> simp [allows, symbolAllows, start, ne_of_isPart part (d := '=') rfl,
      ne_of_isPart part (d := ' ') rfl, ne_of_isPart part (d := '/') rfl]
  | literal _ => rfl
  | space => rfl
  | _ => simp [allows] at h

end Lexeme

/-- Lexemes do not run into each other after the names are replaced either. -/
theorem chain_substituted {next : Option Char} {ls : List Lexeme} (chain : Chain next ls)
    (small : ∀ l ∈ ls, l.Small catalog) : Chain next (ls.map (Lexeme.substituted catalog)) := by
  induction ls with
  | nil => trivial
  | cons l ls ih =>
    obtain ⟨valid, follow, chain⟩ := chain
    refine ⟨Lexeme.valid_substituted valid (small l (List.mem_cons_self ..)), ?_,
      ih chain fun l hl => small l (List.mem_cons_of_mem _ hl)⟩
    intro c hc
    apply Lexeme.allows_substituted
    cases ls with
    | nil => exact follow c hc
    | cons m ls =>
      cases m with
      | bracket name =>
        rw [List.map_cons, front, Lexeme.substituted] at hc
        split at hc
        · exact follow c hc
        · have digit : c ∈ Nat.toDigits 10 ((catalog.bracketed? name).getD 0) :=
            List.mem_of_head? hc
          exact Lexeme.allows_digit (Text.isDigit_of_mem_toDigits digit) (follow '<' rfl)
      | _ => exact follow c hc

/-- Preparing a line and reading it gives the tokens of its lexemes. -/
theorem tokens_line {ls : List Lexeme} (chain : Chain none ls)
    (small : ∀ l ∈ ls, l.Small catalog) :
    tokens (strippedText (ls.map (Lexeme.substituted catalog))) =
      .ok (ls.flatMap fun l => (l.substituted catalog).tokens) := by
  rw [tokens_strippedText (chain_substituted chain small), List.flatMap_map]

end EventScript.Source
