import EventScript.Proofs.LabelTokens

/-!
# Prepared lines with other label numbers

A shorthand is written out in both lines, so two lines that differ in label numbers are prepared to lines that are read
alike (`alike_prepared`).
-/

namespace EventScript.Source

variable {brackets : List Char → Option (List Char)} {f : UInt32 → UInt32} {q : Quoting} {cs ds as bs : List Char}

/-! ### Shorthands -/

theorem Near.loose_prepend (word : List Char) (h : ∀ q, Near brackets f false q cs ds) :
    ∀ q, Near brackets f false q (word ++ cs) (word ++ ds) := by
  induction word with
  | nil => exact h
  | cons c word ih => exact fun q => .char (fun strict => absurd strict Bool.false_ne_true) (ih _)

theorem Near.loose_append {strict : Bool} (h : Near brackets f strict q cs ds) (loose : strict = false)
    (more : ∀ q, Near brackets f false q as bs) (stop : ∀ c ∈ as.head?, isNumberPart c = false) :
    Near brackets f false q (cs ++ as) (ds ++ bs) := by
  induction h with
  | nil => exact more _
  | char _ _ ih => exact .char (fun strict => absurd strict Bool.false_ne_true) (ih loose)
  | @label _ _ _ cs _ _ _ spells bounded ends _ _ ih =>
    rw [List.append_assoc, List.append_assoc]
    refine .label spells bounded ?_ (fun strict => absurd strict Bool.false_ne_true) (ih rfl)
    rw [← ends]
    exact numberFront_congr (takeWhile_append_stop stop cs)
  | quoted inside parts parts' _ ih =>
    rw [List.append_assoc, List.append_assoc]
    exact .quoted inside parts parts' (ih rfl)

namespace Renames

/-- Texts that are not the same have a label that differs, and what follows it need not be strict. -/
theorem opened (h : Renames brackets f q cs ds) (more : ∀ q, Near brackets f false q as bs)
    (stop : ∀ c ∈ as.head?, isNumberPart c = false) : cs = ds ∨ Near brackets f true q (cs ++ as) (ds ++ bs) := by
  induction h with
  | nil => exact .inl rfl
  | @char q c cs ds plain _ ih =>
    obtain rfl | near := ih
    · exact .inl rfl
    · refine .inr (.char (fun _ outside hash => ?_) near)
      rw [← plain outside hash]
      exact labelFront?_congr (takeWhile_append_stop stop cs)
  | @label word digits cs ds n spells bounded ends rest _ =>
    rw [List.append_assoc, List.append_assoc]
    refine .inr (.label spells bounded ?_ (fun _ => rfl) ((rest.loose .outside).loose_append rfl more stop))
    rw [← ends]
    exact numberFront_congr (takeWhile_append_stop stop cs)

theorem prepend {word : List Char} (quiet : ∀ c ∈ word, c ≠ '"' ∧ c ≠ '#') (h : Renames brackets f .outside cs ds) :
    Renames brackets f .outside (word ++ cs) (word ++ ds) := by
  induction word with
  | nil => exact h
  | cons c word ih =>
    obtain ⟨⟨quote, hash⟩, others⟩ := List.forall_mem_cons.mp quiet
    refine .char (fun _ same => absurd same hash) ?_
    rw [show Quoting.next .outside c = .outside from if_neg quote]
    exact ih others

/-- An assignment is written out in both texts. -/
theorem writtenOut {sign : Char} (signed : sign = '+' ∨ sign = '-') (target : Renames brackets f .outside cs ds)
    (outside : Quoting.outside.after cs = .outside) (value : Renames brackets f .outside as bs) :
    Renames brackets f .outside (writtenOut cs sign as) (writtenOut ds sign bs) := by
  have quiet : ∀ c ∈ [' ', sign, ' '], c ≠ '"' ∧ c ≠ '#' := by
    rcases signed with rfl | rfl <;> simp
  have second : Renames brackets f .outside (cs ++ ([' ', sign, ' '] ++ as)) (ds ++ ([' ', sign, ' '] ++ bs)) := by
    refine target.append ?_ fun c first => by cases first; rfl
    rw [outside]
    exact value.prepend quiet
  have whole : Renames brackets f .outside (cs ++ (" = ".toList ++ (cs ++ ([' ', sign, ' '] ++ as))))
      (ds ++ (" = ".toList ++ (ds ++ ([' ', sign, ' '] ++ bs)))) := by
    refine target.append ?_ fun c first => by cases first; rfl
    rw [outside]
    exact second.prepend (by simp)
  simpa [Source.writtenOut] using whole

end Renames

theorem after_trimStart (cs : List Char) : Quoting.outside.after (Text.trimStart cs) = Quoting.outside.after cs := by
  induction cs with
  | nil => rfl
  | cons c cs ih =>
    rw [Text.trimStart, List.dropWhile_cons]
    split
    · next blank =>
      have same : Quoting.next .outside c = .outside := if_neg (ne_quote_of_isBlank blank)
      rw [Quoting.after, Quoting.after, List.foldl_cons, same]
      exact ih
    · rfl

/-- Blanks do not close a literal. -/
theorem eq_outside_of_after {blanks : List Char} (blank : ∀ c ∈ blanks, Text.isBlank c = true)
    (outside : q.after blanks = .outside) : q = .outside := by
  induction blanks generalizing q with
  | nil => exact outside
  | cons c blanks ih =>
    obtain ⟨first, others⟩ := List.forall_mem_cons.mp blank
    have quote := ne_quote_of_isBlank first
    have next := ih others outside
    cases q with
    | outside => rfl
    | inside =>
      rw [Quoting.next, if_neg quote] at next
      split at next
      · cases next
      · cases next
    | escaped => cases next

theorem exists_trimEnd (cs : List Char) :
    ∃ blanks, cs = Text.trimEnd cs ++ blanks ∧ ∀ c ∈ blanks, Text.isBlank c = true := by
  refine ⟨(cs.reverse.takeWhile Text.isBlank).reverse, ?_, fun c mem => ?_⟩
  · rw [Text.trimEnd, ← List.reverse_append, List.takeWhile_append_dropWhile, List.reverse_reverse]
  · exact List.mem_takeWhile_imp (List.mem_reverse.mp mem)

theorem after_trim (outside : Quoting.outside.after cs = .outside) :
    Quoting.outside.after (Text.trim cs) = .outside := by
  obtain ⟨blanks, split, blank⟩ := exists_trimEnd (Text.trimStart cs)
  rw [← after_trimStart, split, after_append] at outside
  exact eq_outside_of_after blank outside

theorem writtenOut_one (target : List Char) (sign : Char) :
    writtenOut target sign ['1'] = target ++ (" = ".toList ++ (target ++ oneMore sign)) := by
  simp [writtenOut, oneMore]

/-- Two lines are near, or they are the same and end with one more. -/
def NearLine (brackets : List Char → Option (List Char)) (f : UInt32 → UInt32) (xs ys : List Char) : Prop :=
  Near brackets f true .outside xs ys ∨
  (ys = xs ∧ ∃ front sign, (sign = '+' ∨ sign = '-') ∧ xs = front ++ oneMore sign)

/-- What is counted up or down stands twice in the line, the second time perhaps inside a literal. -/
theorem Renames.nearLine_one {sign : Char} (signed : sign = '+' ∨ sign = '-') (h : Renames brackets f .outside cs ds) :
    NearLine brackets f (Source.writtenOut cs sign ['1']) (Source.writtenOut ds sign ['1']) := by
  have last : ∀ q, Near brackets f false q (oneMore sign ++ []) (oneMore sign ++ []) :=
    Near.loose_prepend (oneMore sign) fun q => .nil
  have second : ∀ q, Near brackets f false q (cs ++ oneMore sign) (ds ++ oneMore sign) :=
    fun q => (h.loose q).loose_append rfl last fun c first => by cases first; rfl
  rw [writtenOut_one, writtenOut_one]
  obtain rfl | near := h.opened (Near.loose_prepend " = ".toList second) fun c first => by cases first; rfl
  · exact .inr ⟨rfl, cs ++ (" = ".toList ++ cs), sign, signed, by simp⟩
  · exact .inl near

theorem Renames.expandCompound (h : Renames brackets f .outside cs ds) :
    NearLine brackets f (expandCompound cs) (expandCompound ds) := by
  rw [Source.expandCompound, Source.expandCompound]
  obtain ⟨left, right⟩ | ⟨target, value, target', value', left, right, -, outside, first, second⟩ := h.cut (.inl rfl)
  · rw [left, right]
    obtain ⟨left, right⟩ | ⟨target, value, target', value', left, right, -, outside, first, second⟩ := h.cut (.inr rfl)
    · rw [left, right]
      obtain ⟨left, right⟩ | ⟨target, target', left, right, related⟩ := h.doubled (.inl rfl)
      · rw [left, right]
        obtain ⟨left, right⟩ | ⟨target, target', left, right, related⟩ := h.doubled (.inr rfl)
        · rw [left, right]
          exact .inl h.near
        · rw [left, right]
          exact related.trim.nearLine_one (.inr rfl)
      · rw [left, right]
        exact related.trim.nearLine_one (.inl rfl)
    · rw [left, right]
      exact .inl (first.trim.writtenOut (.inr rfl) (after_trim outside) second.trim).near
  · rw [left, right]
    exact .inl (first.trim.writtenOut (.inl rfl) (after_trim outside) second.trim).near

/-! ### Prepared lines -/

/-- Two lines are read alike: as tokens that differ in labels only, and as braces both or neither. -/
structure ReadAlike (f : UInt32 → UInt32) (xs ys : List Char) : Prop where
  tokens : Alike SameKind (NearTokens f true) (tokens xs) (tokens ys)
  brace : ∀ c, c ≠ '#' → (xs = [c] ↔ ys = [c])

theorem Near.eq_singleton_iff {strict : Bool} (h : Near brackets f strict q cs ds) {c : Char} (other : c ≠ '#') :
    cs = [c] ↔ ds = [c] := by
  constructor
  · rintro rfl
    obtain ⟨rest, rfl, none⟩ := h.of_cons other
    rw [none.eq_nil_iff.mp rfl]
  · intro whole
    cases h with
    | nil => cases whole
    | char _ rest =>
      cases whole
      rw [rest.eq_nil_iff.mpr rfl]
    | label => exact absurd (List.cons.inj whole).1.symm other
    | quoted => exact absurd (List.cons.inj whole).1.symm other

variable {catalog : Catalog}

theorem NearLine.substitute {xs ys : List Char} (h : NearLine (ordinalDigits? catalog) f xs ys) :
    Alike Eq (ReadAlike f) (substituteBrackets catalog xs) (substituteBrackets catalog ys) := by
  obtain near | ⟨rfl, front, sign, signed, rfl⟩ := h
  · exact (near_substitute near).mono fun xs ys _ _ related => ⟨near_tokens related, fun c => related.eq_singleton_iff⟩
  · refine (Alike.refl (fun _ => rfl) _).mono fun xs _ made _ same => ?_
    subst same
    obtain ⟨rest, rfl⟩ := substitute_oneMore signed made
    have same : Alike SameKind Eq (tokens (rest ++ oneMore sign)) (tokens (rest ++ oneMore sign)) := .refl .refl _
    refine ⟨same.mono fun ts _ read _ same => ?_, fun _ _ => Iff.rfl⟩
    subst same
    obtain ⟨us, s, rfl⟩ := tokens_oneMore signed read
    exact nearTokens_oneMore f s us

/-- The lines are prepared to lines that are read alike, or neither says anything, or the same name is unknown. -/
theorem alike_prepared (f : UInt32 → UInt32) (line : List Char) :
    Alike Eq (Option.Rel (ReadAlike f)) (prepared catalog line)
      (prepared catalog (relabelFrom (ordinalDigits? catalog) f .outside line)) := by
  have stripped : Renames (ordinalDigits? catalog) f .outside (stripComment line)
      (stripComment (relabelFrom (ordinalDigits? catalog) f .outside line)) :=
    (renames_uncommented .outside false line fun comma => absurd comma Bool.false_ne_true).trim
  have empty : (stripComment line).isEmpty =
      (stripComment (relabelFrom (ordinalDigits? catalog) f .outside line)).isEmpty := by
    rw [Bool.eq_iff_iff, List.isEmpty_iff, List.isEmpty_iff, stripped.near.eq_nil_iff]
  rw [prepared, prepared, ← empty]
  split
  · exact .value .none
  · exact stripped.expandCompound.substitute.map fun _ _ _ _ related => .some related

end EventScript.Source
