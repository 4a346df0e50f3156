import EventScript.Proofs.CatalogNames
import EventScript.Proofs.LabelLines
import EventScript.Proofs.NumberedLines
import EventScript.Proofs.Steps

/-!
# Literals that a line leaves open

A line whose last literal has no closing quote (`endsOpen`) keeps it open through all that is done to it before its
tokens are read, and no tokens are read from a text with an open literal (`closed_of_tokens`), so that assembly refuses
the line. There is one exception: in a line that counts up or down, what is counted is written a second time, also when
the doubled sign belongs to the literal, and a quote of the copy may close it. `ClosedByCopy` says exactly when that
happens (`closed_expandCompound_iff`).
-/

namespace EventScript

namespace Source

variable {q : Quoting} {cs line target value : List Char}

/-- Each literal of a text is closed. -/
def Closed (cs : List Char) : Prop := Quoting.outside.after cs = .outside

instance (cs : List Char) : Decidable (Closed cs) := inferInstanceAs (Decidable (_ = _))

/-- A line ends inside a literal: `q` says where the line begins, and what stands in a comment does not count. -/
def endsOpen (q : Quoting) : List Char → Bool
  | [] => q != .outside
  | c :: cs => if q = .outside ∧ c = '/' ∧ cs.head? = some '/' then false else endsOpen (q.next c) cs

/-- The line has no `+=` or `-=` outside its literals and ends with `++` or `--`, and what stands in front of that
closes the literal when it is written once more. -/
def ClosedByCopy (line : List Char) : Prop :=
  cutOutside? '+' '=' .outside line = none ∧ cutOutside? '-' '=' .outside line = none ∧
  ∃ sign target, (sign = '+' ∨ sign = '-') ∧ line = target ++ [sign, sign] ∧
    Quoting.inside.after (Text.trim target) = .outside

theorem after_cons (q : Quoting) (c : Char) (cs : List Char) : q.after (c :: cs) = (q.next c).after cs := rfl

theorem after_quiet_append {word : List Char} (quiet : ∀ c ∈ word, c ≠ '"') (cs : List Char) :
    Quoting.outside.after (word ++ cs) = Quoting.outside.after cs := by
  rw [after_append, after_word quiet]

/-! ### Comments and blanks -/

/-- A comment that is cut off, and spaces after commas, change nothing about the literals. -/
theorem endsOpen_eq (cs : List Char) : ∀ (q : Quoting) (comma : Bool), (comma = true → q = .outside) →
    endsOpen q cs = (q.after (uncommented q comma cs) != .outside) := by
  induction cs with
  | nil => exact fun _ _ _ => rfl
  | cons c cs ih =>
    intro q comma after
    rw [endsOpen, uncommented]
    by_cases space : (comma && c == ' ') = true
    · obtain ⟨hcomma, hspace⟩ := Bool.and_eq_true_iff.mp space
      obtain rfl := after hcomma
      obtain rfl := eq_of_beq hspace
      rw [if_pos space, if_neg (by simp)]
      exact ih .outside true fun _ => rfl
    · rw [if_neg space]
      by_cases remark : q = .outside ∧ c = '/' ∧ cs.head? = some '/'
      · rw [if_pos remark, if_pos remark, remark.1]
        rfl
      · rw [if_neg remark, if_neg remark, after_cons]
        refine ih (q.next c) _ fun comma => ?_
        obtain ⟨houtside, hcomma⟩ := Bool.and_eq_true_iff.mp comma
        rw [eq_of_beq houtside, eq_of_beq hcomma]
        rfl

theorem closed_trim_iff (cs : List Char) : Closed (Text.trim cs) ↔ Closed cs := by
  refine ⟨fun closed => ?_, after_trim⟩
  obtain ⟨blanks, split, blank⟩ := exists_trimEnd (Text.trimStart cs)
  have whole : Quoting.outside.after (Text.trimStart cs) = .outside := by
    rw [split, after_append, show Quoting.outside.after (Text.trimEnd (Text.trimStart cs)) = .outside from closed]
    exact after_word fun c mem => ne_quote_of_isBlank (blank c mem)
  rwa [after_trimStart] at whole

theorem closed_stripComment_iff (raw : List Char) : Closed (stripComment raw) ↔ endsOpen .outside raw = false := by
  rw [stripComment, closed_trim_iff, endsOpen_eq raw .outside false fun h => absurd h Bool.false_ne_true]
  exact bne_eq_false_iff_eq.symm

/-! ### Shorthands -/

theorem cutOutside?_eq_some {a b : Char} (h : cutOutside? a b q line = some (target, value)) :
    line = target ++ a :: b :: value ∧ q.after target = .outside := by
  induction line generalizing q target with
  | nil => cases h
  | cons c line ih =>
    rw [cutOutside?] at h
    split at h
    · next here =>
      obtain ⟨outside, rfl, next⟩ := here
      obtain ⟨rest, rfl⟩ := List.head?_eq_some_iff.mp next
      cases h
      exact ⟨rfl, outside⟩
    · obtain ⟨⟨front, rest⟩, found, same⟩ := Option.map_eq_some_iff.mp h
      cases same
      obtain ⟨rfl, after⟩ := ih found
      exact ⟨rfl, after⟩

theorem closed_writtenOut_iff {sign : Char} (signed : sign = '+' ∨ sign = '-') (closed : Closed target)
    (value : List Char) : Closed (writtenOut target sign value) ↔ Closed value := by
  have quiet : ∀ c ∈ [' ', sign, ' '], c ≠ '"' := by
    rcases signed with rfl | rfl <;> simp
  have equal : ∀ c ∈ " = ".toList, c ≠ '"' := by simp
  unfold Closed at closed ⊢
  rw [writtenOut, List.append_assoc, List.append_assoc, List.append_assoc, after_append, closed,
    after_quiet_append equal, after_append, closed, after_quiet_append quiet]

/-- Between the two copies the literal stays open, whatever its last character is, and the one behind them closes
nothing. -/
theorem closed_writtenOut_one_iff {sign : Char} (signed : sign = '+' ∨ sign = '-') (opened : ¬Closed target) :
    Closed (writtenOut target sign ['1']) ↔ Quoting.inside.after target = .outside := by
  have between : ∀ q : Quoting, q ≠ .outside → q.after " = ".toList = .inside := by
    intro q open'
    cases q with
    | outside => exact absurd rfl open'
    | inside => rfl
    | escaped => rfl
  have behind : ∀ q : Quoting, q.after ([' ', sign, ' '] ++ ['1']) = .outside ↔ q = .outside := by
    rcases signed with rfl | rfl <;> intro q <;> cases q <;> decide
  unfold Closed at opened ⊢
  rw [writtenOut, List.append_assoc, List.append_assoc, List.append_assoc, after_append, after_append,
    between _ opened, after_append, behind]

/-- A line that is cut at a sign has its open literal in the value. -/
theorem closed_cut_iff {sign : Char} (signed : sign = '+' ∨ sign = '-')
    (cut : cutOutside? sign '=' .outside line = some (target, value)) :
    Closed (writtenOut (Text.trim target) sign (Text.trim value)) ↔ Closed line := by
  obtain ⟨rfl, closed⟩ := cutOutside?_eq_some cut
  have quiet : ∀ c ∈ [sign, '='], c ≠ '"' := by
    rcases signed with rfl | rfl <;> simp
  rw [closed_writtenOut_iff signed ((closed_trim_iff target).mpr closed), closed_trim_iff]
  unfold Closed
  rw [after_append, closed]
  exact (Eq.congr_left (after_quiet_append quiet value)).symm

theorem closed_doubled_iff {sign : Char} (signed : sign = '+' ∨ sign = '-')
    (opened : ¬Closed (target ++ [sign, sign])) :
    Closed (writtenOut (Text.trim target) sign ['1']) ↔ Quoting.inside.after (Text.trim target) = .outside := by
  refine closed_writtenOut_one_iff signed fun closed => opened ?_
  have quiet : ∀ c ∈ [sign, sign], c ≠ '"' := by
    rcases signed with rfl | rfl <;> simp
  unfold Closed
  rw [after_append, show Quoting.outside.after target = .outside from (closed_trim_iff target).mp closed]
  exact after_word quiet

/-- A line that is not cut and ends with a doubled sign. -/
theorem closedByCopy_doubled_iff {sign : Char} (signed : sign = '+' ∨ sign = '-')
    (plus : cutOutside? '+' '=' .outside (target ++ [sign, sign]) = none)
    (minus : cutOutside? '-' '=' .outside (target ++ [sign, sign]) = none) :
    ClosedByCopy (target ++ [sign, sign]) ↔ Quoting.inside.after (Text.trim target) = .outside := by
  constructor
  · rintro ⟨-, -, sign', target', -, same, closed⟩
    rwa [(List.append_inj' same rfl).1]
  · exact fun closed => ⟨plus, minus, sign, target, signed, rfl, closed⟩

/-- Writing out a shorthand closes a literal exactly if the copy of what is counted does. -/
theorem closed_expandCompound_iff (opened : ¬Closed line) : Closed (expandCompound line) ↔ ClosedByCopy line := by
  unfold expandCompound
  cases plus : cutOutside? '+' '=' .outside line with
  | some parts =>
    refine iff_of_false (mt (closed_cut_iff (.inl rfl) plus).mp opened) fun copy => ?_
    cases plus.symm.trans copy.1
  | none =>
    cases minus : cutOutside? '-' '=' .outside line with
    | some parts =>
      refine iff_of_false (mt (closed_cut_iff (.inr rfl) minus).mp opened) fun copy => ?_
      cases minus.symm.trans copy.2.1
    | none =>
      cases up : beforeDoubled? '+' line with
      | some target =>
        obtain rfl := beforeDoubled?_eq_some_iff.mp up
        rw [closedByCopy_doubled_iff (.inl rfl) plus minus]
        exact closed_doubled_iff (.inl rfl) opened
      | none =>
        cases down : beforeDoubled? '-' line with
        | some target =>
          obtain rfl := beforeDoubled?_eq_some_iff.mp down
          rw [closedByCopy_doubled_iff (.inr rfl) plus minus]
          exact closed_doubled_iff (.inr rfl) opened
        | none =>
          refine iff_of_false opened ?_
          rintro ⟨-, -, sign, target, rfl | rfl, same, -⟩
          · cases up.symm.trans (beforeDoubled?_eq_some_iff.mpr same)
          · cases down.symm.trans (beforeDoubled?_eq_some_iff.mpr same)

/-! ### Names in angle brackets -/

variable {catalog : Catalog}

/-- A name and what it is replaced by have no quotes. -/
theorem after_of_substitute {q : Quoting} {cs out : List Char} (h : substitute catalog q 0 cs = .ok out) :
    q.after out = q.after cs := by
  cases cs with
  | nil =>
    cases h
    rfl
  | cons c cs =>
    by_cases found : q = .outside ∧ (bracketName? c cs).isSome
    · obtain ⟨rfl, found⟩ := found
      obtain ⟨name, found⟩ := Option.isSome_iff_exists.mp found
      obtain ⟨rfl, ident, rest, rfl⟩ := bracketName?_eq_some found
      rw [← List.cons_append, substitute_name ident] at h
      obtain ⟨text, replaced, h⟩ := bind_eq_ok.mp h
      obtain ⟨more, replacedMore, rfl⟩ := map_eq_ok.mp h
      have name : ∀ c ∈ '<' :: name ++ ['>'], c ≠ '"' := by
        refine List.forall_mem_append.mpr ⟨List.forall_mem_cons.mpr ⟨by decide, fun c mem => ?_⟩,
          List.forall_mem_singleton.mpr (by decide)⟩
        exact ne_of_isPart (Name.isPart_of_mem_identifier ident c mem) rfl
      rw [after_quiet_append fun c mem => (quiet_of_bracketText ident replaced c mem).1,
        after_of_substitute replacedMore, ← after_quiet_append name rest, List.append_assoc]
      rfl
    · have none : q = .outside → bracketName? c cs = none := by simpa using found
      rw [substitute_keep none] at h
      obtain ⟨more, replacedMore, rfl⟩ := map_eq_ok.mp h
      rw [after_cons, after_cons]
      exact after_of_substitute replacedMore
  termination_by cs.length
  decreasing_by
    · subst_vars
      simp only [List.length_append, List.length_cons]
      omega
    · subst_vars
      exact Nat.lt_succ_self _

/-! ### Tokens -/

/-- A literal is read up to its closing quote. -/
theorem after_of_literal (cs : List Char) : ∀ p, literal cs = .ok p →
    Quoting.inside.after cs = Quoting.outside.after p.2.1 := by
  fun_induction literal cs with
  | case1 => rintro p ⟨⟩
  | case2 cs =>
    rintro p ⟨⟩
    rfl
  | case3 => rintro p ⟨⟩
  | case4 => rintro p ⟨⟩
  | case5 c cs text rest bound found ih =>
    rintro p ⟨⟩
    exact ih _ found
  | case6 => rintro p ⟨⟩
  | case7 c cs quote last escape text rest bound found ih =>
    rintro p ⟨⟩
    have slash : c ≠ '\\' := by
      rintro rfl
      cases cs with
      | nil => exact last rfl rfl
      | cons d cs => exact escape d cs rfl rfl
    have next : Quoting.next .inside c = .inside := by
      rw [Quoting.next, if_neg slash, if_neg quote]
    rw [after_cons, next]
    exact ih _ found

theorem after_of_symbolRest {c : Char} {p : Option Token × List Char} (other : c ≠ '"') (h : symbolRest c cs = .ok p) :
    Quoting.outside.after (c :: cs) = Quoting.outside.after p.2 := by
  have single : ∀ d ∈ [c], d ≠ '"' := by simpa using other
  by_cases compound : Compound c cs
  · obtain ⟨rfl, marker⟩ | ⟨equal, head⟩ := compound
    · obtain ⟨rest, found⟩ := Option.isSome_iff_exists.mp marker
      obtain rfl := Text.eq_append_of_after? found
      have quiet : ∀ d ∈ '<' :: resultTail, d ≠ '"' := by simp [resultTail, resultMarker]
      rw [symbolRest_marker] at h
      cases h
      exact after_quiet_append quiet rest
    · obtain ⟨s, found⟩ := Option.isSome_iff_exists.mp equal
      obtain ⟨rest, rfl⟩ := List.head?_eq_some_iff.mp head
      have quiet : ∀ d ∈ [c, '='], d ≠ '"' := by simpa using other
      rw [symbolRest_equal found] at h
      cases h
      exact after_quiet_append quiet rest
  · obtain ⟨s, -, read⟩ | ⟨-, read⟩ := symbolRest_single compound
    · rw [read] at h
      cases h
      exact after_quiet_append single cs
    · rw [read] at h
      cases h

/-- A run of characters has no quote. -/
theorem after_dropWhile {p : Char → Bool} (quote : p '"' = false) (cs : List Char) :
    Quoting.outside.after (cs.dropWhile p) = Quoting.outside.after cs := by
  have quiet : ∀ c ∈ cs.takeWhile p, c ≠ '"' := by
    rintro c mem rfl
    rw [List.mem_takeWhile_imp mem] at quote
    cases quote
  rw [← after_quiet_append quiet, List.takeWhile_append_dropWhile]

/-- A token begins and ends outside of literals. -/
theorem after_of_stepRest {c : Char} {p : Option Token × List Char} (h : stepRest c cs = .ok p) :
    Quoting.outside.after (c :: cs) = Quoting.outside.after p.2 := by
  by_cases quote : c = '"'
  · subst quote
    rw [stepRest_quote] at h
    obtain ⟨text, read, rfl⟩ := map_eq_ok.mp h
    obtain ⟨r, found, rfl⟩ := map_eq_ok.mp read
    exact after_of_literal cs r found
  have next : Quoting.outside.after (c :: cs) = Quoting.outside.after cs := by
    rw [after_cons, Quoting.next, if_neg quote]
  rw [next]
  by_cases blank : Text.isBlank c = true
  · simp only [stepRest, step, blank, if_true] at h
    cases h
    rfl
  by_cases hash : c = '#'
  · subst hash
    cases found : Text.boundedNumeral? maxLabel (cs.takeWhile Text.isDigit) with
    | none =>
      rw [stepRest_badLabel found] at h
      cases h
    | some n =>
      rw [stepRest_label found] at h
      cases h
      exact (after_dropWhile rfl cs).symm
  by_cases digit : Text.isDigit c = true
  · simp only [stepRest, step, blank, quote, hash, digit, spanRest, if_true, if_false] at h
    cases found : Text.boundedNumeral? maxInteger (c :: cs.takeWhile Text.isDigit) with
    | none =>
      rw [found] at h
      cases h
    | some n =>
      rw [found] at h
      cases h
      exact (after_dropWhile rfl cs).symm
  by_cases start : Name.isStart c = true
  · simp only [stepRest, step, blank, quote, hash, digit, start, spanRest, if_true, if_false] at h
    cases h
    exact (after_dropWhile rfl cs).symm
  · rw [stepRest_symbol blank quote hash digit start] at h
    rw [← next]
    exact after_of_symbolRest quote h

/-- No tokens are read from a text with an open literal. -/
theorem closed_of_tokens {cs : List Char} : ∀ {ts : List Token}, tokens cs = .ok ts → Closed cs := by
  fun_induction tokens cs with
  | case1 => exact fun _ => rfl
  | case2 => rintro ts ⟨⟩
  | case3 => rintro ts ⟨⟩
  | case4 c cs t rest bound found ts more ih =>
    intro _ _
    have read : stepRest c cs = .ok (t, rest) := by
      rw [stepRest, found]
      rfl
    exact (after_of_stepRest read).trans (ih more)

end Source

namespace Assembly

open Source

variable {catalog : Catalog} {map : String}

/-- A line that assembly goes through has no open literal. -/
theorem Step.closed {s s' : State} {l : Line} (h : Step catalog map s l s') : Closed l.text := by
  cases h with
  | begin _ tokens => exact closed_of_tokens tokens
  | setting _ _ read =>
    rw [Preamble.read] at read
    obtain ⟨ts, tokens, -⟩ := bind_eq_ok.mp read
    exact closed_of_tokens tokens
  | enter _ brace => rw [brace]; rfl
  | openBlock _ brace => rw [brace]; rfl
  | closeBlock _ brace => rw [brace]; rfl
  | leave _ brace => rw [brace]; rfl
  | piece _ _ _ tokens => exact closed_of_tokens tokens

/-- In a text that is assembled each line has its literals closed once its shorthand is written out. -/
theorem closed_of_assemble {lines : List String} {us : List ScriptUnit}
    (h : (assemble catalog map lines).result = .ok us) {raw : String} (mem : raw ∈ lines) :
    Closed (expandCompound (stripComment raw.toList)) := by
  have each : ∀ ls (s : State) l s', (∀ l ∈ ls, Closed l.text) → Step catalog map s l s' →
      ∀ l' ∈ ls ++ [l], Closed l'.text := fun ls s l s' before step =>
    List.forall_mem_append.mpr ⟨before, List.forall_mem_singleton.mpr step.closed⟩
  obtain ⟨ls, s, all, closed, -⟩ := assemble_keeps (fun ls _ => ∀ l ∈ ls, Closed l.text) (by simp) each h
  obtain ⟨text, ready, among⟩ := exists_line all mem
  rw [prepared] at ready
  split at ready
  · next empty =>
    rw [List.isEmpty_iff.mp empty]
    rfl
  · obtain ⟨out, replaced, rfl⟩ := map_eq_ok.mp ready
    obtain ⟨l, hl, rfl⟩ := among out rfl
    exact (after_of_substitute replaced).symm.trans (closed l hl)

/-- A line that ends inside a literal is refused, wherever it stands, unless it counts up or down and the copy of what
it counts closes the literal: then, and only then, its literals are closed in the assignment that is written for it. -/
theorem assemble_open_literal {raw : String} (opened : endsOpen .outside raw.toList = true) :
    (¬ClosedByCopy (stripComment raw.toList) → ∀ (catalog : Catalog) (map : String) (lines : List String),
      raw ∈ lines → ∃ e, (assemble catalog map lines).result = .error e) ∧
    (Closed (expandCompound (stripComment raw.toList)) ↔ ClosedByCopy (stripComment raw.toList)) := by
  have stripped : ¬Closed (stripComment raw.toList) := by
    rw [closed_stripComment_iff, opened]
    decide
  have copy := closed_expandCompound_iff stripped
  refine ⟨fun other catalog map lines mem => ?_, copy⟩
  cases result : (assemble catalog map lines).result with
  | error e => exact ⟨e, rfl⟩
  | ok us => exact absurd (copy.mp (closed_of_assemble result mem)) other

/-- A text with one line in its body. -/
def oneLineText (line : String) : List String := ["unit \"Keeper\"", Text.leftBrace, line, Text.rightBrace]

/-- A literal that the line leaves open is refused. With a doubled sign at its end the same line is assembled: the quote
at the front of the second copy closes the literal, which is the name of an object, and the rest of this copy sets a
field of it. -/
theorem assemble_open_literal_keeper :
    (endsOpen .outside "\".Height = 5".toList = true ∧
      ∃ e, (assemble .village "field" (oneLineText "\".Height = 5")).result = .error e) ∧
    endsOpen .outside "\".Height = 5++".toList = true ∧ ClosedByCopy (stripComment "\".Height = 5++".toList) ∧
      ∃ us, (assemble .village "field" (oneLineText "\".Height = 5++")).result = .ok us := by
  have opened : endsOpen .outside "\".Height = 5".toList = true := by decide
  have openedToo : endsOpen .outside "\".Height = 5++".toList = true := by decide
  have plain : ¬ClosedByCopy (stripComment "\".Height = 5".toList) := by
    rw [← (assemble_open_literal opened).2]
    decide
  refine ⟨⟨opened, ?_⟩, openedToo, ?_, exists_eq_ok_of_toOption (by decide +kernel)⟩
  · exact (assemble_open_literal opened).1 plain .village "field" _ (by decide)
  · exact (assemble_open_literal openedToo).2.mp (by decide)

end Assembly

end EventScript
