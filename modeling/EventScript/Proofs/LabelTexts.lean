import EventScript.Proofs.Scanning
import Mathlib.Data.List.TakeWhile

/-!
# Texts with other label numbers

A label is a `#` outside of literals with a number after it. The number may be spelled with names in angle brackets,
which are replaced by digits before the line is cut into tokens: if an item has the ordinal 7, then `#<Potion>` is the
label 7 and `#5<Potion>` is the label 57. `numberFront` finds such a number, `segments` the labels of a line, and
`relabelFrom` writes other numbers in their place. `Renames` relates a text to the one with other labels, without
mentioning how it was found. It is kept when a line loses its comment and its blanks, and when it is cut at a shorthand.
-/

namespace EventScript.Source

/-! ### Numbers at the front of a text -/

/-- A character of a number that may be spelled with names in angle brackets. -/
def isNumberPart (c : Char) : Bool := Name.isPart c || c == '<' || c == '>'

theorem isNumberPart_of_isPart {c : Char} (h : Name.isPart c = true) : isNumberPart c = true := by
  simp [isNumberPart, h]

theorem isNumberPart_of_mem_toDigits (n : Nat) : ∀ c ∈ Nat.toDigits 10 n, isNumberPart c = true :=
  fun _ mem => isNumberPart_of_isPart (isPart_of_mem_toDigits mem)

theorem ne_of_isNumberPart {c d : Char} (h : isNumberPart c = true) (hd : isNumberPart d = false) : c ≠ d := by
  rintro rfl
  exact Bool.false_ne_true (hd.symm.trans h)

theorem isBlank_of_isNumberPart {c : Char} (h : isNumberPart c = true) : Text.isBlank c = false := by
  simp only [isNumberPart, Bool.or_eq_true, beq_iff_eq] at h
  obtain (part | rfl) | rfl := h
  · exact isBlank_of_isPart part
  · decide
  · decide

theorem ne_quote_of_isBlank {c : Char} (blank : Text.isBlank c = true) : c ≠ '"' := by
  rintro rfl
  exact absurd blank (by decide)

theorem isNumberPart_of_isBlank {c : Char} (h : Text.isBlank c = true) : isNumberPart c = false := by
  cases part : isNumberPart c with
  | false => rfl
  | true => exact absurd ((isBlank_of_isNumberPart part).symm.trans h) Bool.false_ne_true

/-- What comes after a character that stops a run does not matter to it. -/
theorem takeWhile_append_stop {p : Char → Bool} {bs : List Char} (stop : ∀ c ∈ bs.head?, p c = false)
    (as : List Char) : (as ++ bs).takeWhile p = as.takeWhile p := by
  induction as with
  | nil =>
    cases bs with
    | nil => rfl
    | cons c bs => exact List.takeWhile_cons_of_neg (by simp [stop c rfl])
  | cons a as ih => rw [List.cons_append, List.takeWhile_cons, List.takeWhile_cons, ih]

theorem drop_length_takeWhile (p : Char → Bool) (cs : List Char) :
    cs.drop (cs.takeWhile p).length = cs.dropWhile p := by
  have whole : cs.takeWhile p ++ cs.dropWhile p = cs := List.takeWhile_append_dropWhile
  calc cs.drop (cs.takeWhile p).length
      = (cs.takeWhile p ++ cs.dropWhile p).drop (cs.takeWhile p).length := by rw [whole]
    _ = cs.dropWhile p := List.drop_left

theorem bracketName?_eq_some {c : Char} {cs name : List Char} (h : bracketName? c cs = some name) :
    c = '<' ∧ Name.isIdentifier name = true ∧ ∃ rest, cs = name ++ '>' :: rest := by
  rw [bracketName?, drop_length_takeWhile] at h
  split at h
  · next found =>
    obtain ⟨rfl, ident, close⟩ := found
    cases h
    obtain ⟨rest, split⟩ := List.head?_eq_some_iff.mp close
    exact ⟨rfl, ident, rest, by rw [← split, List.takeWhile_append_dropWhile]⟩
  · cases h

/-- Only the characters of numbers matter. -/
theorem bracketName?_takeWhile (c : Char) (cs : List Char) :
    bracketName? c (cs.takeWhile isNumberPart) = bracketName? c cs := by
  have parts : ∀ d ∈ cs.takeWhile Name.isPart, isNumberPart d = true :=
    fun d mem => isNumberPart_of_isPart (List.mem_takeWhile_imp mem)
  have front : cs.takeWhile isNumberPart =
      cs.takeWhile Name.isPart ++ (cs.dropWhile Name.isPart).takeWhile isNumberPart := by
    rw [← List.takeWhile_append_of_pos parts, List.takeWhile_append_dropWhile]
  have name : (cs.takeWhile isNumberPart).takeWhile Name.isPart = cs.takeWhile Name.isPart := by
    have both : (fun d => decide (Name.isPart d = true ∧ isNumberPart d = true)) = Name.isPart := by
      funext d
      cases part : Name.isPart d with
      | false => simp
      | true => simp [isNumberPart_of_isPart part]
    rw [List.takeWhile_takeWhile, both]
  have close : ((cs.dropWhile Name.isPart).takeWhile isNumberPart).head? = some '>' ↔
      (cs.dropWhile Name.isPart).head? = some '>' := by
    cases cs.dropWhile Name.isPart with
    | nil => rfl
    | cons d ds =>
      by_cases part : isNumberPart d = true
      · rw [List.takeWhile_cons_of_pos part]
        rfl
      · have other : d ≠ '>' := by
          rintro rfl
          exact part rfl
        simp [List.takeWhile_cons_of_neg part, other]
  have rest : (cs.takeWhile isNumberPart).drop (cs.takeWhile Name.isPart).length =
      (cs.dropWhile Name.isPart).takeWhile isNumberPart := by
    rw [front, List.drop_left]
  rw [bracketName?, name, rest, bracketName?, drop_length_takeWhile]
  simp only [close]

section

variable (brackets : List Char → Option (List Char))

/-- The number at the front of a text, as it is spelled and in digits. `brackets` gives the digits for a name in angle
brackets, and the next `skip` characters belong to a name that has been taken. -/
def numberFront : (skip : Nat) → List Char → List Char × List Char
  | _, [] => ([], [])
  | skip + 1, _ :: cs => numberFront skip cs
  | 0, c :: cs =>
    if Text.isDigit c then (c :: (numberFront 0 cs).1, c :: (numberFront 0 cs).2)
    else
      match bracketName? c cs with
      | none => ([], [])
      | some name =>
        match brackets name with
        | none => ([], [])
        | some digits =>
          (c :: name ++ '>' :: (numberFront (name.length + 1) cs).1, digits ++ (numberFront (name.length + 1) cs).2)

/-- A text spells digits. -/
inductive Spells : List Char → List Char → Prop
  | nil : Spells [] []
  | digit {c : Char} {cs ds : List Char} (digit : Text.isDigit c = true) (rest : Spells cs ds) :
    Spells (c :: cs) (c :: ds)
  | name {name digits cs ds : List Char} (ident : Name.isIdentifier name = true) (known : brackets name = some digits)
    (rest : Spells cs ds) : Spells ('<' :: name ++ '>' :: cs) (digits ++ ds)

end

variable {brackets : List Char → Option (List Char)}

theorem isNumberPart_of_spells {word digits : List Char} (h : Spells brackets word digits) :
    ∀ c ∈ word, isNumberPart c = true := by
  induction h with
  | nil => exact fun c mem => absurd mem List.not_mem_nil
  | digit digit _ ih => exact List.forall_mem_cons.mpr ⟨isNumberPart_of_isPart (Name.isPart_of_isDigit digit), ih⟩
  | name ident _ _ ih =>
    refine List.forall_mem_append.mpr ⟨List.forall_mem_cons.mpr ⟨rfl, fun c mem => ?_⟩,
      List.forall_mem_cons.mpr ⟨rfl, ih⟩⟩
    exact isNumberPart_of_isPart (Name.isPart_of_mem_identifier ident c mem)

theorem spells_of_all {digits : List Char} (all : digits.all Text.isDigit = true) : Spells brackets digits digits := by
  induction digits with
  | nil => exact .nil
  | cons c digits ih =>
    rw [List.all_cons, Bool.and_eq_true] at all
    exact .digit all.1 (ih all.2)

theorem numberFront_skip (skipped rest : List Char) :
    numberFront brackets skipped.length (skipped ++ rest) = numberFront brackets 0 rest := by
  induction skipped with
  | nil => rfl
  | cons c skipped ih => rw [List.length_cons, List.cons_append, numberFront, ih]

theorem numberFront_name {name digits : List Char} (ident : Name.isIdentifier name = true)
    (known : brackets name = some digits) (cs : List Char) : numberFront brackets 0 ('<' :: name ++ '>' :: cs) =
      ('<' :: name ++ '>' :: (numberFront brackets 0 cs).1, digits ++ (numberFront brackets 0 cs).2) := by
  have skip : numberFront brackets (name ++ ['>']).length (name ++ ['>'] ++ cs) = numberFront brackets 0 cs :=
    numberFront_skip _ _
  rw [List.length_append, List.append_assoc] at skip
  rw [List.cons_append, numberFront, if_neg (by decide)]
  simp only [bracketName?_name ident, known]
  rw [← skip]
  rfl

/-- What spells a number is found, if no number follows it. -/
theorem numberFront_spells {word digits : List Char} (h : Spells brackets word digits) {rest : List Char}
    (ends : numberFront brackets 0 rest = ([], [])) : numberFront brackets 0 (word ++ rest) = (word, digits) := by
  induction h with
  | nil => exact ends
  | digit digit _ ih => rw [List.cons_append, numberFront, if_pos digit, ih]
  | name ident known _ ih => rw [List.append_assoc, List.cons_append (a := '>'), numberFront_name ident known, ih]

/-- The number at the front is spelled by a part of the text, and none follows it. -/
theorem exists_numberFront (cs : List Char) : ∃ word digits rest, cs = word ++ rest ∧
    numberFront brackets 0 cs = (word, digits) ∧ Spells brackets word digits ∧
    numberFront brackets 0 rest = ([], []) := by
  match cs with
  | [] => exact ⟨[], [], [], rfl, rfl, .nil, rfl⟩
  | c :: cs =>
    by_cases digit : Text.isDigit c = true
    · obtain ⟨word, digits, rest, split, front, spells, ends⟩ := exists_numberFront cs
      refine ⟨c :: word, c :: digits, rest, congrArg (c :: ·) split, ?_, .digit digit spells, ends⟩
      rw [numberFront, if_pos digit, front]
    · have other : numberFront brackets 0 (c :: cs) = ([], []) ∨ ∃ name digits, bracketName? c cs = some name ∧
          brackets name = some digits := by
        rw [numberFront, if_neg digit]
        cases found : bracketName? c cs with
        | none => exact .inl rfl
        | some name =>
          cases known : brackets name with
          | none => exact .inl (by simp only [known])
          | some digits => exact .inr ⟨name, digits, rfl, known⟩
      obtain none | ⟨name, digits, found, known⟩ := other
      · exact ⟨[], [], c :: cs, rfl, none, .nil, none⟩
      · obtain ⟨rfl, ident, after, rfl⟩ := bracketName?_eq_some found
        obtain ⟨word, more, rest, split, front, spells, ends⟩ := exists_numberFront after
        refine ⟨'<' :: name ++ '>' :: word, digits ++ more, rest, by simp [split], ?_, .name ident known spells, ends⟩
        rw [← List.cons_append, numberFront_name ident known, front]
  termination_by cs.length
  decreasing_by
    · simp
    · subst_vars
      simp only [List.length_append, List.length_cons]
      omega

/-- Only the characters of numbers matter. -/
theorem numberFront_takeWhile (cs : List Char) : ∀ skip ≤ (cs.takeWhile isNumberPart).length,
    numberFront brackets skip (cs.takeWhile isNumberPart) = numberFront brackets skip cs := by
  induction cs with
  | nil => exact fun _ _ => rfl
  | cons c cs ih =>
    intro skip le
    by_cases part : isNumberPart c = true
    · rw [List.takeWhile_cons_of_pos part] at le ⊢
      cases skip with
      | succ skip => exact ih skip (Nat.le_of_succ_le_succ le)
      | zero =>
        rw [numberFront, numberFront, bracketName?_takeWhile, ih 0 (Nat.zero_le _)]
        cases found : bracketName? c cs with
        | none => rfl
        | some name =>
          obtain ⟨rfl, ident, rest, rfl⟩ := bracketName?_eq_some found
          have fits : name.length + 1 ≤ ((name ++ '>' :: rest).takeWhile isNumberPart).length := by
            have parts : ∀ d ∈ name ++ ['>'], isNumberPart d = true :=
              List.forall_mem_append.mpr ⟨fun d mem => isNumberPart_of_isPart (Name.isPart_of_mem_identifier ident d mem),
                List.forall_mem_singleton.mpr rfl⟩
            have whole : name ++ '>' :: rest = name ++ ['>'] ++ rest := by simp
            rw [whole, List.takeWhile_append_of_pos parts]
            simp
          simp only [ih _ fits]
    · have zero : skip = 0 := by
        rw [List.takeWhile_cons_of_neg part] at le
        exact Nat.le_zero.mp le
      have digit : Text.isDigit c ≠ true := fun digit => part (isNumberPart_of_isPart (Name.isPart_of_isDigit digit))
      have bracket : c ≠ '<' := by
        rintro rfl
        exact part rfl
      have none : numberFront brackets 0 (c :: cs) = ([], []) := by
        rw [numberFront, if_neg digit, bracketName?_of_ne bracket]
      rw [zero, List.takeWhile_cons_of_neg part, none]
      rfl

theorem numberFront_congr {cs ds : List Char} (same : cs.takeWhile isNumberPart = ds.takeWhile isNumberPart) :
    numberFront brackets 0 cs = numberFront brackets 0 ds := by
  rw [← numberFront_takeWhile cs 0 (Nat.zero_le _), same, numberFront_takeWhile ds 0 (Nat.zero_le _)]

/-! ### Labels of a line -/

section

variable (brackets : List Char → Option (List Char))

/-- The label number at the front of a text, with its spelling. -/
def labelFront? (cs : List Char) : Option (List Char × UInt32) :=
  (Text.boundedNumeral? maxLabel (numberFront brackets 0 cs).2).map fun n =>
    ((numberFront brackets 0 cs).1, UInt32.ofNat n)

/-- A character of a line, or a label that the line names. -/
inductive Segment where
  | char (c : Char)
  | label (word : List Char) (number : UInt32)
  deriving DecidableEq, Repr

/-- The segments of a line. There are no labels in literals and in the comment. -/
def segments : Quoting → (skip : Nat) → List Char → List Segment
  | _, _, [] => []
  | q, skip + 1, _ :: cs => segments q skip cs
  | q, 0, c :: cs =>
    if q = .outside ∧ c = '/' ∧ cs.head? = some '/' then (c :: cs).map .char
    else
      match if q = .outside ∧ c = '#' then labelFront? brackets cs else none with
      | some (word, number) => .label word number :: segments q word.length cs
      | none => .char c :: segments (q.next c) 0 cs

/-- The text of a segment with another label number. -/
def Segment.text (f : UInt32 → UInt32) : Segment → List Char
  | char c => [c]
  | label _ number => '#' :: Nat.toDigits 10 (f number).toNat

/-- The label that a segment is. -/
def Segment.number? : Segment → Option UInt32
  | char _ => none
  | label _ number => some number

/-- A text with other label numbers. -/
def relabelFrom (f : UInt32 → UInt32) (q : Quoting) (cs : List Char) : List Char :=
  (segments brackets q 0 cs).flatMap (Segment.text f)

end

theorem labelFront?_congr {cs ds : List Char} (same : cs.takeWhile isNumberPart = ds.takeWhile isNumberPart) :
    labelFront? brackets cs = labelFront? brackets ds := by
  rw [labelFront?, labelFront?, numberFront_congr same]

/-- A label is spelled by a part of the text, and its number does not go on. -/
theorem labelFront?_eq_some {cs word : List Char} {number : UInt32}
    (h : labelFront? brackets cs = some (word, number)) :
    ∃ digits n rest, cs = word ++ rest ∧ Spells brackets word digits ∧ Text.boundedNumeral? maxLabel digits = some n ∧
      number = UInt32.ofNat n ∧ numberFront brackets 0 rest = ([], []) := by
  obtain ⟨word', digits, rest, split, front, spells, ends⟩ :
      ∃ word digits rest, cs = word ++ rest ∧ numberFront brackets 0 cs = (word, digits) ∧ _ := exists_numberFront cs
  rw [labelFront?, front] at h
  obtain ⟨n, bounded, same⟩ := Option.map_eq_some_iff.mp h
  cases same
  exact ⟨digits, n, rest, split, spells, bounded, rfl, ends⟩

theorem labelFront?_toDigits (number : UInt32) {rest : List Char} (ends : numberFront brackets 0 rest = ([], [])) :
    labelFront? brackets (Nat.toDigits 10 number.toNat ++ rest) = some (Nat.toDigits 10 number.toNat, number) := by
  have bound : number.toNat ≤ maxLabel := Nat.le_of_lt_succ number.toNat_lt
  rw [labelFront?, numberFront_spells (spells_of_all (Text.all_isDigit_toDigits _)) ends,
    Text.boundedNumeral?_toDigits bound, Option.map_some, UInt32.ofNat_toNat]

theorem segments_skip (q : Quoting) (skipped rest : List Char) :
    segments brackets q skipped.length (skipped ++ rest) = segments brackets q 0 rest := by
  induction skipped with
  | nil => rfl
  | cons c skipped ih => rw [List.length_cons, List.cons_append, segments, ih]

variable {f : UInt32 → UInt32}

theorem segments_comment {cs : List Char} (comment : cs.head? = some '/') :
    segments brackets .outside 0 ('/' :: cs) = ('/' :: cs).map .char := by
  rw [segments, if_pos ⟨rfl, rfl, comment⟩]

theorem segments_label {word rest : List Char} {number : UInt32}
    (label : labelFront? brackets (word ++ rest) = some (word, number)) :
    segments brackets .outside 0 ('#' :: (word ++ rest)) = .label word number :: segments brackets .outside 0 rest := by
  rw [segments, if_neg (by simp), if_pos ⟨rfl, rfl⟩, label]
  simp only [segments_skip]

theorem segments_char {q : Quoting} {c : Char} {cs : List Char}
    (comment : ¬(q = .outside ∧ c = '/' ∧ cs.head? = some '/'))
    (plain : q = .outside → c = '#' → labelFront? brackets cs = none) :
    segments brackets q 0 (c :: cs) = .char c :: segments brackets (q.next c) 0 cs := by
  have none : (if q = .outside ∧ c = '#' then labelFront? brackets cs else none) = none := by
    split
    · next label => exact plain label.1 label.2
    · rfl
  rw [segments, if_neg comment, none]

/-- A text is gone through segment by segment, to its end or to its comment. -/
theorem segments_induction (brackets : List Char → Option (List Char)) {motive : Quoting → List Char → Prop}
    (nil : ∀ q, motive q [])
    (comment : ∀ cs, cs.head? = some '/' → motive .outside ('/' :: cs))
    (char : ∀ q c cs, ¬(q = .outside ∧ c = '/' ∧ cs.head? = some '/') →
      (q = .outside → c = '#' → labelFront? brackets cs = none) → motive (q.next c) cs → motive q (c :: cs))
    (label : ∀ word rest number, labelFront? brackets (word ++ rest) = some (word, number) → motive .outside rest →
      motive .outside ('#' :: (word ++ rest)))
    (q : Quoting) (cs : List Char) : motive q cs := by
  match cs with
  | [] => exact nil q
  | c :: cs =>
    by_cases slashes : q = .outside ∧ c = '/' ∧ cs.head? = some '/'
    · obtain ⟨rfl, rfl, second⟩ := slashes
      exact comment cs second
    by_cases plain : q = .outside → c = '#' → labelFront? brackets cs = none
    · exact char q c cs slashes plain (segments_induction brackets nil comment char label _ cs)
    · obtain ⟨rfl, rfl, found⟩ : q = .outside ∧ c = '#' ∧ labelFront? brackets cs ≠ none := by simpa using plain
      obtain ⟨⟨word, number⟩, found⟩ := Option.ne_none_iff_exists'.mp found
      obtain ⟨-, -, rest, rfl, -⟩ := labelFront?_eq_some found
      exact label word rest number found (segments_induction brackets nil comment char label _ rest)
  termination_by cs.length
  decreasing_by
    · simp
    · subst_vars
      simp only [List.length_append, List.length_cons]
      omega

theorem relabelFrom_comment {cs : List Char} (comment : cs.head? = some '/') :
    relabelFrom brackets f .outside ('/' :: cs) = '/' :: cs := by
  rw [relabelFrom, segments_comment comment, List.flatMap_map]
  exact List.flatMap_singleton' _

theorem relabelFrom_label {word rest : List Char} {number : UInt32}
    (label : labelFront? brackets (word ++ rest) = some (word, number)) :
    relabelFrom brackets f .outside ('#' :: (word ++ rest)) =
      '#' :: Nat.toDigits 10 (f number).toNat ++ relabelFrom brackets f .outside rest := by
  rw [relabelFrom, segments_label label, List.flatMap_cons]
  rfl

theorem relabelFrom_char {q : Quoting} {c : Char} {cs : List Char}
    (comment : ¬(q = .outside ∧ c = '/' ∧ cs.head? = some '/'))
    (plain : q = .outside → c = '#' → labelFront? brackets cs = none) :
    relabelFrom brackets f q (c :: cs) = c :: relabelFrom brackets f (q.next c) cs := by
  rw [relabelFrom, segments_char comment plain, List.flatMap_cons]
  rfl

theorem head?_relabelFrom (q : Quoting) (cs : List Char) : (relabelFrom brackets f q cs).head? = cs.head? := by
  cases q, cs using segments_induction brackets with
  | nil => rfl
  | comment cs second => rw [relabelFrom_comment second]
  | char q c cs comment plain =>
    rw [relabelFrom_char comment plain]
    rfl
  | label word rest number label =>
    rw [relabelFrom_label label]
    rfl

/-- The characters of a number stay, if it is not that of a label. -/
theorem takeWhile_relabelFrom (q : Quoting) (cs : List Char) :
    (relabelFrom brackets f q cs).takeWhile isNumberPart = cs.takeWhile isNumberPart := by
  have none : ∀ rest : List Char, ('#' :: rest).takeWhile isNumberPart = [] :=
    fun rest => List.takeWhile_cons_of_neg (by decide)
  induction q, cs using segments_induction brackets with
  | nil => rfl
  | comment cs second => rw [relabelFrom_comment second]
  | char q c cs comment plain ih => rw [relabelFrom_char comment plain, List.takeWhile_cons, List.takeWhile_cons, ih]
  | label word rest number label => rw [relabelFrom_label label, List.cons_append, none, none]

/-- A segment with another label number. -/
def Segment.relabel (f : UInt32 → UInt32) : Segment → Segment
  | char c => char c
  | label _ number => label (Nat.toDigits 10 (f number).toNat) (f number)

/-- Nothing but the labels changes, and they become what the renaming gives. -/
theorem segments_relabelFrom (q : Quoting) (cs : List Char) :
    segments brackets q 0 (relabelFrom brackets f q cs) = (segments brackets q 0 cs).map (Segment.relabel f) := by
  induction q, cs using segments_induction brackets with
  | nil => rfl
  | comment cs second =>
    rw [relabelFrom_comment second, segments_comment second, List.map_map]
    rfl
  | char q c cs comment plain ih =>
    have comment' : ¬(q = .outside ∧ c = '/' ∧ (relabelFrom brackets f (q.next c) cs).head? = some '/') := by
      rwa [head?_relabelFrom]
    have plain' : q = .outside → c = '#' → labelFront? brackets (relabelFrom brackets f (q.next c) cs) = none :=
      fun outside hash => (labelFront?_congr (takeWhile_relabelFrom _ cs)).trans (plain outside hash)
    rw [relabelFrom_char comment plain, segments_char comment' plain', ih, segments_char comment plain, List.map_cons]
    rfl
  | label word rest number label ih =>
    obtain ⟨-, -, rest', split, -, -, -, ends⟩ := labelFront?_eq_some label
    cases List.append_cancel_left split
    rw [← numberFront_congr (takeWhile_relabelFrom (f := f) .outside rest)] at ends
    rw [relabelFrom_label label, List.cons_append, segments_label (labelFront?_toDigits (f number) ends), ih,
      segments_label label, List.map_cons]
    rfl

/-! ### Texts that differ in label numbers -/

section

variable (brackets : List Char → Option (List Char)) (f : UInt32 → UInt32)

/-- Two texts are the same but for the label numbers outside of literals, which are changed by `f`. -/
inductive Renames : Quoting → List Char → List Char → Prop
  | nil {q : Quoting} : Renames q [] []
  | char {q : Quoting} {c : Char} {cs ds : List Char}
    (plain : q = .outside → c = '#' → labelFront? brackets cs = none) (rest : Renames (q.next c) cs ds) :
    Renames q (c :: cs) (c :: ds)
  | label {word digits cs ds : List Char} {n : Nat} (spells : Spells brackets word digits)
    (bounded : Text.boundedNumeral? maxLabel digits = some n) (ends : numberFront brackets 0 cs = ([], []))
    (rest : Renames .outside cs ds) :
    Renames .outside ('#' :: word ++ cs) ('#' :: Nat.toDigits 10 (f (UInt32.ofNat n)).toNat ++ ds)

/-- Two texts are the same but for numbers after a `#`. If they have to be `strict`, nothing differs in front of the
first label, and its number is changed by `f`. -/
inductive Near : (strict : Bool) → Quoting → List Char → List Char → Prop
  | nil {strict : Bool} {q : Quoting} : Near strict q [] []
  | char {strict : Bool} {q : Quoting} {c : Char} {cs ds : List Char}
    (plain : strict = true → q = .outside → c = '#' → labelFront? brackets cs = none)
    (rest : Near strict (q.next c) cs ds) : Near strict q (c :: cs) (c :: ds)
  | label {strict : Bool} {word digits cs ds : List Char} {n : Nat} {number : UInt32}
    (spells : Spells brackets word digits) (bounded : Text.boundedNumeral? maxLabel digits = some n)
    (ends : numberFront brackets 0 cs = ([], [])) (named : strict = true → number = f (UInt32.ofNat n))
    (rest : Near false .outside cs ds) :
    Near strict .outside ('#' :: word ++ cs) ('#' :: Nat.toDigits 10 number.toNat ++ ds)
  | quoted {q : Quoting} {word word' cs ds : List Char} (inside : q ≠ .outside)
    (parts : ∀ c ∈ word, isNumberPart c = true) (parts' : ∀ c ∈ word', isNumberPart c = true)
    (rest : Near false .inside cs ds) : Near false q ('#' :: word ++ cs) ('#' :: word' ++ ds)

end

namespace Near

variable {strict : Bool} {q : Quoting} {cs ds : List Char}

/-- A run that stops at a label is the same in both texts. -/
theorem takeWhile_eq (h : Near brackets f strict q cs ds) {p : Char → Bool} (stop : p '#' = false) :
    cs.takeWhile p = ds.takeWhile p := by
  have none : ∀ rest : List Char, ('#' :: rest).takeWhile p = [] :=
    fun rest => List.takeWhile_cons_of_neg (by simp [stop])
  induction h with
  | nil => rfl
  | char _ _ ih => rw [List.takeWhile_cons, List.takeWhile_cons, ih]
  | label => rw [List.cons_append, List.cons_append, none, none]
  | quoted => rw [List.cons_append, List.cons_append, none, none]

theorem head?_eq (h : Near brackets f strict q cs ds) : cs.head? = ds.head? := by
  cases h with
  | nil => rfl
  | char => rfl
  | label => rfl
  | quoted => rfl

theorem eq_nil_iff (h : Near brackets f strict q cs ds) : cs = [] ↔ ds = [] := by
  rw [← List.head?_eq_none_iff, h.head?_eq, List.head?_eq_none_iff]

end Near

namespace Renames

variable {q : Quoting} {cs ds : List Char}

/-- The second text need not be read from where the first one was. -/
theorem loose (h : Renames brackets f q cs ds) : ∀ q', Near brackets f false q' cs ds := by
  induction h with
  | nil => exact fun _ => .nil
  | char _ _ ih => exact fun q' => .char (fun strict => absurd strict Bool.false_ne_true) (ih _)
  | label spells bounded ends _ ih =>
    intro q'
    by_cases outside : q' = .outside
    · rw [outside]
      exact .label spells bounded ends (fun strict => absurd strict Bool.false_ne_true) (ih _)
    · exact .quoted outside (isNumberPart_of_spells spells) (isNumberPart_of_mem_toDigits _) (ih _)

theorem near (h : Renames brackets f q cs ds) : Near brackets f true q cs ds := by
  induction h with
  | nil => exact .nil
  | char plain _ ih => exact .char (fun _ => plain) ih
  | label spells bounded ends rest _ => exact .label spells bounded ends (fun _ => rfl) (rest.loose _)

/-- A character that is no `#` stands in both texts. -/
theorem of_cons {c : Char} (h : Renames brackets f q (c :: cs) ds) (other : c ≠ '#') :
    ∃ ds', ds = c :: ds' ∧ Renames brackets f (q.next c) cs ds' := by
  generalize whole : c :: cs = text at h
  cases h with
  | nil => cases whole
  | char _ rest =>
    cases whole
    exact ⟨_, rfl, rest⟩
  | label =>
    cases whole
    exact absurd rfl other

end Renames

/-! ### Comments -/

theorem isNumberPart_uncommented (cs : List Char) : ∀ q : Quoting,
    (uncommented q false cs).takeWhile isNumberPart = cs.takeWhile isNumberPart := by
  induction cs with
  | nil => exact fun _ => rfl
  | cons c cs ih =>
    intro q
    rw [uncommented]
    simp only [Bool.false_and, Bool.false_eq_true, if_false]
    by_cases part : isNumberPart c = true
    · have slash : c ≠ '/' := ne_of_isNumberPart part rfl
      have comma : (c == ',') = false := by simpa using ne_of_isNumberPart part (d := ',') rfl
      rw [if_neg (fun h => slash h.2.1), comma, Bool.and_false, List.takeWhile_cons_of_pos part,
        List.takeWhile_cons_of_pos part, ih]
    · rw [List.takeWhile_cons_of_neg part]
      split
      · rfl
      · exact List.takeWhile_cons_of_neg part

theorem uncommented_label {word : List Char} (parts : ∀ c ∈ word, isNumberPart c = true) (comma : Bool)
    (rest : List Char) :
    uncommented .outside comma ('#' :: word ++ rest) = '#' :: word ++ uncommented .outside false rest := by
  have quiet : ∀ c ∈ '#' :: word, c ≠ '"' ∧ c ≠ ',' ∧ c ≠ '/' := by
    refine List.forall_mem_cons.mpr ⟨by decide, fun c mem => ?_⟩
    have part := parts c mem
    exact ⟨ne_of_isNumberPart part rfl, ne_of_isNumberPart part rfl, ne_of_isNumberPart part rfl⟩
  rw [← uncommented_quiet quiet]
  simp [uncommented]

/-- Comments are the same in both texts, so what is left of the lines without them differs in labels only. -/
theorem renames_uncommented (q : Quoting) (comma : Bool) (cs : List Char) (after : comma = true → q = .outside) :
    Renames brackets f q (uncommented q comma cs) (uncommented q comma (relabelFrom brackets f q cs)) := by
  induction q, cs using segments_induction brackets generalizing comma with
  | nil => exact .nil
  | comment cs second =>
    have none : uncommented .outside comma ('/' :: cs) = [] := by simp [uncommented, second]
    rw [relabelFrom_comment second, none]
    exact .nil
  | char q c cs comment plain ih =>
    rw [relabelFrom_char comment plain, uncommented, uncommented, head?_relabelFrom, if_neg comment, if_neg comment]
    split
    · next space =>
      obtain ⟨rfl, rfl⟩ : comma = true ∧ c = ' ' := by simpa using space
      cases after rfl
      exact ih true fun _ => rfl
    · refine .char (fun outside hash => ?_) (ih _ fun comma => ?_)
      · subst outside hash
        rw [← plain rfl rfl]
        exact labelFront?_congr (isNumberPart_uncommented cs .outside)
      · obtain ⟨rfl, rfl⟩ : q = .outside ∧ c = ',' := by simpa using comma
        rfl
  | label word rest number label ih =>
    obtain ⟨digits, n, rest', split, spells, bounded, rfl, ends⟩ := labelFront?_eq_some label
    cases List.append_cancel_left split
    rw [relabelFrom_label label, ← List.cons_append, uncommented_label (isNumberPart_of_spells spells),
      uncommented_label (isNumberPart_of_mem_toDigits _)]
    refine .label spells bounded ?_ (ih false fun h => absurd h Bool.false_ne_true)
    rw [← ends]
    exact numberFront_congr (isNumberPart_uncommented rest .outside)

/-! ### Blanks at the ends -/

theorem trimEnd_cons (c : Char) (cs : List Char) :
    Text.trimEnd (c :: cs) = if Text.trimEnd cs = [] ∧ Text.isBlank c = true then [] else c :: Text.trimEnd cs :=
  Text.dropEnd_cons Text.isBlank c cs

theorem trimEnd_append {word : List Char} (parts : ∀ c ∈ word, Text.isBlank c = false) (cs : List Char) :
    Text.trimEnd (word ++ cs) = word ++ Text.trimEnd cs := by
  induction word with
  | nil => rfl
  | cons c word ih =>
    obtain ⟨first, others⟩ := List.forall_mem_cons.mp parts
    rw [List.cons_append, trimEnd_cons, ih others, if_neg (by simp [first]), List.cons_append]

theorem isNumberPart_trimEnd (cs : List Char) :
    (Text.trimEnd cs).takeWhile isNumberPart = cs.takeWhile isNumberPart := by
  induction cs with
  | nil => rfl
  | cons c cs ih =>
    rw [trimEnd_cons]
    split
    · next blank => rw [List.takeWhile_cons_of_neg (by simp [isNumberPart_of_isBlank blank.2]), List.takeWhile_nil]
    · rw [List.takeWhile_cons, List.takeWhile_cons, ih]

namespace Renames

variable {q : Quoting} {cs ds : List Char}

theorem trimStart (h : Renames brackets f q cs ds) (outside : q = .outside) :
    Renames brackets f .outside (Text.trimStart cs) (Text.trimStart ds) := by
  induction h with
  | nil => exact .nil
  | @char q c cs ds plain rest ih =>
    subst outside
    rw [Text.trimStart, Text.trimStart, List.dropWhile_cons, List.dropWhile_cons]
    split
    · next blank => exact ih (if_neg (ne_quote_of_isBlank blank))
    · exact .char plain rest
  | label spells bounded ends rest _ => exact .label spells bounded ends rest

theorem trimEnd (h : Renames brackets f q cs ds) : Renames brackets f q (Text.trimEnd cs) (Text.trimEnd ds) := by
  induction h with
  | nil => exact .nil
  | @char q c cs ds plain rest ih =>
    rw [trimEnd_cons, trimEnd_cons]
    simp only [ih.near.eq_nil_iff]
    split
    · exact .nil
    · refine .char (fun outside hash => ?_) ih
      rw [← plain outside hash]
      exact labelFront?_congr (isNumberPart_trimEnd cs)
  | @label word digits cs ds n spells bounded ends rest ih =>
    have filled : ∀ word : List Char, (∀ c ∈ word, isNumberPart c = true) → ∀ c ∈ '#' :: word, Text.isBlank c = false :=
      fun word parts => List.forall_mem_cons.mpr ⟨by decide, fun c mem => isBlank_of_isNumberPart (parts c mem)⟩
    rw [trimEnd_append (filled _ (isNumberPart_of_spells spells)),
      trimEnd_append (filled _ (isNumberPart_of_mem_toDigits _))]
    refine .label spells bounded ?_ ih
    rw [← ends]
    exact numberFront_congr (isNumberPart_trimEnd cs)

theorem trim (h : Renames brackets f .outside cs ds) : Renames brackets f .outside (Text.trim cs) (Text.trim ds) :=
  (h.trimStart rfl).trimEnd

end Renames

/-! ### Shorthands -/

/-- Where a scan stands after a text. -/
def Quoting.after (q : Quoting) (cs : List Char) : Quoting := cs.foldl Quoting.next q

theorem cutOutside?_append {a : Char} {word : List Char} (quiet : ∀ c ∈ word, c ≠ '"' ∧ c ≠ a) (cs : List Char) :
    cutOutside? a '=' .outside (word ++ cs) = (cutOutside? a '=' .outside cs).map fun p => (word ++ p.1, p.2) := by
  induction word with
  | nil => exact Option.map_id'.symm
  | cons c word ih =>
    obtain ⟨⟨quote, other⟩, others⟩ := List.forall_mem_cons.mp quiet
    have same : Quoting.next .outside c = .outside := if_neg quote
    rw [List.cons_append, cutOutside?, if_neg (fun h => other h.2.1), same, ih others, Option.map_map]
    rfl

theorem after_append (q : Quoting) (as bs : List Char) : q.after (as ++ bs) = (q.after as).after bs :=
  List.foldl_append

theorem after_word {word : List Char} (quiet : ∀ c ∈ word, c ≠ '"') : Quoting.outside.after word = .outside := by
  induction word with
  | nil => rfl
  | cons c word ih =>
    obtain ⟨quote, others⟩ := List.forall_mem_cons.mp quiet
    have same : Quoting.next .outside c = .outside := if_neg quote
    rw [Quoting.after, List.foldl_cons, same]
    exact ih others

theorem ne_concat {a : Char} {cs : List Char} (other : a ∉ cs) (as : List Char) : cs ≠ as ++ [a] := by
  rintro rfl
  exact other (List.mem_append_right _ (List.mem_singleton_self a))

theorem append_ne_concat {a : Char} (front : List Char) {cs : List Char} (filled : cs ≠ [])
    (other : ∀ as, cs ≠ as ++ [a])
    (as : List Char) : front ++ cs ≠ as ++ [a] := by
  intro same
  rw [← List.dropLast_concat_getLast filled, ← List.append_assoc] at same
  obtain ⟨-, last⟩ := List.append_inj' same rfl
  apply other cs.dropLast
  rw [← last, List.dropLast_concat_getLast filled]

theorem beforeDoubled?_eq_some_iff {a : Char} {cs target : List Char} :
    beforeDoubled? a cs = some target ↔ cs = target ++ [a, a] := by
  constructor
  · intro found
    obtain ⟨rest, after, rfl⟩ := Option.map_eq_some_iff.mp found
    have split := congrArg List.reverse (Text.eq_append_of_after? after)
    rw [List.reverse_reverse, List.reverse_append] at split
    exact split
  · rintro rfl
    simp [beforeDoubled?, Text.after?]

theorem beforeDoubled?_append (a : Char) (target : List Char) : beforeDoubled? a (target ++ [a, a]) = some target :=
  beforeDoubled?_eq_some_iff.mpr rfl

theorem beforeDoubled?_of_ne {a : Char} {cs : List Char} (other : ∀ target, cs ≠ target ++ [a, a]) :
    beforeDoubled? a cs = none :=
  Option.eq_none_iff_forall_ne_some.mpr fun target found => other target (beforeDoubled?_eq_some_iff.mp found)

namespace Renames

variable {q : Quoting} {cs ds : List Char}

/-- Both texts are cut at the same place. -/
theorem cut (h : Renames brackets f q cs ds) {a : Char} (sign : a = '+' ∨ a = '-') :
    (cutOutside? a '=' q cs = none ∧ cutOutside? a '=' q ds = none) ∨
    ∃ target value target' value', cutOutside? a '=' q cs = some (target, value) ∧
      cutOutside? a '=' q ds = some (target', value') ∧ cs = target ++ a :: '=' :: value ∧ q.after target = .outside ∧
      Renames brackets f q target target' ∧ Renames brackets f .outside value value' := by
  have stop : isNumberPart a = false ∧ a ≠ '"' ∧ a ≠ '#' := by
    rcases sign with rfl | rfl <;> decide
  induction h with
  | nil => exact .inl ⟨rfl, rfl⟩
  | @char q c cs ds plain rest ih =>
    rw [cutOutside?, cutOutside?, ← rest.near.head?_eq]
    by_cases here : q = .outside ∧ c = a ∧ cs.head? = some '='
    · rw [if_pos here, if_pos here]
      obtain ⟨rfl, rfl, equal⟩ := here
      obtain ⟨value, rfl⟩ := List.head?_eq_some_iff.mp equal
      obtain ⟨value', rfl, related⟩ := rest.of_cons (by decide)
      have outside : (Quoting.next .outside c).next '=' = .outside := by
        rw [show Quoting.next .outside c = .outside from if_neg stop.2.1]
        rfl
      rw [outside] at related
      exact .inr ⟨[], value, [], value', rfl, rfl, rfl, rfl, .nil, related⟩
    · rw [if_neg here, if_neg here]
      obtain ⟨left, right⟩ | ⟨target, value, target', value', left, right, split, after, first, second⟩ := ih
      · rw [left, right]
        exact .inl ⟨rfl, rfl⟩
      · rw [left, right]
        refine .inr ⟨c :: target, value, c :: target', value', rfl, rfl, congrArg (c :: ·) split, after, ?_, second⟩
        refine .char (fun outside hash => ?_) first
        rw [← plain outside hash, split]
        exact labelFront?_congr (takeWhile_append_stop (fun d first => by cases first; exact stop.1) target).symm
  | @label word digits cs ds n spells bounded ends rest ih =>
    have quiet : ∀ word : List Char, (∀ c ∈ word, isNumberPart c = true) → ∀ c ∈ '#' :: word, c ≠ '"' ∧ c ≠ a :=
      fun word parts => List.forall_mem_cons.mpr ⟨⟨by decide, stop.2.2.symm⟩, fun c mem =>
        ⟨ne_of_isNumberPart (parts c mem) rfl, ne_of_isNumberPart (parts c mem) stop.1⟩⟩
    have left := quiet _ (isNumberPart_of_spells spells)
    have right := quiet (Nat.toDigits 10 (f (UInt32.ofNat n)).toNat) (isNumberPart_of_mem_toDigits _)
    rw [cutOutside?_append left, cutOutside?_append right]
    obtain ⟨left', right'⟩ | ⟨target, value, target', value', left', right', split, after, first, second⟩ := ih
    · rw [left', right']
      exact .inl ⟨rfl, rfl⟩
    · rw [left', right']
      refine .inr ⟨'#' :: word ++ target, value, _, value', rfl, rfl, by simp [split], ?_,
        .label spells bounded ?_ first, second⟩
      · rw [after_append, after_word fun c mem => (left c mem).1, after]
      · rw [← ends, split]
        exact numberFront_congr (takeWhile_append_stop (fun d first => by cases first; exact stop.1) target).symm

/-- A text may go on after one that it differs from in labels only. -/
theorem append {as bs : List Char} (h : Renames brackets f q cs ds) (more : Renames brackets f (q.after cs) as bs)
    (stop : ∀ c ∈ as.head?, isNumberPart c = false) : Renames brackets f q (cs ++ as) (ds ++ bs) := by
  induction h with
  | nil => exact more
  | @char q c cs ds plain rest ih =>
    refine .char (fun outside hash => ?_) (ih more)
    rw [← plain outside hash]
    exact labelFront?_congr (takeWhile_append_stop stop cs)
  | @label word digits cs ds n spells bounded ends rest ih =>
    have quiet : ∀ c ∈ '#' :: word, c ≠ '"' :=
      List.forall_mem_cons.mpr ⟨by decide, fun c mem => ne_of_isNumberPart (isNumberPart_of_spells spells c mem) rfl⟩
    rw [after_append, after_word quiet] at more
    rw [List.append_assoc, List.append_assoc]
    refine .label spells bounded ?_ (ih more)
    rw [← ends]
    exact numberFront_congr (takeWhile_append_stop stop cs)

/-- A sign at the end stands in both texts or in neither. -/
theorem concat (h : Renames brackets f q cs ds) {a : Char} (sign : a = '+' ∨ a = '-') :
    (∃ as bs, cs = as ++ [a] ∧ ds = bs ++ [a] ∧ Renames brackets f q as bs) ∨
    ((∀ as, cs ≠ as ++ [a]) ∧ ∀ bs, ds ≠ bs ++ [a]) := by
  have other : isNumberPart a = false ∧ a ≠ '#' := by
    rcases sign with rfl | rfl <;> decide
  have stop : ∀ d ∈ [a].head?, isNumberPart d = false := fun d first => by cases first; exact other.1
  induction h with
  | nil => exact .inr ⟨ne_concat List.not_mem_nil, ne_concat List.not_mem_nil⟩
  | @char q c cs ds plain rest ih =>
    by_cases none : cs = []
    · obtain rfl := rest.near.eq_nil_iff.mp none
      subst none
      by_cases same : c = a
      · exact .inl ⟨[], [], by rw [same]; rfl, by rw [same]; rfl, .nil⟩
      · have alone : a ∉ [c] := fun mem => same (List.mem_singleton.mp mem).symm
        exact .inr ⟨ne_concat alone, ne_concat alone⟩
    · obtain ⟨as, bs, rfl, rfl, related⟩ | ⟨left, right⟩ := ih
      · refine .inl ⟨c :: as, c :: bs, rfl, rfl, .char (fun outside hash => ?_) related⟩
        rw [← plain outside hash]
        exact labelFront?_congr (takeWhile_append_stop stop as).symm
      · exact .inr ⟨append_ne_concat [c] none left, append_ne_concat [c] (mt rest.near.eq_nil_iff.mpr none) right⟩
  | @label word digits cs ds n spells bounded ends rest ih =>
    have alone : ∀ word : List Char, (∀ c ∈ word, isNumberPart c = true) → a ∉ '#' :: word := by
      intro word parts mem
      obtain same | mem := List.mem_cons.mp mem
      · exact other.2 same
      · exact ne_of_isNumberPart (parts a mem) other.1 rfl
    by_cases none : cs = []
    · obtain rfl := rest.near.eq_nil_iff.mp none
      subst none
      rw [List.append_nil, List.append_nil]
      exact .inr ⟨ne_concat (alone word (isNumberPart_of_spells spells)),
        ne_concat (alone _ (isNumberPart_of_mem_toDigits _))⟩
    · obtain ⟨as, bs, rfl, rfl, related⟩ | ⟨left, right⟩ := ih
      · refine .inl ⟨'#' :: word ++ as, _, (List.append_assoc ..).symm, (List.append_assoc ..).symm,
          .label spells bounded ?_ related⟩
        rw [← ends]
        exact numberFront_congr (takeWhile_append_stop stop as).symm
      · exact .inr ⟨append_ne_concat _ none left, append_ne_concat _ (mt rest.near.eq_nil_iff.mpr none) right⟩

/-- A doubled sign at the end stands in both texts or in neither. -/
theorem doubled (h : Renames brackets f q cs ds) {a : Char} (sign : a = '+' ∨ a = '-') :
    (beforeDoubled? a cs = none ∧ beforeDoubled? a ds = none) ∨
    ∃ target target', beforeDoubled? a cs = some target ∧ beforeDoubled? a ds = some target' ∧
      Renames brackets f q target target' := by
  have split : ∀ target : List Char, target ++ [a, a] = target ++ [a] ++ [a] := fun target => by simp
  obtain ⟨as, bs, rfl, rfl, related⟩ | ⟨left, right⟩ := h.concat sign
  · obtain ⟨target, target', rfl, rfl, shorter⟩ | ⟨left, right⟩ := related.concat sign
    · rw [← split, ← split, beforeDoubled?_append, beforeDoubled?_append]
      exact .inr ⟨target, target', rfl, rfl, shorter⟩
    · have single : ∀ {cs : List Char}, (∀ as, cs ≠ as ++ [a]) → ∀ target, cs ++ [a] ≠ target ++ [a, a] := by
        intro cs other target same
        exact other target (List.append_cancel_right (same.trans (split target)))
      exact .inl ⟨beforeDoubled?_of_ne (single left), beforeDoubled?_of_ne (single right)⟩
  · exact .inl ⟨beforeDoubled?_of_ne fun target same => left _ (same.trans (split target)),
      beforeDoubled?_of_ne fun target same => right _ (same.trans (split target))⟩

end Renames

end EventScript.Source
