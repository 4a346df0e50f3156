import EventScript.Proofs.LabelTexts
import EventScript.Proofs.Run
import Mathlib.Data.List.Induction

/-!
# Lines with other label numbers

Two lines that differ in label numbers are cut into tokens side by side (`near_tokens`). Most often the tokens differ in
the labels only. But a shorthand such as `"#1++`, whose literal is not closed, is written out with its
target twice, and then a literal of one copy ends in the other: what is a label in one of them is text in the other.
So all that is said of the tokens (`NearTokens`) is that they are the same up to the first label, and that its number
is changed as it should be unless more than one token follows it. No statement has that much after its label.
-/

namespace EventScript

/-! ### Two outcomes -/

section

variable {ε δ α β α' β' : Type}

/-- Two outcomes are values that are related by `R`, or faults that are related by `K`. -/
inductive Alike (K : ε → δ → Prop) (R : α → β → Prop) : Except ε α → Except δ β → Prop
  | value {a : α} {b : β} (related : R a b) : Alike K R (.ok a) (.ok b)
  | fault {e : ε} {d : δ} (related : K e d) : Alike K R (.error e) (.error d)

theorem map_eq_ok {g : α → β} {x : Except ε α} {b : β} : x.map g = .ok b ↔ ∃ a, x = .ok a ∧ g a = b := by
  cases x with
  | error e =>
    constructor
    · intro h
      cases h
    · rintro ⟨a, ⟨⟩, -⟩
  | ok a =>
    constructor
    · exact fun h => ⟨a, rfl, Except.ok.inj h⟩
    · rintro ⟨a', ⟨⟩, same⟩
      exact congrArg Except.ok same

namespace Alike

variable {K : ε → δ → Prop} {R : α → β → Prop} {R' : α' → β' → Prop} {x : Except ε α} {y : Except δ β}

theorem bind {g : α → Except ε α'} {h : β → Except δ β'} (first : Alike K R x y)
    (rest : ∀ a b, x = .ok a → y = .ok b → R a b → Alike K R' (g a) (h b)) : Alike K R' (x >>= g) (y >>= h) := by
  cases first with
  | value related => exact rest _ _ rfl rfl related
  | fault related => exact .fault related

theorem map {g : α → α'} {h : β → β'} (first : Alike K R x y)
    (rest : ∀ a b, x = .ok a → y = .ok b → R a b → R' (g a) (h b)) : Alike K R' (x.map g) (y.map h) := by
  cases first with
  | value related => exact .value (rest _ _ rfl rfl related)
  | fault related => exact .fault related

theorem mapError {ε' δ' : Type} {K' : ε' → δ' → Prop} {g : ε → ε'} {h : δ → δ'} (first : Alike K R x y)
    (faults : ∀ e d, K e d → K' (g e) (h d)) : Alike K' R (x.mapError g) (y.mapError h) := by
  cases first with
  | value related => exact .value related
  | fault related => exact .fault (faults _ _ related)

theorem mono {R' : α → β → Prop} (h : Alike K R x y) (weaker : ∀ a b, x = .ok a → y = .ok b → R a b → R' a b) :
    Alike K R' x y := by
  cases h with
  | value related => exact .value (weaker _ _ rfl rfl related)
  | fault related => exact .fault related

theorem refl {K : ε → ε → Prop} (same : ∀ e, K e e) (x : Except ε α) : Alike K Eq x x := by
  cases x with
  | ok a => exact .value rfl
  | error e => exact .fault (same e)

end Alike

end

namespace Source

variable {catalog : Catalog} {f : UInt32 → UInt32} {strict : Bool} {q : Quoting} {cs ds : List Char}

/-! ### Names in angle brackets -/

/-- The digits that a name in angle brackets is replaced by. -/
def ordinalDigits? (catalog : Catalog) (name : List Char) : Option (List Char) :=
  match bracketText catalog name with
  | .ok text => if text.all Text.isDigit then some text else none
  | .error _ => none

/-- Where names in angle brackets have been replaced, none stands for digits any more. -/
def noDigits? (_ : List Char) : Option (List Char) := none

theorem ordinalDigits?_eq_some {name digits : List Char} :
    ordinalDigits? catalog name = some digits ↔
      bracketText catalog name = .ok digits ∧ digits.all Text.isDigit = true := by
  rw [ordinalDigits?]
  cases bracketText catalog name with
  | error e => simp
  | ok text =>
    by_cases all : text.all Text.isDigit = true
    · simp only [all, if_true, Option.some.injEq, Except.ok.injEq]
      constructor
      · rintro rfl
        exact ⟨rfl, all⟩
      · exact fun h => h.1
    · simp only [all, Except.ok.injEq]
      refine ⟨fun h => ?_, ?_⟩
      · simp at h
      · rintro ⟨rfl, digits⟩
        exact absurd digits all

/-- A name is replaced by digits, or it is the marker and stays. -/
theorem bracketText_cases {name text : List Char} (h : bracketText catalog name = .ok text) :
    text.all Text.isDigit = true ∨ text = '<' :: name ++ ['>'] := by
  rw [bracketText] at h
  split at h
  · exact .inr (Except.ok.inj h).symm
  · split at h
    · cases h
      rw [Text.toList_decimal]
      exact .inl (Text.all_isDigit_toDigits _)
    · cases h

theorem substitute_name {name : List Char} (ident : Name.isIdentifier name = true) (cs : List Char) :
    substitute catalog .outside 0 ('<' :: name ++ '>' :: cs) =
      bracketText catalog name >>= fun text => (substitute catalog .outside 0 cs).map (text ++ ·) := by
  have skip : substitute catalog .outside (name.length + 1) (name ++ '>' :: cs) = substitute catalog .outside 0 cs := by
    rw [← substitute_skip .outside (name ++ ['>']) cs, List.length_append, List.append_assoc]
    rfl
  rw [List.cons_append, substitute, if_pos rfl]
  simp only [bracketName?_name ident, skip]
  rfl

theorem all_isDigit_of_spells {word digits : List Char} (h : Spells (ordinalDigits? catalog) word digits) :
    digits.all Text.isDigit = true := by
  induction h with
  | nil => rfl
  | digit digit _ ih => rw [List.all_cons, digit, ih]; rfl
  | name _ known _ ih => rw [List.all_append, (ordinalDigits?_eq_some.mp known).2, ih]; rfl

/-- What spells digits is replaced by them. -/
theorem substitute_spells {word digits : List Char} (h : Spells (ordinalDigits? catalog) word digits) (cs : List Char) :
    substitute catalog .outside 0 (word ++ cs) = (substitute catalog .outside 0 cs).map (digits ++ ·) := by
  induction h with
  | nil =>
    rw [List.nil_append]
    cases substitute catalog .outside 0 cs <;> rfl
  | @digit c word digits digit _ ih =>
    have part := Name.isPart_of_isDigit digit
    have same : Quoting.next .outside c = .outside := if_neg (ne_of_isPart part rfl)
    rw [List.cons_append, substitute_keep fun _ => bracketName?_of_ne (ne_of_isPart part rfl) _, same, ih, keep]
    cases substitute catalog .outside 0 cs <;> rfl
  | name ident known _ ih =>
    rw [List.append_assoc, List.cons_append (a := '>'), substitute_name ident, (ordinalDigits?_eq_some.mp known).1,
      ok_bind, ih]
    cases substitute catalog .outside 0 cs with
    | error e => rfl
    | ok xs => exact congrArg Except.ok (List.append_assoc ..).symm

/-- Where no number begins, no digit is put at the front. -/
theorem takeWhile_of_ends {xs : List Char} (ends : numberFront (ordinalDigits? catalog) 0 cs = ([], []))
    (h : substitute catalog .outside 0 cs = .ok xs) : xs.takeWhile Text.isDigit = [] := by
  cases cs with
  | nil =>
    cases h
    rfl
  | cons c cs =>
    have digit : ¬Text.isDigit c = true := by
      intro digit
      rw [numberFront, if_pos digit] at ends
      cases ends
    cases found : bracketName? c cs with
    | none =>
      rw [substitute_keep fun _ => found, keep] at h
      obtain ⟨ys, -, rfl⟩ := map_eq_ok.mp h
      exact List.takeWhile_cons_of_neg digit
    | some name =>
      obtain ⟨rfl, ident, rest, rfl⟩ := bracketName?_eq_some found
      rw [← List.cons_append, substitute_name ident] at h
      obtain ⟨text, replaced, h⟩ := bind_eq_ok.mp h
      obtain all | rfl := bracketText_cases replaced
      · rw [← List.cons_append, numberFront_name ident (ordinalDigits?_eq_some.mpr ⟨replaced, all⟩)] at ends
        cases ends
      · obtain ⟨ys, -, rfl⟩ := map_eq_ok.mp h
        rfl

/-- The digits at the front of a text are those that its number is replaced by. -/
theorem takeWhile_of_substitute {xs : List Char} (h : substitute catalog .outside 0 cs = .ok xs) :
    xs.takeWhile Text.isDigit = (numberFront (ordinalDigits? catalog) 0 cs).2 := by
  obtain ⟨word, digits, rest, rfl, front, spells, ends⟩ := @exists_numberFront (ordinalDigits? catalog) cs
  rw [substitute_spells spells] at h
  obtain ⟨ys, more, rfl⟩ := map_eq_ok.mp h
  rw [front, List.takeWhile_append_of_pos (List.all_eq_true.mp (all_isDigit_of_spells spells)), takeWhile_of_ends ends more,
    List.append_nil]

theorem numberFront_noDigits (cs : List Char) :
    numberFront noDigits? 0 cs = (cs.takeWhile Text.isDigit, cs.takeWhile Text.isDigit) := by
  induction cs with
  | nil => rfl
  | cons c cs ih =>
    rw [numberFront, ih]
    by_cases digit : Text.isDigit c = true
    · rw [if_pos digit, List.takeWhile_cons_of_pos digit]
    · rw [if_neg digit, List.takeWhile_cons_of_neg digit]
      cases bracketName? c cs <;> rfl

theorem eq_of_spells {word digits : List Char} (h : Spells noDigits? word digits) : word = digits := by
  induction h with
  | nil => rfl
  | digit _ _ ih => rw [ih]
  | name _ known _ _ => cases known

namespace Near

variable {brackets : List Char → Option (List Char)}

/-- What has no label and no quote may stand in front of both texts. -/
theorem prepend {word : List Char} (quiet : ∀ c ∈ word, c ≠ '"' ∧ c ≠ '#') (h : Near brackets f strict .outside cs ds) :
    Near brackets f strict .outside (word ++ cs) (word ++ ds) := by
  induction word with
  | nil => exact h
  | cons c word ih =>
    obtain ⟨⟨quote, hash⟩, others⟩ := List.forall_mem_cons.mp quiet
    refine .char (fun _ _ same => absurd same hash) ?_
    rw [show Quoting.next .outside c = .outside from if_neg quote]
    exact ih others

/-- A character that is no `#` stands in both texts. -/
theorem of_cons {c : Char} (h : Near brackets f strict q (c :: cs) ds) (other : c ≠ '#') :
    ∃ ds', ds = c :: ds' ∧ Near brackets f strict (q.next c) cs ds' := by
  generalize whole : c :: cs = text at h
  cases h with
  | nil => cases whole
  | char _ rest =>
    cases whole
    exact ⟨_, rfl, rest⟩
  | label =>
    cases whole
    exact absurd rfl other
  | quoted =>
    cases whole
    exact absurd rfl other

/-- What has no label and no quote at the front of one text is at the front of the other. -/
theorem of_append {word : List Char} (quiet : ∀ c ∈ word, c ≠ '"' ∧ c ≠ '#')
    (h : Near brackets f strict .outside (word ++ cs) ds) :
    ∃ ds', ds = word ++ ds' ∧ Near brackets f strict .outside cs ds' := by
  induction word generalizing ds with
  | nil => exact ⟨ds, rfl, h⟩
  | cons c word ih =>
    obtain ⟨⟨quote, hash⟩, others⟩ := List.forall_mem_cons.mp quiet
    obtain ⟨ds', rfl, rest⟩ := of_cons h hash
    rw [show Quoting.next .outside c = .outside from if_neg quote] at rest
    obtain ⟨ds', rfl, related⟩ := ih others rest
    exact ⟨ds', rfl, related⟩

/-- What follows a name in angle brackets is near, too. -/
theorem of_name {name : List Char} (ident : Name.isIdentifier name = true)
    (h : Near brackets f strict .outside (name ++ '>' :: cs) (name ++ '>' :: ds)) :
    Near brackets f strict .outside cs ds := by
  have quiet : ∀ c ∈ name ++ ['>'], c ≠ '"' ∧ c ≠ '#' := by
    refine List.forall_mem_append.mpr ⟨fun c mem => ?_, List.forall_mem_singleton.mpr (by decide)⟩
    have part := Name.isPart_of_mem_identifier ident c mem
    exact ⟨ne_of_isPart part rfl, ne_of_isPart part rfl⟩
  have whole : ∀ more : List Char, name ++ '>' :: more = name ++ ['>'] ++ more := fun more => by simp
  rw [whole cs, whole ds] at h
  obtain ⟨ds', split, related⟩ := of_append quiet h
  rwa [List.append_cancel_left split]

end Near

/-- Inside a literal names in angle brackets stay. -/
theorem substitute_inside {word : List Char} (parts : ∀ c ∈ word, isNumberPart c = true) (cs : List Char) :
    substitute catalog .inside 0 (word ++ cs) = (substitute catalog .inside 0 cs).map (word ++ ·) := by
  have inside : Quoting.inside ≠ .outside := by decide
  induction word with
  | nil =>
    rw [List.nil_append]
    cases substitute catalog .inside 0 cs <;> rfl
  | cons c word ih =>
    obtain ⟨part, others⟩ := List.forall_mem_cons.mp parts
    have same : Quoting.next .inside c = .inside := by
      simp [Quoting.next, ne_of_isNumberPart part (d := '\\') rfl, ne_of_isNumberPart part (d := '"') rfl]
    rw [List.cons_append, substitute_keep fun outside => absurd outside inside, same, ih others, keep]
    cases substitute catalog .inside 0 cs <;> rfl

/-- Digits after which no digit stands are a label. -/
theorem near_label {number : UInt32} {digits xs ys : List Char} {n : Nat} (all : digits.all Text.isDigit = true)
    (bounded : Text.boundedNumeral? maxLabel digits = some n) (ends : xs.takeWhile Text.isDigit = [])
    (named : strict = true → number = f (UInt32.ofNat n)) (rest : Near noDigits? f false .outside xs ys) :
    Near noDigits? f strict .outside ('#' :: digits ++ xs) ('#' :: Nat.toDigits 10 number.toNat ++ ys) :=
  .label (spells_of_all all) bounded (by rw [numberFront_noDigits, ends]) named rest

theorem quiet_of_bracketText {name text : List Char} (ident : Name.isIdentifier name = true)
    (h : bracketText catalog name = .ok text) : ∀ c ∈ text, c ≠ '"' ∧ c ≠ '#' := by
  have part : ∀ c, Name.isPart c = true → c ≠ '"' ∧ c ≠ '#' :=
    fun c part => ⟨ne_of_isPart part rfl, ne_of_isPart part rfl⟩
  obtain all | rfl := bracketText_cases h
  · exact fun c mem => part c (Name.isPart_of_isDigit (List.all_eq_true.mp all c mem))
  · refine List.forall_mem_append.mpr ⟨List.forall_mem_cons.mpr ⟨by decide, fun c mem => ?_⟩,
      List.forall_mem_singleton.mpr (by decide)⟩
    exact part c (Name.isPart_of_mem_identifier ident c mem)

/-- Names in angle brackets are replaced in both texts, or the same name is unknown. -/
theorem near_substitute {strict : Bool} {q : Quoting} {cs ds : List Char}
    (h : Near (ordinalDigits? catalog) f strict q cs ds) :
    Alike Eq (Near noDigits? f strict q) (substitute catalog q 0 cs) (substitute catalog q 0 ds) := by
  cases h with
  | nil => exact .value .nil
  | @char _ _ c cs ds plain rest =>
    have same : bracketName? c ds = bracketName? c cs := by
      rw [← bracketName?_takeWhile c ds, ← rest.takeWhile_eq rfl, bracketName?_takeWhile]
    by_cases found : q = .outside ∧ (bracketName? c cs).isSome
    · obtain ⟨rfl, found⟩ := found
      obtain ⟨name, found⟩ := Option.isSome_iff_exists.mp found
      rw [found] at same
      obtain ⟨rfl, ident, more, rfl⟩ := bracketName?_eq_some found
      obtain ⟨-, -, more', rfl⟩ := bracketName?_eq_some same
      rw [← List.cons_append, ← List.cons_append, substitute_name ident, substitute_name ident]
      refine (Alike.refl (fun _ => rfl) (bracketText catalog name)).bind fun text _ replaced _ same => ?_
      subst same
      exact (near_substitute (rest.of_name ident)).map fun xs ys _ _ related =>
        related.prepend (quiet_of_bracketText ident replaced)
    · have none : q = .outside → bracketName? c cs = none := by simpa using found
      rw [substitute_keep none, substitute_keep fun outside => same.trans (none outside)]
      refine (near_substitute rest).map fun xs ys made _ related => .char (fun strict outside hash => ?_) related
      subst outside hash
      have digits := takeWhile_of_substitute made
      have none := plain strict rfl rfl
      rw [labelFront?, Option.map_eq_none_iff, ← digits] at none
      rw [labelFront?, numberFront_noDigits, none]
      rfl
  | @label _ word digits cs ds n number spells bounded ends named rest =>
    have decimal : Spells (ordinalDigits? catalog) (Nat.toDigits 10 number.toNat) (Nat.toDigits 10 number.toNat) :=
      spells_of_all (Text.all_isDigit_toDigits _)
    have number : Alike Eq (fun xs ys => Near noDigits? f strict .outside ('#' :: xs) ('#' :: ys))
        (substitute catalog .outside 0 (word ++ cs))
        (substitute catalog .outside 0 (Nat.toDigits 10 number.toNat ++ ds)) := by
      rw [substitute_spells spells, substitute_spells decimal]
      refine (near_substitute rest).map fun xs ys made _ related => ?_
      exact near_label (all_isDigit_of_spells spells) bounded (takeWhile_of_ends ends made) named related
    rw [List.cons_append, List.cons_append, substitute_keep fun _ => bracketName?_of_ne (by decide) _,
      substitute_keep fun _ => bracketName?_of_ne (by decide) _]
    exact number.map fun _ _ _ _ related => related
  | @quoted _ word word' cs ds inside parts parts' rest =>
    have next : q.next '#' = .inside := by
      cases q with
      | outside => exact absurd rfl inside
      | inside => rfl
      | escaped => rfl
    rw [List.cons_append, List.cons_append, substitute_keep fun outside => absurd outside inside,
      substitute_keep fun outside => absurd outside inside, next, substitute_inside parts, substitute_inside parts']
    have text : Alike Eq (fun xs ys => Near noDigits? f false q ('#' :: xs) ('#' :: ys))
        ((substitute catalog .inside 0 cs).map (word ++ ·)) ((substitute catalog .inside 0 ds).map (word' ++ ·)) :=
      (near_substitute rest).map fun xs ys _ _ related => .quoted inside parts parts' related
    exact text.map fun _ _ _ _ related => related
  termination_by cs.length
  decreasing_by
    · subst_vars
      simp only [List.length_append, List.length_cons]
      omega
    · simp
    · simp only [List.length_append, List.length_cons]
      omega
    · simp only [List.length_append, List.length_cons]
      omega

/-! ### Tokens -/

/-- The name that a fault finds unknown. -/
def Fault.unknown? : Fault → Option String
  | unknownSymbol name => some name
  | _ => none

/-- Two faults are of one kind: both find the same name unknown, or both find something else. -/
def SameKind (e d : Fault) : Prop := e.unknown? = d.unknown?

theorem SameKind.refl (e : Fault) : SameKind e e := rfl

section

variable (f : UInt32 → UInt32)

/-- Two lists of tokens are the same but for labels. If they have to be `strict`, nothing differs in front of the first
label, and its number is changed by `f` unless more than one token follows; literals may differ after it. -/
inductive NearTokens : (strict : Bool) → List Token → List Token → Prop
  | nil {strict : Bool} : NearTokens strict [] []
  | token {strict : Bool} {t : Token} {ts us : List Token} (plain : strict = true → ∀ number, t ≠ .label number)
    (rest : NearTokens strict ts us) : NearTokens strict (t :: ts) (t :: us)
  | label {strict : Bool} {m n : UInt32} {ts us : List Token} (named : strict = true → ts.length ≤ 1 → n = f m)
    (rest : NearTokens false ts us) : NearTokens strict (.label m :: ts) (.label n :: us)
  | literal {a b : String} {ts us : List Token} (rest : NearTokens false ts us) :
    NearTokens false (.str a :: ts) (.str b :: us)

end

/-- The text in front of the closing quote and what follows it, without a bound on its length. -/
def literalRest (cs : List Char) : Except Fault (List Char × List Char) := (literal cs).map fun p => (p.1, p.2.1)

theorem literalRest_escape (c : Char) (cs : List Char) : literalRest ('\\' :: c :: cs) =
    (literalRest cs).map fun p => ((if c = 'n' then '\n' else c) :: p.1, p.2) := by
  rw [literalRest, literal, literalRest]
  cases literal cs <;> rfl

theorem literalRest_char {c : Char} (quote : c ≠ '"') (slash : c ≠ '\\') (cs : List Char) :
    literalRest (c :: cs) = (literalRest cs).map fun p => (c :: p.1, p.2) := by
  rw [literalRest, literal, literalRest]
  · cases literal cs <;> rfl
  · exact quote
  · rintro rfl
    exact absurd rfl slash
  · rintro d ds rfl
    exact absurd rfl slash

theorem literalRest_append {word : List Char} (parts : ∀ c ∈ word, c ≠ '"' ∧ c ≠ '\\') (cs : List Char) :
    literalRest (word ++ cs) = (literalRest cs).map fun p => (word ++ p.1, p.2) := by
  induction word with
  | nil =>
    rw [List.nil_append]
    cases literalRest cs <;> rfl
  | cons c word ih =>
    obtain ⟨⟨quote, slash⟩, others⟩ := List.forall_mem_cons.mp parts
    rw [List.cons_append, literalRest_char quote slash, ih others]
    cases literalRest cs <;> rfl

/-- The texts of two literals, and what follows them. -/
def NearRest (f : UInt32 → UInt32) (strict : Bool) (p r : List Char × List Char) : Prop :=
  (strict = true → p.1 = r.1) ∧ Near noDigits? f strict .outside p.2 r.2

/-- Both literals end at the same quote, or neither ends. -/
theorem near_literal (h : Near noDigits? f strict q cs ds) :
    (q = .inside → Alike SameKind (NearRest f strict) (literalRest cs) (literalRest ds)) ∧
    (q = .escaped → Alike SameKind (NearRest f strict) (literalRest ('\\' :: cs)) (literalRest ('\\' :: ds))) := by
  induction h with
  | nil => exact ⟨fun _ => .fault rfl, fun _ => .fault rfl⟩
  | @char strict q c cs ds plain rest ih =>
    constructor
    · rintro rfl
      by_cases slash : c = '\\'
      · subst slash
        exact ih.2 rfl
      by_cases quote : c = '"'
      · subst quote
        exact .value ⟨fun _ => rfl, rest⟩
      · have next : Quoting.next .inside c = .inside := by simp [Quoting.next, slash, quote]
        rw [literalRest_char quote slash, literalRest_char quote slash]
        exact (ih.1 next).map fun p r _ _ related => ⟨fun strict => congrArg (c :: ·) (related.1 strict), related.2⟩
    · rintro rfl
      rw [literalRest_escape, literalRest_escape]
      exact (ih.1 rfl).map fun p r _ _ related => ⟨fun strict => congrArg (_ :: ·) (related.1 strict), related.2⟩
  | label => exact ⟨fun inside => (by cases inside), fun escaped => (by cases escaped)⟩
  | @quoted q word word' cs ds inside parts parts' rest ih =>
    have quiet : ∀ word : List Char, (∀ c ∈ word, isNumberPart c = true) → ∀ c ∈ '#' :: word, c ≠ '"' ∧ c ≠ '\\' :=
      fun word parts => List.forall_mem_cons.mpr ⟨by decide, fun c mem =>
        ⟨ne_of_isNumberPart (parts c mem) rfl, ne_of_isNumberPart (parts c mem) rfl⟩⟩
    have escaped : ∀ cs, literalRest ('\\' :: '#' :: cs) = literalRest ('#' :: cs) := fun cs => by
      rw [literalRest_escape, literalRest_char (by decide) (by decide)]
      rfl
    rw [List.cons_append, List.cons_append, escaped, escaped, ← List.cons_append, ← List.cons_append,
      literalRest_append (quiet word parts), literalRest_append (quiet word' parts')]
    have text : Alike SameKind (NearRest f false) ((literalRest cs).map fun p => ('#' :: word ++ p.1, p.2))
        ((literalRest ds).map fun p => ('#' :: word' ++ p.1, p.2)) :=
      (ih.1 rfl).map fun _ _ _ _ related => ⟨fun strict => absurd strict Bool.false_ne_true, related.2⟩
    exact ⟨fun _ => text, fun _ => text⟩

/-- What begins with a character: a token or nothing, and what is left, without a bound on its length. -/
def stepRest (c : Char) (cs : List Char) : Except Fault (Option Token × List Char) :=
  (step c cs).map fun p => (p.1, p.2.1)

theorem tokens_cons (c : Char) (cs : List Char) :
    tokens (c :: cs) = stepRest c cs >>= fun p => (tokens p.2).map (p.1.toList ++ ·) := by
  rw [tokens, stepRest]
  cases step c cs with
  | error e => rfl
  | ok p =>
    obtain ⟨t, rest, fits⟩ := p
    show _ = (tokens rest).map (t.toList ++ ·)
    cases found : tokens rest with
    | error e =>
      simp only [found]
      rfl
    | ok ts =>
      simp only [found]
      rfl

theorem length_of_stepRest {c : Char} {p : Option Token × List Char} (h : stepRest c cs = .ok p) :
    p.2.length ≤ cs.length := by
  obtain ⟨r, -, rfl⟩ := map_eq_ok.mp h
  exact r.2.2

/-- A run of characters that stops at labels and quotes is the same in both texts, and what follows it is near. -/
theorem Near.span (h : Near noDigits? f strict q cs ds) (outside : q = .outside) {p : Char → Bool} (hash : p '#' = false)
    (quote : p '"' = false) : Near noDigits? f strict .outside (cs.dropWhile p) (ds.dropWhile p) := by
  induction h with
  | nil => exact .nil
  | @char strict q c cs ds plain rest ih =>
    subst outside
    rw [List.dropWhile_cons, List.dropWhile_cons]
    split
    · next inRun =>
      have other : c ≠ '"' := by
        rintro rfl
        exact Bool.false_ne_true (quote.symm.trans inRun)
      exact ih (if_neg other)
    · exact .char plain rest
  | label spells bounded ends named rest _ =>
    rw [List.cons_append, List.cons_append, List.dropWhile_cons_of_neg (by simp [hash]),
      List.dropWhile_cons_of_neg (by simp [hash])]
    exact .label spells bounded ends named rest
  | quoted inside => exact absurd outside inside

/-- The tokens at the fronts of two texts, and what follows them. -/
def NearStep (f : UInt32 → UInt32) (strict : Bool) (p r : Option Token × List Char) : Prop :=
  Near noDigits? f strict .outside p.2 r.2 ∧
  ∀ ts us, NearTokens f strict ts us → NearTokens f strict (p.1.toList ++ ts) (r.1.toList ++ us)

theorem nearStep_some {t : Token} (rest : Near noDigits? f strict .outside cs ds) (plain : ∀ number, t ≠ .label number) :
    NearStep f strict (some t, cs) (some t, ds) :=
  ⟨rest, fun _ _ tokens => .token (fun _ => plain) tokens⟩

theorem stepRest_quote (cs : List Char) :
    stepRest '"' cs = (literalRest cs).map fun p => (some (.str (String.ofList p.1)), p.2) := by
  rw [stepRest, step, if_neg (by decide), if_pos rfl, literalRest]
  cases literal cs <;> rfl

theorem stepRest_label {n : Nat} (found : Text.boundedNumeral? maxLabel (cs.takeWhile Text.isDigit) = some n) :
    stepRest '#' cs = .ok (some (.label (UInt32.ofNat n)), cs.dropWhile Text.isDigit) := by
  rw [stepRest, step, if_neg (by decide), if_neg (by decide), if_pos rfl]
  simp only [spanRest, found]
  rfl

theorem stepRest_badLabel (none : Text.boundedNumeral? maxLabel (cs.takeWhile Text.isDigit) = none) :
    stepRest '#' cs = .error (.badLabel (String.ofList ('#' :: cs))) := by
  rw [stepRest, step, if_neg (by decide), if_neg (by decide), if_pos rfl]
  simp only [spanRest, none]
  rfl

/-- The symbol that a text begins with, and what is left, without a bound on its length. -/
def symbolRest (c : Char) (cs : List Char) : Except Fault (Option Token × List Char) :=
  (symbolStep c cs).map fun p => (some p.1, p.2.1)

theorem stepRest_symbol {c : Char} (blank : ¬Text.isBlank c = true) (quote : c ≠ '"') (hash : c ≠ '#')
    (digit : ¬Text.isDigit c = true) (start : ¬Name.isStart c = true) (cs : List Char) :
    stepRest c cs = symbolRest c cs := by
  rw [stepRest, step, if_neg blank, if_neg quote, if_neg hash, if_neg digit, if_neg start, symbolRest]
  cases symbolStep c cs <;> rfl

theorem symbolRest_marker (rest : List Char) : symbolRest '<' (resultTail ++ rest) = .ok (some .result, rest) := by
  rw [symbolRest, symbolStep, if_pos ⟨rfl, by rw [Text.after?_append]; rfl⟩]
  exact congrArg (fun rest => Except.ok (some Token.result, rest)) List.drop_left

theorem symbolRest_equal {c : Char} {s : Symbol} (found : Symbol.withEqual? c = some s) (rest : List Char) :
    symbolRest c ('=' :: rest) = .ok (some (.sym s), rest) := by
  have marker : ¬(c = '<' ∧ (Text.after? resultTail ('=' :: rest)).isSome) := by
    rintro ⟨-, after⟩
    cases after
  rw [symbolRest, symbolStep, if_neg marker]
  simp only [found]
  rfl

/-- A text begins with a symbol of more than one character. -/
def Compound (c : Char) (cs : List Char) : Prop :=
  (c = '<' ∧ (Text.after? resultTail cs).isSome) ∨ ((Symbol.withEqual? c).isSome ∧ cs.head? = some '=')

theorem symbolStep_single {c : Char} (single : ¬Compound c cs) :
    (∃ s, Symbol.ofChar? c = some s ∧ symbolStep c cs = .ok (.sym s, ⟨cs, Nat.le_refl _⟩)) ∨
    (Symbol.ofChar? c = none ∧ symbolStep c cs = .error (.badCharacter c)) := by
  obtain ⟨marker, equal⟩ := not_or.mp single
  rw [symbolStep, if_neg marker]
  cases equals : Symbol.withEqual? c with
  | none =>
    cases Symbol.ofChar? c with
    | none => exact .inr ⟨rfl, rfl⟩
    | some s => exact .inl ⟨s, rfl, rfl⟩
  | some t =>
    cases cs with
    | nil =>
      cases Symbol.ofChar? c with
      | none => exact .inr ⟨rfl, rfl⟩
      | some s => exact .inl ⟨s, rfl, rfl⟩
    | cons d cs =>
      have other : d ≠ '=' := by
        rintro rfl
        exact equal ⟨by rw [equals]; rfl, rfl⟩
      cases Symbol.ofChar? c with
      | none => exact .inr ⟨rfl, by simp [other]⟩
      | some s => exact .inl ⟨s, rfl, by simp [other]⟩

theorem symbolRest_single {c : Char} (single : ¬Compound c cs) :
    (∃ s, Symbol.ofChar? c = some s ∧ symbolRest c cs = .ok (some (.sym s), cs)) ∨
    (Symbol.ofChar? c = none ∧ symbolRest c cs = .error (.badCharacter c)) := by
  rw [symbolRest]
  obtain ⟨s, found, read⟩ | ⟨none, read⟩ := symbolStep_single single
  · rw [read]
    exact .inl ⟨s, found, rfl⟩
  · rw [read]
    exact .inr ⟨none, rfl⟩

theorem isSome_after?_takeWhile {p : Char → Bool} {start : List Char} (all : start.all p = true) (cs : List Char) :
    (Text.after? start (cs.takeWhile p)).isSome = (Text.after? start cs).isSome := by
  induction start generalizing cs with
  | nil => rfl
  | cons a start ih =>
    rw [List.all_cons, Bool.and_eq_true] at all
    cases cs with
    | nil => rfl
    | cons c cs =>
      by_cases same : a = c
      · subst same
        rw [List.takeWhile_cons_of_pos all.1, Text.after?, Text.after?, if_pos rfl, if_pos rfl, ih all.2]
      · rw [List.takeWhile_cons, Text.after?, if_neg same]
        split
        · rw [Text.after?, if_neg same]
        · rfl

/-- Both texts begin with the same symbol, or with none. -/
theorem near_symbolRest (c : Char) (near : Near noDigits? f strict .outside cs ds) :
    Alike SameKind (NearStep f strict) (symbolRest c cs) (symbolRest c ds) := by
  have same : Compound c cs ↔ Compound c ds := by
    have marker : (Text.after? resultTail cs).isSome = (Text.after? resultTail ds).isSome := by
      rw [← isSome_after?_takeWhile (p := isNumberPart) (by decide), near.takeWhile_eq rfl,
        isSome_after?_takeWhile (by decide)]
    rw [Compound, Compound, marker, near.head?_eq]
  by_cases compound : Compound c cs
  · obtain ⟨rfl, marker⟩ | ⟨equal, head⟩ := compound
    · obtain ⟨rest, found⟩ := Option.isSome_iff_exists.mp marker
      rw [Text.eq_append_of_after? found] at near ⊢
      obtain ⟨rest', rfl, related⟩ := near.of_append (by simp [resultTail, resultMarker])
      rw [symbolRest_marker, symbolRest_marker]
      exact .value (nearStep_some related (by simp))
    · obtain ⟨s, found⟩ := Option.isSome_iff_exists.mp equal
      obtain ⟨rest, rfl⟩ := List.head?_eq_some_iff.mp head
      obtain ⟨rest', rfl, related⟩ := near.of_cons (by decide)
      rw [symbolRest_equal found, symbolRest_equal found]
      exact .value (nearStep_some related (by simp))
  · obtain ⟨s, found, left⟩ | ⟨none, left⟩ := symbolRest_single compound
    · obtain ⟨s', found', right⟩ | ⟨none', right⟩ := symbolRest_single (mt same.mpr compound)
      · cases found.symm.trans found'
        rw [left, right]
        exact .value (nearStep_some near (by simp))
      · cases found.symm.trans none'
    · obtain ⟨s', found', right⟩ | ⟨none', right⟩ := symbolRest_single (mt same.mpr compound)
      · cases none.symm.trans found'
      · rw [left, right]
        exact .fault rfl

/-- Both texts begin with the same token, or with literals, or with faults of one kind. -/
theorem near_step {c : Char} (plain : strict = true → c = '#' → labelFront? noDigits? cs = none)
    (rest : Near noDigits? f strict (Quoting.next .outside c) cs ds) :
    Alike SameKind (NearStep f strict) (stepRest c cs) (stepRest c ds) := by
  by_cases quote : c = '"'
  · subst quote
    rw [stepRest_quote, stepRest_quote]
    refine ((near_literal rest).1 rfl).map fun p r _ _ related => ⟨related.2, fun ts us tokens => ?_⟩
    cases strict with
    | true =>
      rw [related.1 rfl]
      exact .token (fun _ _ => by simp) tokens
    | false => exact .literal tokens
  have near : Near noDigits? f strict .outside cs ds := by
    rwa [show Quoting.next .outside c = .outside from if_neg quote] at rest
  have digits : cs.takeWhile Text.isDigit = ds.takeWhile Text.isDigit := near.takeWhile_eq rfl
  have further := near.span rfl (p := Text.isDigit) rfl rfl
  by_cases blank : Text.isBlank c = true
  · simp only [stepRest, step, blank, if_true]
    exact .value ⟨near, fun _ _ tokens => tokens⟩
  by_cases hash : c = '#'
  · subst hash
    cases found : Text.boundedNumeral? maxLabel (cs.takeWhile Text.isDigit) with
    | none =>
      rw [stepRest_badLabel found, stepRest_badLabel (digits ▸ found)]
      exact .fault rfl
    | some n =>
      rw [stepRest_label found, stepRest_label (digits ▸ found)]
      refine .value ⟨further, fun ts us tokens => .token (fun strict => ?_) tokens⟩
      have none := plain strict rfl
      rw [labelFront?, numberFront_noDigits, found] at none
      cases none
  by_cases digit : Text.isDigit c = true
  · simp only [stepRest, step, blank, quote, hash, digit, spanRest, digits, if_true, if_false]
    cases Text.boundedNumeral? maxInteger (c :: ds.takeWhile Text.isDigit) with
    | none => exact .fault rfl
    | some n => exact .value (nearStep_some further (by simp))
  by_cases start : Name.isStart c = true
  · have parts : cs.takeWhile Name.isPart = ds.takeWhile Name.isPart := near.takeWhile_eq rfl
    simp only [stepRest, step, blank, quote, hash, digit, start, spanRest, parts, if_true, if_false]
    exact .value (nearStep_some (near.span rfl rfl rfl) (by simp))
  · rw [stepRest_symbol blank quote hash digit start, stepRest_symbol blank quote hash digit start]
    exact near_symbolRest c near

theorem all_of_boundedNumeral? {most n : Nat} {digits : List Char} (h : Text.boundedNumeral? most digits = some n) :
    digits.all Text.isDigit = true := by
  rw [Text.boundedNumeral?, Text.numeral?] at h
  split at h
  · cases h
  · next filled =>
    simp only [Bool.or_eq_true, Bool.not_eq_true', not_or, Bool.not_eq_false] at filled
    exact filled.2

/-- A `#` with digits after it is a label. -/
theorem stepRest_number {digits : List Char} {n : Nat} (bounded : Text.boundedNumeral? maxLabel digits = some n)
    (ends : cs.takeWhile Text.isDigit = []) :
    stepRest '#' (digits ++ cs) = .ok (some (.label (UInt32.ofNat n)), cs) := by
  have all := List.all_eq_true.mp (all_of_boundedNumeral? bounded)
  have front : (digits ++ cs).takeWhile Text.isDigit = digits := by
    rw [List.takeWhile_append_of_pos all, ends, List.append_nil]
  have rest : (digits ++ cs).dropWhile Text.isDigit = cs := by
    rw [List.dropWhile_append_of_pos all]
    have whole : cs.takeWhile Text.isDigit ++ cs.dropWhile Text.isDigit = cs := List.takeWhile_append_dropWhile
    rwa [ends] at whole
  rw [stepRest_label (by rw [front]; exact bounded), rest]

/-- Both texts are cut into tokens that differ in labels only, or into none. -/
theorem near_tokens (h : Near noDigits? f strict .outside cs ds) :
    Alike SameKind (NearTokens f strict) (tokens cs) (tokens ds) := by
  induction length : cs.length using Nat.strongRecOn generalizing strict cs ds with
  | ind _ ih =>
    subst length
    generalize outside : Quoting.outside = q at h
    cases h with
    | nil =>
      rw [tokens]
      exact .value .nil
    | @char _ _ c cs ds plain rest =>
      subst outside
      rw [tokens_cons, tokens_cons]
      refine (near_step (fun strict => plain strict rfl) rest).bind fun p r read _ related => ?_
      have shorter : p.2.length < (c :: cs).length := Nat.lt_succ_of_le (length_of_stepRest read)
      exact (ih _ shorter related.1 rfl).map fun ts us _ _ tokens => related.2 ts us tokens
    | @label _ word digits cs ds n number spells bounded ends named rest =>
      cases eq_of_spells spells
      have stop : cs.takeWhile Text.isDigit = [] := by
        rw [numberFront_noDigits] at ends
        exact (Prod.mk.inj ends).1
      have right : stepRest '#' (Nat.toDigits 10 number.toNat ++ ds) = .ok (some (.label number), ds) := by
        have bound : number.toNat ≤ maxLabel := Nat.le_of_lt_succ number.toNat_lt
        rw [stepRest_number (Text.boundedNumeral?_toDigits bound) (by rw [← rest.takeWhile_eq rfl, stop]),
          UInt32.ofNat_toNat]
      have shorter : cs.length < ('#' :: word ++ cs).length := by
        simp only [List.length_append, List.length_cons]
        omega
      rw [List.cons_append, List.cons_append, tokens_cons, tokens_cons, stepRest_number bounded stop, right]
      exact (ih _ shorter rest rfl).map fun ts us _ _ tokens => .label (fun strict _ => named strict) tokens
    | quoted inside => exact absurd outside.symm inside

/-! ### Lines that end with one more -/

/-- What `x++` and `x--` end with when they are written out. -/
def oneMore (sign : Char) : List Char := [' ', sign, ' ', '1']

variable {sign : Char}

theorem quiet_oneMore (signed : sign = '+' ∨ sign = '-') :
    ∀ c ∈ oneMore sign, c ≠ '"' ∧ c ≠ '\\' ∧ c ≠ '<' ∧ c ≠ '>' := by
  rcases signed with rfl | rfl <;> simp [oneMore]

/-- Two ways to cut a text: what is not in the second half of one cut ends in the first half. -/
theorem exists_of_append_eq {a : Char} {front rest cs tail : List Char} (split : cs ++ tail = front ++ [a] ++ rest)
    (other : a ∉ tail) : ∃ more, cs = front ++ [a] ++ more ∧ rest = more ++ tail := by
  obtain ⟨more, whole, rfl⟩ | ⟨more, whole, rfl⟩ := List.append_eq_append_iff.mp split
  · cases more using List.reverseRecOn with
    | nil => exact ⟨[], by simpa using whole.symm, rfl⟩
    | append_singleton more b =>
      rw [← List.append_assoc] at whole
      obtain ⟨-, same⟩ := List.append_inj' whole rfl
      cases same
      exact absurd (by simp) other
  · exact ⟨more, whole, rfl⟩

theorem substitute_oneMore (signed : sign = '+' ∨ sign = '-') {xs : List Char}
    (h : substitute catalog q 0 (cs ++ oneMore sign) = .ok xs) : ∃ ys, xs = ys ++ oneMore sign := by
  have quiet := quiet_oneMore signed
  induction length : cs.length using Nat.strongRecOn generalizing q cs xs with
  | ind _ ih =>
    subst length
    cases cs with
    | nil =>
      have made : substitute catalog q 0 ([] ++ oneMore sign) = .ok (oneMore sign) := by
        rcases signed with rfl | rfl <;> cases q <;> rfl
      exact ⟨[], (Except.ok.inj (made.symm.trans h)).symm⟩
    | cons c cs =>
      by_cases found : q = .outside ∧ (bracketName? c (cs ++ oneMore sign)).isSome
      · obtain ⟨rfl, found⟩ := found
        obtain ⟨name, found⟩ := Option.isSome_iff_exists.mp found
        obtain ⟨rfl, ident, rest, split⟩ := bracketName?_eq_some found
        have closed : cs ++ oneMore sign = name ++ ['>'] ++ rest := by rw [split, List.append_assoc]; rfl
        obtain ⟨more, rfl, rfl⟩ := exists_of_append_eq closed fun mem => (quiet '>' mem).2.2.2 rfl
        have whole : '<' :: (name ++ ['>'] ++ more) ++ oneMore sign = '<' :: name ++ '>' :: (more ++ oneMore sign) := by
          simp
        rw [whole, substitute_name ident] at h
        obtain ⟨text, -, h⟩ := bind_eq_ok.mp h
        obtain ⟨zs, made, rfl⟩ := map_eq_ok.mp h
        obtain ⟨ys, rfl⟩ := ih more.length (by simp; omega) made rfl
        exact ⟨text ++ ys, (List.append_assoc ..).symm⟩
      · rw [List.cons_append, substitute_keep (by simpa using found)] at h
        obtain ⟨zs, made, rfl⟩ := map_eq_ok.mp h
        obtain ⟨ys, rfl⟩ := ih cs.length (by simp) made rfl
        exact ⟨c :: ys, rfl⟩

theorem literalRest_oneMore (signed : sign = '+' ∨ sign = '-') {cs : List Char} {p : List Char × List Char}
    (h : literalRest (cs ++ oneMore sign) = .ok p) : ∃ ys, p.2 = ys ++ oneMore sign := by
  induction length : cs.length using Nat.strongRecOn generalizing cs p with
  | ind _ ih =>
    subst length
    cases cs with
    | nil => rcases signed with rfl | rfl <;> cases h
    | cons c cs =>
      by_cases quote : c = '"'
      · subst quote
        cases h
        exact ⟨cs, rfl⟩
      by_cases slash : c = '\\'
      · subst slash
        cases cs with
        | nil => rcases signed with rfl | rfl <;> cases h
        | cons d cs =>
          rw [List.cons_append, List.cons_append, literalRest_escape] at h
          obtain ⟨r, read, rfl⟩ := map_eq_ok.mp h
          have rest := ih cs.length (by simp only [List.length_cons]; omega) read rfl
          exact rest
      · rw [List.cons_append, literalRest_char quote slash] at h
        obtain ⟨r, read, rfl⟩ := map_eq_ok.mp h
        have rest := ih cs.length (by simp) read rfl
        exact rest

theorem dropWhile_oneMore {p : Char → Bool} (stop : p ' ' = false) (cs : List Char) :
    (cs ++ oneMore sign).dropWhile p = cs.dropWhile p ++ oneMore sign := by
  induction cs with
  | nil => exact List.dropWhile_cons_of_neg (by simp [stop])
  | cons c cs ih =>
    rw [List.cons_append, List.dropWhile_cons, List.dropWhile_cons, ih]
    split
    · rfl
    · rfl

theorem symbolRest_oneMore (signed : sign = '+' ∨ sign = '-') {c : Char} {p : Option Token × List Char}
    (h : symbolRest c (cs ++ oneMore sign) = .ok p) : ∃ ys, p.2 = ys ++ oneMore sign := by
  by_cases compound : Compound c (cs ++ oneMore sign)
  · obtain ⟨rfl, marker⟩ | ⟨equal, head⟩ := compound
    · obtain ⟨rest, found⟩ := Option.isSome_iff_exists.mp marker
      have split := Text.eq_append_of_after? found
      rw [split, symbolRest_marker] at h
      cases h
      obtain ⟨more, -, rfl⟩ := exists_of_append_eq split fun mem => (quiet_oneMore signed '>' mem).2.2.2 rfl
      exact ⟨more, rfl⟩
    · obtain ⟨s, found⟩ := Option.isSome_iff_exists.mp equal
      cases cs with
      | nil => cases head
      | cons d cs =>
        cases head
        rw [List.cons_append, symbolRest_equal found] at h
        cases h
        exact ⟨cs, rfl⟩
  · obtain ⟨s, -, read⟩ | ⟨-, read⟩ := symbolRest_single compound
    · rw [read] at h
      cases h
      exact ⟨cs, rfl⟩
    · rw [read] at h
      cases h

/-- No token takes a part of the end. -/
theorem stepRest_oneMore (signed : sign = '+' ∨ sign = '-') {c : Char} {p : Option Token × List Char}
    (h : stepRest c (cs ++ oneMore sign) = .ok p) : ∃ ys, p.2 = ys ++ oneMore sign := by
  by_cases quote : c = '"'
  · subst quote
    rw [stepRest_quote] at h
    obtain ⟨r, read, rfl⟩ := map_eq_ok.mp h
    exact literalRest_oneMore signed read
  by_cases blank : Text.isBlank c = true
  · simp only [stepRest, step, blank, if_true] at h
    cases h
    exact ⟨cs, rfl⟩
  by_cases hash : c = '#'
  · subst hash
    cases found : Text.boundedNumeral? maxLabel ((cs ++ oneMore sign).takeWhile Text.isDigit) with
    | none =>
      rw [stepRest_badLabel found] at h
      cases h
    | some n =>
      rw [stepRest_label found] at h
      cases h
      exact ⟨_, dropWhile_oneMore rfl cs⟩
  by_cases digit : Text.isDigit c = true
  · simp only [stepRest, step, blank, quote, hash, digit, spanRest, if_true, if_false] at h
    cases found : Text.boundedNumeral? maxInteger (c :: (cs ++ oneMore sign).takeWhile Text.isDigit) with
    | none =>
      rw [found] at h
      cases h
    | some n =>
      rw [found] at h
      cases h
      exact ⟨_, dropWhile_oneMore rfl cs⟩
  by_cases start : Name.isStart c = true
  · simp only [stepRest, step, blank, quote, hash, digit, start, spanRest, if_true, if_false] at h
    cases h
    exact ⟨_, dropWhile_oneMore rfl cs⟩
  · rw [stepRest_symbol blank quote hash digit start] at h
    exact symbolRest_oneMore signed h

/-- The sign and the number are the last tokens. -/
theorem tokens_oneMore (signed : sign = '+' ∨ sign = '-') {ts : List Token} (h : tokens (cs ++ oneMore sign) = .ok ts) :
    ∃ us s, ts = us ++ [.sym s, .int 1] := by
  induction length : cs.length using Nat.strongRecOn generalizing cs ts with
  | ind _ ih =>
    subst length
    cases cs with
    | nil =>
      have one : tokens ([' '] ++ (Nat.toDigits 10 1 ++ [])) = .ok [.int 1] :=
        tokens_space (tokens_numeral (by decide) (by simp) (by rw [tokens]))
      obtain ⟨s, found⟩ : ∃ s, Symbol.ofChar? sign = some s := by
        rcases signed with rfl | rfl
        · exact ⟨_, rfl⟩
        · exact ⟨_, rfl⟩
      have all : tokens (oneMore sign) = .ok [.sym s, .int 1] := by
        refine tokens_space (tokens_symbol found (fun less => ?_) (fun _ head => by cases head) one)
        rcases signed with rfl | rfl <;> cases less
      exact ⟨[], s, Except.ok.inj (h.symm.trans all)⟩
    | cons c cs =>
      rw [List.cons_append, tokens_cons] at h
      obtain ⟨p, read, h⟩ := bind_eq_ok.mp h
      obtain ⟨us, further, rfl⟩ := map_eq_ok.mp h
      obtain ⟨ys, rest⟩ := stepRest_oneMore signed read
      have fits := length_of_stepRest read
      rw [rest, List.length_append, List.length_append] at fits
      rw [rest] at further
      obtain ⟨vs, s, rfl⟩ := ih ys.length (by simp; omega) further rfl
      exact ⟨p.1.toList ++ vs, s, (List.append_assoc ..).symm⟩

theorem NearTokens.loose (f : UInt32 → UInt32) (ts : List Token) : NearTokens f false ts ts := by
  induction ts with
  | nil => exact .nil
  | cons t ts ih => exact .token (fun strict => absurd strict Bool.false_ne_true) ih

/-- Tokens that end so are not changed, whatever labels are among them. -/
theorem nearTokens_oneMore (f : UInt32 → UInt32) (s : Symbol) (us : List Token) :
    NearTokens f true (us ++ [.sym s, .int 1]) (us ++ [.sym s, .int 1]) := by
  induction us with
  | nil => exact .token (fun _ _ => by simp) (.token (fun _ _ => by simp) .nil)
  | cons t us ih =>
    cases t with
    | label number =>
      refine .label (fun _ few => ?_) (.loose f _)
      simp at few
    | _ => exact .token (fun _ _ => by simp) ih

end Source

end EventScript
