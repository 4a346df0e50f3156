import EventScript.Proofs.Run
import EventScript.Source.Reading

/-!
# Values that were read from tokens

Reading a value leaves some of the last tokens (`readExpr_spec`). In a value that was read, an object is
chosen by a flag or a variable, and every routine that it calls is one of the `callNames` of the tokens.
-/

namespace EventScript.Source

/-- The names in front of opening parentheses. -/
def callNames : List Token → List String
  | .ident name :: .sym .leftParen :: ts => name :: callNames ts
  | _ :: ts => callNames ts
  | [] => []

theorem callNames_cons_subset (t : Token) (ts : List Token) : callNames ts ⊆ callNames (t :: ts) := by
  rw [callNames.eq_def (t :: ts)]
  split
  · next same =>
    cases same
    exact List.subset_cons_self ..
  · next same =>
    cases same
    exact List.Subset.refl _
  · next same => cases same

theorem callNames_subset {rest ts : List Token} (h : rest <:+ ts) : callNames rest ⊆ callNames ts := by
  induction ts with
  | nil =>
    rw [List.suffix_nil.mp h]
    exact List.Subset.refl _
  | cons t ts ih =>
    rcases List.suffix_cons_iff.mp h with rfl | h
    · exact List.Subset.refl _
    · exact List.Subset.trans (ih h) (callNames_cons_subset t ts)

/-- Only a flag or a variable chooses the object. -/
def Object.Proper : Object → Prop
  | .builtin _ => True
  | .named _ => True
  | .dynamic (.flag _) => True
  | .dynamic (.var _) => True
  | .dynamic _ => False

section

variable (P : String → Prop)

mutual

/-- Only flags and variables choose objects, and the routines that are called satisfy `P`. -/
def Operand.Proper : Operand → Prop
  | .field object _ => object.Proper
  | .call routine arguments => P routine ∧ argumentsProper arguments
  | .objectCall _ object routine arguments => object.Proper ∧ P routine ∧ argumentsProper arguments
  | .int _ => True
  | .str _ => True
  | .bracket _ => True
  | .flag _ => True
  | .var _ => True

/-- Every operand is proper. -/
def Expr.Proper : Expr → Prop
  | .last operand => operand.Proper
  | .more operand _ rest => operand.Proper ∧ rest.Proper

/-- Every argument is proper. -/
def argumentsProper : List Expr → Prop
  | [] => True
  | e :: es => e.Proper ∧ argumentsProper es

end

end

theorem Operand.ofName_proper (P : String → Prop) (name : String) : (Operand.ofName name).Proper P := by
  rw [Operand.ofName]
  cases Name.slot? name <;> trivial

theorem Object.ofName_proper (name : String) : (Object.ofName name).Proper := by
  rw [Object.ofName]
  cases Builtin.ofName? name with
  | some which => trivial
  | none =>
    show Object.Proper (.dynamic (Operand.ofName name))
    rw [Operand.ofName]
    cases Name.slot? name <;> trivial

variable {P : String → Prop}

/-- What was read left the last tokens, and is proper if the names of calls satisfy `P`. -/
def ReadFrom {α : Type} (P : String → Prop) (proper : α → Prop) (ts : List Token) (r : α × List Token) : Prop :=
  r.2 <:+ ts ∧ ((∀ name ∈ callNames ts, P name) → proper r.1)

theorem names_of_suffix {rest ts : List Token} (h : rest <:+ ts) (names : ∀ name ∈ callNames ts, P name) :
    ∀ name ∈ callNames rest, P name :=
  fun name mem => names name (callNames_subset h mem)

mutual

theorem readOperand_spec : ∀ (n : Nat) (ts : List Token) (r : Operand × List Token),
    readOperand n ts = .ok r → ReadFrom P (Operand.Proper P) ts r
  | n + 1, t :: ts, r, h => by
    unfold readOperand at h
    split at h
    · cases h
      exact ⟨List.suffix_cons .., fun _ => trivial⟩
    · cases h
      exact ⟨(List.suffix_cons ..).trans (List.suffix_cons ..), fun _ => trivial⟩
    · cases h
    · next text ts =>
      obtain ⟨suffix, proper⟩ := readMember_spec n (.named text) ts r h
      have less : ts <:+ .str text :: .sym .dot :: ts := (List.suffix_cons (.sym .dot) ts).trans (List.suffix_cons _ _)
      exact ⟨suffix.trans less, fun names => proper (names_of_suffix less names) trivial⟩
    · cases h
      exact ⟨List.suffix_cons .., fun _ => trivial⟩
    · next name ts =>
      obtain ⟨⟨arguments, rest⟩, inner, same⟩ := bind_eq_ok.mp h
      cases same
      obtain ⟨suffix, proper⟩ := readArguments_spec n ts _ inner
      have less : ts <:+ .ident name :: .sym .leftParen :: ts :=
        (List.suffix_cons (.sym .leftParen) ts).trans (List.suffix_cons _ _)
      exact ⟨suffix.trans less, fun names => ⟨names name (List.mem_cons_self ..),
        proper (names_of_suffix less names)⟩⟩
    · next name ts =>
      obtain ⟨suffix, proper⟩ := readMember_spec n _ ts r h
      have less : ts <:+ .ident name :: .sym .dot :: ts :=
        (List.suffix_cons (.sym .dot) ts).trans (List.suffix_cons _ _)
      exact ⟨suffix.trans less, fun names => proper (names_of_suffix less names)
        (Object.ofName_proper name)⟩
    · cases h
      exact ⟨List.suffix_cons .., fun _ => Operand.ofName_proper P _⟩
    · cases h

theorem readMember_spec : ∀ (n : Nat) (object : Object) (ts : List Token) (r : Operand × List Token),
    readMember n object ts = .ok r → r.2 <:+ ts ∧
      ((∀ name ∈ callNames ts, P name) → object.Proper → r.1.Proper P)
  | n + 1, object, ts, r, h => by
    unfold readMember at h
    split at h
    · next member ts =>
      obtain ⟨⟨arguments, rest⟩, inner, same⟩ := bind_eq_ok.mp h
      cases same
      obtain ⟨suffix, proper⟩ := readArguments_spec n ts _ inner
      have less : ts <:+ .ident member :: .sym .leftParen :: ts :=
        (List.suffix_cons (.sym .leftParen) ts).trans (List.suffix_cons _ _)
      exact ⟨suffix.trans less, fun names objectProper => ⟨objectProper,
        names member (List.mem_cons_self ..), proper (names_of_suffix less names)⟩⟩
    · cases h
      exact ⟨List.suffix_cons .., fun _ objectProper => objectProper⟩
    · cases h

theorem readArguments_spec : ∀ (n : Nat) (ts : List Token) (r : List Expr × List Token),
    readArguments n ts = .ok r → ReadFrom P (argumentsProper P) ts r
  | n + 1, ts, r, h => by
    unfold readArguments at h
    split at h
    · cases h
      exact ⟨List.suffix_cons .., fun _ => trivial⟩
    · exact readFurther_spec n ts r h

theorem readFurther_spec : ∀ (n : Nat) (ts : List Token) (r : List Expr × List Token),
    readFurther n ts = .ok r → ReadFrom P (argumentsProper P) ts r
  | n + 1, ts, r, h => by
    obtain ⟨⟨e, rest⟩, first, h⟩ := bind_eq_ok.mp h
    obtain ⟨suffix, proper⟩ := readExpr_spec n ts _ first
    simp only at h
    split at h
    · cases h
      exact ⟨(List.suffix_cons ..).trans suffix, fun names => ⟨proper names, trivial⟩⟩
    · next rest =>
      obtain ⟨⟨es, last⟩, others, same⟩ := bind_eq_ok.mp h
      cases same
      obtain ⟨suffix', proper'⟩ := readFurther_spec n rest _ others
      have less : rest <:+ ts := (List.suffix_cons ..).trans suffix
      exact ⟨suffix'.trans less, fun names => ⟨proper names, proper' (names_of_suffix less names)⟩⟩
    · cases h

theorem readExpr_spec : ∀ (n : Nat) (ts : List Token) (r : Expr × List Token),
    readExpr n ts = .ok r → ReadFrom P (Expr.Proper P) ts r
  | n + 1, ts, r, h => by
    obtain ⟨⟨operand, rest⟩, first, h⟩ := bind_eq_ok.mp h
    obtain ⟨suffix, proper⟩ := readOperand_spec n ts _ first
    simp only at h
    split at h
    · next s rest =>
      split at h
      · obtain ⟨⟨e, last⟩, others, same⟩ := bind_eq_ok.mp h
        cases same
        obtain ⟨suffix', proper'⟩ := readExpr_spec n rest _ others
        have less : rest <:+ ts := (List.suffix_cons ..).trans suffix
        exact ⟨suffix'.trans less, fun names => ⟨proper names, proper' (names_of_suffix less names)⟩⟩
      · cases h
        exact ⟨suffix, proper⟩
    · cases h
      exact ⟨suffix, proper⟩

end

/-! ### The tokens between values -/

theorem readSymbol_eq {s : Symbol} {ts rest : List Token} (h : readSymbol s ts = .ok rest) : ts = .sym s :: rest := by
  unfold readSymbol at h
  split at h
  · split at h
    · next same =>
      cases h
      rw [same]
    · cases h
  · cases h

theorem readLabel_eq {l : UInt32} {ts rest : List Token} (h : readLabel ts = .ok (l, rest)) :
    ts = .label l :: rest := by
  unfold readLabel at h
  split at h
  · cases h
    rfl
  · cases h

theorem readEnd_eq {ts : List Token} (h : readEnd ts = .ok ()) : ts = [] := by
  cases ts with
  | nil => rfl
  | cons t ts => cases h

end EventScript.Source
