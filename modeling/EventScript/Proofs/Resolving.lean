import EventScript.Proofs.StatementText

/-!
# Code that assembly makes

Whatever the text, the code for one of its lines can be held by bytes and the text has words for it
(`readPiece_spec`). If no routine is called by a name that hides what its arguments stand for
(`KeepsKinds`), every argument is stored in the way its position asks for, which is what `Settled` says.
-/

namespace EventScript

namespace Code

/-- The operand is stored in the way that assembly stores one where such an argument, or none, is
expected. -/
def Settled : Option ArgumentKind × Operand → Prop
  | (kind, .literal _) => kind = none
  | (kind, .flexible _) => kind.isSome = true
  | (kind, .string _) => kind ≠ some .dialogue
  | (_, .objectCall _ mode _ _) => mode = .function
  | _ => True

mutual

theorem Operand.Fits.mono {m n : Nat} (le : m ≤ n) : ∀ {o : Operand}, o.Fits m → o.Fits n
  | .flag _, _ => trivial
  | .var _, _ => trivial
  | .field _ _, h => Object.Fits.mono le h
  | .literal _, _ => trivial
  | .flexible _, _ => trivial
  | .string _, h => Nat.lt_of_lt_of_le h le
  | .call _ _, h => ⟨h.1, argumentsFit_mono le h.2⟩
  | .objectCall _ _ _ _, h => ⟨Object.Fits.mono le h.1, h.2.1, argumentsFit_mono le h.2.2⟩

theorem Object.Fits.mono {m n : Nat} (le : m ≤ n) : ∀ {o : Object}, o.Fits m → o.Fits n
  | .builtin _, _ => trivial
  | .named _, h => Nat.lt_of_lt_of_le h le
  | .dynamic _, h => Operand.Fits.mono le h

theorem argumentsFit_mono {m n : Nat} (le : m ≤ n) : ∀ {as : List Operand}, argumentsFit m as →
    argumentsFit n as
  | [], _ => trivial
  | _ :: _, h => ⟨Operand.Fits.mono le h.1, argumentsFit_mono le h.2⟩

end

theorem Formula.Fits.mono {m n : Nat} (le : m ≤ n) : ∀ {f : Formula}, f.Fits m → f.Fits n
  | .last _, h => Operand.Fits.mono le h
  | .more _ _ _, h => ⟨Operand.Fits.mono le h.1, Formula.Fits.mono le h.2⟩

theorem Condition.Fits.mono {m n : Nat} (le : m ≤ n) : ∀ {c : Condition}, c.Fits m → c.Fits n
  | .last _, h => ⟨Formula.Fits.mono le h.1, Formula.Fits.mono le h.2⟩
  | .more _ _ _, h =>
    ⟨⟨Formula.Fits.mono le h.1.1, Formula.Fits.mono le h.1.2⟩, Condition.Fits.mono le h.2⟩

theorem Guard.Fits.mono {m n : Nat} (le : m ≤ n) {g : Guard} (h : g.Fits m) : g.Fits n := by
  cases g with
  | condition c => exact Condition.Fits.mono le h
  | result value => trivial

/-- Bytes can hold the statement, whatever the address of its target is. -/
def Action.Holdable (strings : Nat) : Action → Prop
  | .call _ routine arguments => CallFits routine arguments.length ∧ argumentsFit strings arguments
  | .objectCall object _ routine arguments =>
    object.Fits strings ∧ CallFits routine arguments.length ∧ argumentsFit strings arguments
  | .assign place formula => place.operand.Fits strings ∧ formula.Fits strings
  | _ => True

theorem Action.Holdable.mono {m n : Nat} (le : m ≤ n) {a : Action} (h : a.Holdable m) : a.Holdable n := by
  cases a with
  | call mode routine arguments => exact ⟨h.1, argumentsFit_mono le h.2⟩
  | objectCall object mode routine arguments =>
    exact ⟨Object.Fits.mono le h.1, h.2.1, argumentsFit_mono le h.2.2⟩
  | assign place formula => exact ⟨Operand.Fits.mono le h.1, Formula.Fits.mono le h.2⟩
  | _ => trivial

end Code

/-- The arguments of a routine that is called by this name stand for what a listing takes them for. -/
def Catalog.KeepsKinds (catalog : Catalog) (name : String) : Prop :=
  ∀ ordinal, catalog.resolve .routine name = .ok ordinal → ∀ index, ArgumentKind.of? name index =
    (catalog.name? .routines ordinal).bind fun printed => ArgumentKind.of? printed index

namespace Assembly

open Code

/-- Code that came out of a text: bytes can hold it, there are words for it, and its parts are settled
if the names that satisfy `P` keep the kinds of arguments. -/
structure Resolved (catalog : Catalog) (P : String → Prop) (fits textual : Prop)
    (parts : List (Option ArgumentKind × Operand)) : Prop where
  fits : fits
  textual : textual
  settled : (∀ name, P name → catalog.KeepsKinds name) → ∀ part ∈ parts, Settled part

variable {names : Names} {P : String → Prop} {fits fits' textual textual' : Prop}
  {parts parts' : List (Option ArgumentKind × Operand)}

theorem Resolved.and (h : Resolved names.catalog P fits textual parts)
    (h' : Resolved names.catalog P fits' textual' parts') :
    Resolved names.catalog P (fits ∧ fits') (textual ∧ textual') (parts ++ parts') :=
  ⟨⟨h.fits, h'.fits⟩, ⟨h.textual, h'.textual⟩,
    fun keeps => List.forall_mem_append.mpr ⟨h.settled keeps, h'.settled keeps⟩⟩

theorem Resolved.imp (h : Resolved names.catalog P fits textual parts) (f : fits → fits') :
    Resolved names.catalog P fits' textual parts :=
  ⟨f h.fits, h.textual, h.settled⟩

theorem resolved_single (f : fits) (t : textual) {part : Option ArgumentKind × Operand}
    (settled : Settled part) : Resolved names.catalog P fits textual [part] :=
  ⟨f, t, fun _ => List.forall_mem_singleton.mpr settled⟩

theorem intern_spec {text : String} {s s' : List String} {i : Nat} (h : Yields (intern text) s i s') :
    s <+: s' ∧ i < s'.length := by
  rw [Yields, intern] at h
  split at h
  · next index found =>
    cases h
    obtain ⟨bound, -⟩ := List.idxOf?_eq_some_iff.mp found
    exact ⟨List.prefix_refl _, bound⟩
  · cases h
    exact ⟨List.prefix_append .., by simp⟩

theorem resolveNumber_spec {kind : Option ArgumentKind} {value : Int} {s s' : List String} {o : Operand}
    (h : Yields (resolveNumber kind value) s o s') :
    s <+: s' ∧ Resolved names.catalog P (o.Fits s'.length) o.Textual (o.parts names kind) := by
  obtain ⟨word, t, first, rest⟩ := yields_bind.mp h
  obtain ⟨-, rfl⟩ := yields_lift.mp first
  obtain ⟨rfl, rfl⟩ := yields_pure.mp rest
  refine ⟨List.prefix_refl _, ?_⟩
  cases kind with
  | none => exact resolved_single trivial trivial rfl
  | some kind => exact resolved_single trivial trivial rfl

theorem resolve_le {catalog : Catalog} {k : NameClass} {name : String} {n : Nat}
    (h : catalog.resolve k name = .ok n) : n ≤ k.most := by
  rw [Catalog.resolve] at h
  split at h
  · cases h
  · split at h
    · next bound =>
      cases h
      exact bound
    · cases h

theorem resolveRoutine_spec {catalog : Catalog} {name : String} {count : Nat} {s s' : List String}
    {r : UInt16} (h : Yields (resolveRoutine catalog name count) s r s') :
    s' = s ∧ CallFits r count ∧ catalog.resolve .routine name = .ok r.toNat := by
  obtain ⟨ordinal, t, first, rest⟩ := yields_bind.mp h
  obtain ⟨found, rfl⟩ := yields_lift.mp first
  have bound := resolve_le found
  rw [NameClass.most] at bound
  have back : (UInt16.ofNat ordinal).toNat = ordinal := by
    rw [UInt16.toNat_ofNat', Nat.mod_eq_of_lt (by omega)]
  by_cases zero : ordinal = 0
  · subst zero
    rw [if_pos rfl] at rest
    split at rest
    · next none_ =>
      obtain ⟨rfl, rfl⟩ := yields_pure.mp rest
      exact ⟨rfl, ⟨fun _ => none_, by omega⟩, found⟩
    · cases rest
  · rw [if_neg zero] at rest
    split at rest
    · next few =>
      have result : r = UInt16.ofNat ordinal ∧ s' = t := by
        cases routine : catalog.routine? ordinal with
        | none =>
          rw [routine] at rest
          exact yields_pure.mp rest
        | some declared =>
          rw [routine] at rest
          simp only at rest
          split at rest
          · exact yields_pure.mp rest
          · obtain ⟨_, _, ⟨⟩, last⟩ := yields_bind.mp rest
            exact yields_pure.mp last
      obtain ⟨rfl, rfl⟩ := result
      refine ⟨rfl, ⟨fun same => absurd ?_ zero, few⟩, by rw [back]; exact found⟩
      rw [← back, same]
      rfl
    · cases rest

theorem resolveName_spec {k : NameClass} {name : String} {n : Nat} {s s' : List String}
    (h : Yields (liftM (names.catalog.resolve k name) : Resolve Nat) s n s') : s' = s :=
  (yields_lift.mp h).2

theorem kind?_of_resolve {name : String} {r : UInt16} (found : names.catalog.resolve .routine name = .ok r.toNat)
    (keeps : names.catalog.KeepsKinds name) (index : Nat) :
    ArgumentKind.of? name index = names.kind? r index :=
  keeps r.toNat found index

/-- An object that was read is resolved to one that the text has words for. -/
theorem resolveObject_spec : ∀ {op : Source.Object} {s s' : List String} {o : Object}, op.Proper →
    Yields (resolveObject names.catalog op) s o s' →
    s <+: s' ∧ Resolved names.catalog P (o.Fits s'.length) o.Textual (o.parts names)
  | .builtin which, s, s', o, _, h => by
    rw [resolveObject] at h
    obtain ⟨rfl, rfl⟩ := yields_pure.mp h
    exact ⟨List.prefix_refl _, trivial, trivial, fun _ _ => by rintro ⟨⟩⟩
  | .named name, s, s', o, _, h => by
    rw [resolveObject] at h
    obtain ⟨index, t, first, rest⟩ := yields_bind.mp h
    obtain ⟨rfl, rfl⟩ := yields_pure.mp rest
    obtain ⟨more, bound⟩ := intern_spec first
    refine ⟨more, ?_, trivial, fun _ _ => by rintro ⟨⟩⟩
    exact Nat.lt_of_le_of_lt (Nat.mod_le ..) bound
  | .dynamic (.flag name), s, s', o, _, h => by
    rw [resolveObject] at h
    obtain ⟨value, t, first, rest⟩ := yields_bind.mp h
    obtain ⟨rfl, rfl⟩ := yields_pure.mp rest
    rw [resolveOperand] at first
    obtain ⟨ordinal, t', found, last⟩ := yields_bind.mp first
    obtain ⟨rfl, rfl⟩ := yields_pure.mp last
    rw [resolveName_spec found]
    exact ⟨List.prefix_refl _, resolved_single trivial trivial trivial⟩
  | .dynamic (.var slot), s, s', o, _, h => by
    rw [resolveObject] at h
    obtain ⟨value, t, first, rest⟩ := yields_bind.mp h
    obtain ⟨rfl, rfl⟩ := yields_pure.mp rest
    rw [resolveOperand] at first
    obtain ⟨rfl, rfl⟩ := yields_pure.mp first
    exact ⟨List.prefix_refl _, resolved_single trivial trivial trivial⟩

mutual

/-- A value that was read is resolved to one that bytes can hold and the text has words for. -/
theorem resolveOperand_spec : ∀ {op : Source.Operand} {kind : Option ArgumentKind} {s s' : List String}
    {o : Operand}, op.Proper P → Yields (resolveOperand names.catalog kind op) s o s' →
    s <+: s' ∧ Resolved names.catalog P (o.Fits s'.length) o.Textual (o.parts names kind)
  | .int value, kind, s, s', o, _, h => by
    rw [resolveOperand] at h
    exact resolveNumber_spec h
  | .str text, kind, s, s', o, _, h => by
    rw [resolveOperand] at h
    obtain ⟨index, t, first, rest⟩ := yields_bind.mp h
    obtain ⟨more, bound⟩ := intern_spec first
    split at rest
    · next dialogue =>
      obtain ⟨word, t', small, last⟩ := yields_bind.mp rest
      obtain ⟨-, rfl⟩ := yields_lift.mp small
      obtain ⟨rfl, rfl⟩ := yields_pure.mp last
      exact ⟨more, resolved_single trivial trivial (by rw [dialogue]; rfl)⟩
    · next other =>
      obtain ⟨rfl, rfl⟩ := yields_pure.mp rest
      exact ⟨more, resolved_single (Nat.lt_of_le_of_lt (Nat.mod_le ..) bound) trivial other⟩
  | .bracket name, kind, s, s', o, _, h => by
    rw [resolveOperand] at h
    split at h
    · exact resolveNumber_spec h
    · cases h
  | .flag name, kind, s, s', o, _, h => by
    rw [resolveOperand] at h
    obtain ⟨ordinal, t, found, last⟩ := yields_bind.mp h
    obtain ⟨rfl, rfl⟩ := yields_pure.mp last
    rw [resolveName_spec found]
    exact ⟨List.prefix_refl _, resolved_single trivial trivial trivial⟩
  | .var slot, kind, s, s', o, _, h => by
    rw [resolveOperand] at h
    obtain ⟨rfl, rfl⟩ := yields_pure.mp h
    exact ⟨List.prefix_refl _, resolved_single trivial trivial trivial⟩
  | .field object reference, kind, s, s', o, proper, h => by
    rw [resolveOperand] at h
    obtain ⟨object', t, first, rest⟩ := yields_bind.mp h
    obtain ⟨ordinal, t', found, last⟩ := yields_bind.mp rest
    obtain ⟨rfl, rfl⟩ := yields_pure.mp last
    obtain ⟨more, inner⟩ := resolveObject_spec (P := P) proper first
    rw [resolveName_spec found]
    exact ⟨more, inner.fits, inner.textual,
      fun keeps => List.forall_mem_cons.mpr ⟨trivial, inner.settled keeps⟩⟩
  | .call routine arguments, kind, s, s', o, proper, h => by
    rw [resolveOperand] at h
    obtain ⟨r, t, first, rest⟩ := yields_bind.mp h
    obtain ⟨as, t', second, last⟩ := yields_bind.mp rest
    obtain ⟨rfl, rfl⟩ := yields_pure.mp last
    obtain ⟨rfl, fits, found⟩ := resolveRoutine_spec first
    obtain ⟨more, length, inner⟩ := resolveArguments_spec found proper.1 proper.2 second
    exact ⟨more, ⟨length ▸ fits, inner.fits⟩, inner.textual,
      fun keeps => List.forall_mem_cons.mpr ⟨trivial, inner.settled keeps⟩⟩
  | .objectCall _ object routine arguments, kind, s, s', o, proper, h => by
    rw [resolveOperand] at h
    obtain ⟨object', t, first, rest⟩ := yields_bind.mp h
    obtain ⟨r, t', second, rest⟩ := yields_bind.mp rest
    obtain ⟨as, t'', third, last⟩ := yields_bind.mp rest
    obtain ⟨rfl, rfl⟩ := yields_pure.mp last
    obtain ⟨more, outer⟩ := resolveObject_spec (P := P) proper.1 first
    obtain ⟨rfl, fits, found⟩ := resolveRoutine_spec second
    obtain ⟨more', length, inner⟩ := resolveArguments_spec found proper.2.1 proper.2.2 third
    refine ⟨more.trans more', ⟨Object.Fits.mono more'.length_le outer.fits, length ▸ fits, inner.fits⟩,
      ⟨by decide, outer.textual, inner.textual⟩, fun keeps => List.forall_mem_cons.mpr ⟨rfl, ?_⟩⟩
    exact List.forall_mem_append.mpr ⟨outer.settled keeps, inner.settled keeps⟩

theorem resolveArguments_spec {name : String} {r : UInt16}
    (found : names.catalog.resolve .routine name = .ok r.toNat) (called : P name) :
    ∀ {es : List Source.Expr} {index : Nat} {s s' : List String} {as : List Operand},
      Source.argumentsProper P es → Yields (resolveArguments names.catalog name index es) s as s' →
      s <+: s' ∧ es.length = as.length ∧ Resolved names.catalog P (argumentsFit s'.length as)
        (argumentsTextual as) (argumentParts names r index as)
  | [], index, s, s', as, _, h => by
    rw [resolveArguments] at h
    obtain ⟨rfl, rfl⟩ := yields_pure.mp h
    exact ⟨List.prefix_refl _, rfl, trivial, trivial, fun _ _ => by rintro ⟨⟩⟩
  | .last op :: es, index, s, s', as, proper, h => by
    rw [resolveArguments, resolveArgument] at h
    obtain ⟨a, t, first, rest⟩ := yields_bind.mp h
    obtain ⟨as', t', second, last⟩ := yields_bind.mp rest
    obtain ⟨rfl, rfl⟩ := yields_pure.mp last
    obtain ⟨more, one⟩ := resolveOperand_spec proper.1 first
    obtain ⟨more', length, others⟩ := resolveArguments_spec found called proper.2 second
    refine ⟨more.trans more', by rw [List.length_cons, length, List.length_cons],
      ⟨Operand.Fits.mono more'.length_le one.fits, others.fits⟩, ⟨one.textual, others.textual⟩, ?_⟩
    intro keeps
    have kind := kind?_of_resolve found (keeps name called) index
    rw [kind] at one
    exact List.forall_mem_append.mpr ⟨one.settled keeps, others.settled keeps⟩
  | .more op _ _ :: es, index, s, s', as, _, h => by
    rw [resolveArguments, resolveArgument] at h
    obtain ⟨a, t, first, -⟩ := yields_bind.mp h
    obtain ⟨_, _, _, ⟨⟩⟩ := yields_bind.mp first

end

theorem resolveFormula_spec : ∀ {e : Source.Expr} {s s' : List String} {f : Formula}, e.Proper P →
    Yields (resolveFormula names.catalog e) s f s' →
    s <+: s' ∧ Resolved names.catalog P (f.Fits s'.length) f.Textual (f.parts names)
  | .last op, s, s', f, proper, h => by
    obtain ⟨o, t, first, last⟩ := yields_bind.mp h
    obtain ⟨rfl, rfl⟩ := yields_pure.mp last
    exact resolveOperand_spec proper first
  | .more op operator rest, s, s', f, proper, h => by
    obtain ⟨o, t, first, h⟩ := yields_bind.mp h
    obtain ⟨f', t', second, last⟩ := yields_bind.mp h
    obtain ⟨rfl, rfl⟩ := yields_pure.mp last
    obtain ⟨more, one⟩ := resolveOperand_spec (P := P) proper.1 first
    obtain ⟨more', others⟩ := resolveFormula_spec proper.2 second
    exact ⟨more.trans more', (one.imp (Operand.Fits.mono more'.length_le)).and others⟩

theorem resolvePlace_spec {op : Source.Operand} {s s' : List String} {place : Place} (proper : op.Proper P)
    (h : Yields (resolvePlace names.catalog op) s place s') :
    s <+: s' ∧ Resolved names.catalog P (place.operand.Fits s'.length) place.operand.Textual
      (place.operand.parts names none) :=
  resolveOperand_spec proper (Place.yields_operand h)

/-! ### Lines -/

/-- What a line says, as code that came out of a text. -/
def Piece.Resolved (names : Names) (P : String → Prop) (strings : Nat) : Piece → Prop
  | .guard g => Assembly.Resolved names.catalog P (g.Fits strings) g.Textual (g.parts names)
  | .statement (.action a) => Assembly.Resolved names.catalog P (a.Holdable strings) a.Textual (a.parts names)
  | .statement (.mark _) => True
  | .statement (.block _ _) => False

theorem readComparison_spec {ts rest : List Source.Token} {c : Comparison} {s s' : List String}
    (called : ∀ name ∈ Source.callNames ts, P name)
    (h : Yields (readComparison names.catalog ts) s (c, rest) s') :
    rest <:+ ts ∧ s <+: s' ∧ Resolved names.catalog P (c.Fits s'.length) c.Textual (c.parts names) := by
  obtain ⟨⟨left, ts₁⟩, t, read₁, h₁⟩ := yields_bind.mp h
  obtain ⟨⟨comparator, ts₂⟩, t', read₂, h₂⟩ := yields_bind.mp h₁
  obtain ⟨⟨right, ts₃⟩, t'', read₃, h₃⟩ := yields_bind.mp h₂
  obtain ⟨left', t₁, one, h₄⟩ := yields_bind.mp h₃
  obtain ⟨right', t₂, two, last⟩ := yields_bind.mp h₄
  obtain ⟨first, rfl⟩ := yields_lift.mp read₁
  obtain ⟨second, rfl⟩ := yields_lift.mp read₂
  obtain ⟨third, rfl⟩ := yields_lift.mp read₃
  obtain ⟨same, rfl⟩ := yields_pure.mp last
  cases same
  have suffix₁ := Source.readExpr_spec (P := P) _ _ _ first
  have suffix₂ : ts₂ <:+ ts₁ := by
    rw [readComparator.eq_def] at second
    split at second
    · split at second
      · cases second
        exact List.suffix_cons ..
      · cases second
    · cases second
  have less := suffix₂.trans suffix₁.1
  have suffix₃ := Source.readExpr_spec (P := P) _ _ _ third
  obtain ⟨more, hl⟩ := resolveFormula_spec (suffix₁.2 called) one
  obtain ⟨more', hr⟩ := resolveFormula_spec (suffix₃.2 (Source.names_of_suffix less called)) two
  exact ⟨suffix₃.1.trans less, more.trans more', (hl.imp (Formula.Fits.mono more'.length_le)).and hr⟩

theorem readCondition_spec : ∀ {n : Nat} {ts : List Source.Token} {c : Condition} {s s' : List String},
    (∀ name ∈ Source.callNames ts, P name) → Yields (readCondition names.catalog n ts) s c s' →
    s <+: s' ∧ Resolved names.catalog P (c.Fits s'.length) c.Textual (c.parts names)
  | n + 1, ts, c, s, s', called, h => by
    obtain ⟨⟨comparison, rest⟩, t, first, h⟩ := yields_bind.mp h
    obtain ⟨suffix, more, one⟩ := readComparison_spec called first
    -- Both conjunctions go on in the same way.
    have further : ∀ (conjunction : Conjunction) (ts' : List Source.Token), ts' <:+ rest →
        Yields (readCondition names.catalog n ts' >>= fun c' =>
          pure (Condition.more comparison conjunction c')) t c s' →
        s <+: s' ∧ Resolved names.catalog P (c.Fits s'.length) c.Textual (c.parts names) := by
      intro conjunction ts' less h
      obtain ⟨c', t', second, last⟩ := yields_bind.mp h
      obtain ⟨rfl, rfl⟩ := yields_pure.mp last
      obtain ⟨more', others⟩ := readCondition_spec (Source.names_of_suffix (less.trans suffix) called) second
      refine ⟨more.trans more', (one.imp fun fits => ?_).and others⟩
      exact ⟨Formula.Fits.mono more'.length_le fits.1, Formula.Fits.mono more'.length_le fits.2⟩
    cases rest with
    | nil =>
      obtain ⟨rfl, rfl⟩ := yields_pure.mp h
      exact ⟨more, one⟩
    | cons t rest =>
      simp only at h
      split at h
      · exact further .and rest (List.suffix_cons ..) h
      · split at h
        · exact further .or rest (List.suffix_cons ..) h
        · cases h

theorem readGuard_spec {ts : List Source.Token} {g : Guard} {s s' : List String}
    (called : ∀ name ∈ Source.callNames ts, P name) (h : Yields (readGuard names.catalog ts) s g s') :
    s <+: s' ∧ Resolved names.catalog P (g.Fits s'.length) g.Textual (g.parts names) := by
  unfold readGuard at h
  split at h
  · obtain ⟨_, t₁, read₁, h₁⟩ := yields_bind.mp h
    obtain ⟨_, t₂, read₂, h₂⟩ := yields_bind.mp h₁
    obtain ⟨_, t₃, read₃, h₃⟩ := yields_bind.mp h₂
    obtain ⟨_, t₄, read₄, last⟩ := yields_bind.mp h₃
    obtain ⟨-, rfl⟩ := yields_lift.mp read₁
    obtain ⟨-, rfl⟩ := yields_lift.mp read₂
    obtain ⟨-, rfl⟩ := yields_lift.mp read₃
    obtain ⟨-, rfl⟩ := yields_lift.mp read₄
    obtain ⟨rfl, rfl⟩ := yields_pure.mp last
    exact ⟨List.prefix_refl _, trivial, trivial, fun _ _ => by rintro ⟨⟩⟩
  · obtain ⟨c, t, first, last⟩ := yields_bind.mp h
    obtain ⟨rfl, rfl⟩ := yields_pure.mp last
    exact readCondition_spec called first

theorem resolveCall?_spec {mode : CallMode} {op : Source.Operand} {code : Resolve Action}
    (proper : op.Proper P) (found : resolveCall? names.catalog mode op = some code) {a : Action}
    {s s' : List String} (h : Yields code s a s') :
    s <+: s' ∧ Resolved names.catalog P (a.Holdable s'.length) a.Textual (a.parts names) := by
  match op, proper with
  | .call routine arguments, proper =>
    cases found
    obtain ⟨r, t, first, rest⟩ := yields_bind.mp h
    obtain ⟨as, t', second, last⟩ := yields_bind.mp rest
    obtain ⟨rfl, rfl⟩ := yields_pure.mp last
    obtain ⟨rfl, fits, found⟩ := resolveRoutine_spec first
    obtain ⟨more, length, inner⟩ := resolveArguments_spec found proper.1 proper.2 second
    exact ⟨more, ⟨length ▸ fits, inner.fits⟩, inner.textual, inner.settled⟩
  | .objectCall _ object routine arguments, proper =>
    cases found
    obtain ⟨object', t, first, rest⟩ := yields_bind.mp h
    obtain ⟨r, t', second, rest'⟩ := yields_bind.mp rest
    obtain ⟨as, t'', third, last⟩ := yields_bind.mp rest'
    obtain ⟨rfl, rfl⟩ := yields_pure.mp last
    obtain ⟨more, outer⟩ := resolveObject_spec (P := P) proper.1 first
    obtain ⟨rfl, fits, found⟩ := resolveRoutine_spec second
    obtain ⟨more', length, inner⟩ := resolveArguments_spec found proper.2.1 proper.2.2 third
    refine ⟨more.trans more', ⟨Object.Fits.mono more'.length_le outer.fits, length ▸ fits, inner.fits⟩,
      ⟨outer.textual, inner.textual⟩, fun keeps => ?_⟩
    exact List.forall_mem_append.mpr ⟨outer.settled keeps, inner.settled keeps⟩

/-- The reader makes a statement that came out of the text. -/
def Makes (names : Names) (P : String → Prop) (m : Resolve (Action × List Source.Token)) : Prop :=
  ∀ s a rest s', Yields m s (a, rest) s' →
    s <+: s' ∧ Resolved names.catalog P (a.Holdable s'.length) a.Textual (a.parts names)

theorem makes_refuse (e : Source.Fault) : Makes names P (refuse e) := by
  intro s a rest s' h
  cases h

/-- A statement without values comes out of any text. -/
theorem makes_pure {a : Action} {rest : List Source.Token} (holdable : a.Holdable 0) (textual : a.Textual)
    (none_ : a.parts names = []) : Makes names P (pure (a, rest)) := by
  intro s a' rest' s' h
  obtain ⟨same, rfl⟩ := yields_pure.mp h
  cases same
  refine ⟨List.prefix_refl _, holdable.mono (Nat.zero_le _), textual, fun _ => ?_⟩
  rw [none_]
  exact fun _ => by rintro ⟨⟩

theorem makes_lift {α : Type} {x : Except Source.Fault α} {f : α → Resolve (Action × List Source.Token)}
    (h : ∀ y, Makes names P (f y)) : Makes names P (liftM x >>= f) := by
  intro s a rest s' run
  obtain ⟨y, t, read, last⟩ := yields_bind.mp run
  obtain ⟨-, rfl⟩ := yields_lift.mp read
  exact h y _ _ _ _ last

theorem makes_readCall {ts : List Source.Token} (called : ∀ name ∈ Source.callNames ts, P name)
    (mode : CallMode) : Makes names P (readCall names.catalog mode ts) := by
  intro s a rest s' h
  obtain ⟨⟨op, ts'⟩, t, read, h₁⟩ := yields_bind.mp h
  obtain ⟨first, rfl⟩ := yields_lift.mp read
  have proper := (Source.readOperand_spec (P := P) _ _ _ first).2 called
  simp only at h₁
  split at h₁
  · next code found =>
    obtain ⟨a', t', second, last⟩ := yields_bind.mp h₁
    obtain ⟨same, rfl⟩ := yields_pure.mp last
    cases same
    exact resolveCall?_spec proper found second
  · cases h₁

theorem makes_readPlain {ts : List Source.Token} (called : ∀ name ∈ Source.callNames ts, P name) :
    Makes names P (readPlain names.catalog ts) := by
  intro s a rest s' h
  obtain ⟨⟨op, ts'⟩, t, read, h₁⟩ := yields_bind.mp h
  obtain ⟨first, rfl⟩ := yields_lift.mp read
  have spec := Source.readOperand_spec (P := P) _ _ _ first
  simp only at h₁
  split at h₁
  · next ts' =>
    obtain ⟨⟨e, ts''⟩, t', read', h₂⟩ := yields_bind.mp h₁
    obtain ⟨place, t₁, one, h₃⟩ := yields_bind.mp h₂
    obtain ⟨formula, t₂, two, last⟩ := yields_bind.mp h₃
    obtain ⟨second, rfl⟩ := yields_lift.mp read'
    obtain ⟨same, rfl⟩ := yields_pure.mp last
    cases same
    have less : ts' <:+ ts := (List.suffix_cons ..).trans spec.1
    have right := (Source.readExpr_spec (P := P) _ _ _ second).2 (Source.names_of_suffix less called)
    obtain ⟨more, hp⟩ := resolvePlace_spec (spec.2 called) one
    obtain ⟨more', hf⟩ := resolveFormula_spec right two
    exact ⟨more.trans more', (hp.imp (Operand.Fits.mono more'.length_le)).and hf⟩
  · split at h₁
    · next code found =>
      obtain ⟨a', t', second, last⟩ := yields_bind.mp h₁
      obtain ⟨same, rfl⟩ := yields_pure.mp last
      cases same
      exact resolveCall?_spec (spec.2 called) found second
    · cases h₁

theorem makes_readMarker (ts : List Source.Token) : Makes names P (readMarker ts) := by
  unfold readMarker
  split
  · split
    · exact makes_lift fun _ => makes_lift fun _ => makes_pure trivial trivial rfl
    · split
      · exact makes_lift fun _ => makes_pure trivial trivial rfl
      · exact makes_refuse _
  · exact makes_refuse _

theorem makes_readWord {word : String} {ts : List Source.Token}
    (called : ∀ name ∈ Source.callNames (.ident word :: ts), P name) :
    Makes names P (readWord names.catalog word ts) := by
  have further := Source.names_of_suffix (List.suffix_cons (.ident word) ts) called
  unfold readWord
  split
  · exact makes_lift fun _ => makes_pure trivial trivial rfl
  split
  · exact makes_lift fun _ => makes_pure trivial trivial rfl
  split
  · exact makes_lift fun _ => makes_pure trivial trivial rfl
  split
  · exact makes_pure trivial trivial rfl
  split
  · exact makes_pure trivial trivial rfl
  split
  · exact makes_readCall further .async
  split
  · exact makes_readCall further .function
  · exact makes_readPlain called

theorem readWhole_spec {m : Resolve (Action × List Source.Token)} (makes : Makes names P m) {piece : Piece}
    {s s' : List String} (h : Yields (readWhole m) s piece s') :
    s <+: s' ∧ piece.Resolved names P s'.length := by
  obtain ⟨⟨a, rest⟩, t, first, h₁⟩ := yields_bind.mp h
  obtain ⟨_, t', read, last⟩ := yields_bind.mp h₁
  obtain ⟨-, rfl⟩ := yields_lift.mp read
  obtain ⟨rfl, rfl⟩ := yields_pure.mp last
  exact makes _ _ _ _ first

/-- What a line says can be held by bytes, the text has words for it, and it is settled if the names
that satisfy `P` keep the kinds of arguments. -/
theorem readPiece_spec {ts : List Source.Token} (called : ∀ name ∈ Source.callNames ts, P name)
    {piece : Piece} {s s' : List String} (h : Yields (readPiece names.catalog ts) s piece s') :
    s <+: s' ∧ piece.Resolved names P s'.length := by
  unfold readPiece at h
  split at h
  · obtain ⟨_, t, read₁, h₁⟩ := yields_bind.mp h
    obtain ⟨_, t', read₂, last⟩ := yields_bind.mp h₁
    obtain ⟨-, rfl⟩ := yields_lift.mp read₁
    obtain ⟨-, rfl⟩ := yields_lift.mp read₂
    obtain ⟨rfl, rfl⟩ := yields_pure.mp last
    exact ⟨List.prefix_refl _, trivial⟩
  · exact readWhole_spec (makes_readMarker _) h
  · next word ts =>
    split at h
    · obtain ⟨g, t, first, last⟩ := yields_bind.mp h
      obtain ⟨rfl, rfl⟩ := yields_pure.mp last
      exact readGuard_spec (Source.names_of_suffix (List.suffix_cons (.ident word) ts) called) first
    · exact readWhole_spec (makes_readWord called) h
  · exact readWhole_spec (makes_readPlain called) h

end Assembly

end EventScript
