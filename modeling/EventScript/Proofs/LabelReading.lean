import EventScript.Proofs.LabelLines
import EventScript.Proofs.Outline

/-!
# Reading lines with other label numbers

Every reading function stops at a label where it wants something else, so two lists of tokens that are the same up to
their first label are read alike (`near_readOperand` and what follows). Where a label is wanted, at most one token may
follow it, and so it is the one that the renaming gives: the pieces and preambles differ by the renaming
(`near_readPiece`, `Preamble.near_read`).
-/

namespace EventScript

open Source (Token Symbol SameKind NearTokens)

variable {f : UInt32 → UInt32}

namespace Source

theorem NearTokens.length_eq {strict : Bool} {ts us : List Token} (h : NearTokens f strict ts us) :
    ts.length = us.length := by
  induction h with
  | nil => rfl
  | token _ _ ih => rw [List.length_cons, List.length_cons, ih]
  | label _ _ ih => rw [List.length_cons, List.length_cons, ih]
  | literal _ ih => rw [List.length_cons, List.length_cons, ih]

/-! ### Values -/

/-- The same thing was read, and the tokens that follow it are near. -/
def Kept {α : Type} (f : UInt32 → UInt32) (p r : α × List Token) : Prop := p.1 = r.1 ∧ NearTokens f true p.2 r.2

mutual

theorem near_readOperand : ∀ (n : Nat) {ts us : List Token}, NearTokens f true ts us →
    Alike SameKind (Kept f) (readOperand n ts) (readOperand n us)
  | 0, _, _, _ => .fault rfl
  | n + 1, _, _, h => by
    cases h with
    | nil => exact .fault rfl
    | label => exact .fault rfl
    | @token _ t ts us plain rest =>
      cases t with
      | int value => exact .value ⟨rfl, rest⟩
      | label number => exact absurd rfl (plain rfl number)
      | result => exact .fault rfl
      | sym s =>
        cases s with
        | minus =>
          cases rest with
          | nil => exact .fault rfl
          | label => exact .fault rfl
          | @token _ t ts us _ rest =>
            cases t with
            | int value => exact .value ⟨rfl, rest⟩
            | _ => exact .fault rfl
        | _ => exact .fault rfl
      | str text =>
        cases rest with
        | nil => exact .value ⟨rfl, .nil⟩
        | label named rest => exact .value ⟨rfl, .label named rest⟩
        | @token _ t ts us plain rest =>
          cases t with
          | sym s =>
            cases s with
            | dot => exact near_readMember n (.named text) rest
            | _ => exact .value ⟨rfl, .token plain rest⟩
          | _ => exact .value ⟨rfl, .token plain rest⟩
      | ident name =>
        cases rest with
        | nil => exact .value ⟨rfl, .nil⟩
        | label named rest => exact .value ⟨rfl, .label named rest⟩
        | @token _ t ts us plain rest =>
          cases t with
          | sym s =>
            cases s with
            | leftParen =>
              refine (near_readArguments n rest).bind fun p r _ _ related => ?_
              exact .value ⟨congrArg (Operand.call name) related.1, related.2⟩
            | dot => exact near_readMember n (Object.ofName name) rest
            | _ => exact .value ⟨rfl, .token plain rest⟩
          | _ => exact .value ⟨rfl, .token plain rest⟩

theorem near_readMember : ∀ (n : Nat) (object : Object) {ts us : List Token}, NearTokens f true ts us →
    Alike SameKind (Kept f) (readMember n object ts) (readMember n object us)
  | 0, _, _, _, _ => .fault rfl
  | n + 1, object, _, _, h => by
    cases h with
    | nil => exact .fault rfl
    | label => exact .fault rfl
    | @token _ t ts us _ rest =>
      cases t with
      | ident member =>
        cases rest with
        | nil => exact .value ⟨rfl, .nil⟩
        | label named rest => exact .value ⟨rfl, .label named rest⟩
        | @token _ t ts us plain rest =>
          cases t with
          | sym s =>
            cases s with
            | leftParen =>
              refine (near_readArguments n rest).bind fun p r _ _ related => ?_
              exact .value ⟨congrArg (Operand.objectCall false object member) related.1, related.2⟩
            | _ => exact .value ⟨rfl, .token plain rest⟩
          | _ => exact .value ⟨rfl, .token plain rest⟩
      | _ => exact .fault rfl

theorem near_readArguments : ∀ (n : Nat) {ts us : List Token}, NearTokens f true ts us →
    Alike SameKind (Kept f) (readArguments n ts) (readArguments n us)
  | 0, _, _, _ => .fault rfl
  | n + 1, _, _, h => by
    have further := near_readFurther n h
    cases h with
    | nil => exact further
    | label => exact further
    | @token _ t ts us _ rest =>
      cases t with
      | sym s =>
        cases s with
        | rightParen => exact .value ⟨rfl, rest⟩
        | _ => exact further
      | _ => exact further

theorem near_readFurther : ∀ (n : Nat) {ts us : List Token}, NearTokens f true ts us →
    Alike SameKind (Kept f) (readFurther n ts) (readFurther n us)
  | 0, _, _, _ => .fault rfl
  | n + 1, _, _, h => by
    refine (near_readExpr n h).bind fun p r _ _ related => ?_
    obtain ⟨e, ts⟩ := p
    obtain ⟨e', us⟩ := r
    obtain ⟨rfl, near⟩ := related
    cases near with
    | nil => exact .fault rfl
    | label => exact .fault rfl
    | @token _ t ts us _ rest =>
      cases t with
      | sym s =>
        cases s with
        | rightParen => exact .value ⟨rfl, rest⟩
        | comma =>
          refine (near_readFurther n rest).bind fun p r _ _ related => ?_
          exact .value ⟨congrArg (e :: ·) related.1, related.2⟩
        | _ => exact .fault rfl
      | _ => exact .fault rfl

theorem near_readExpr : ∀ (n : Nat) {ts us : List Token}, NearTokens f true ts us →
    Alike SameKind (Kept f) (readExpr n ts) (readExpr n us)
  | 0, _, _, _ => .fault rfl
  | n + 1, _, _, h => by
    refine (near_readOperand n h).bind fun p r _ _ related => ?_
    obtain ⟨operand, ts⟩ := p
    obtain ⟨operand', us⟩ := r
    obtain ⟨rfl, near⟩ := related
    cases near with
    | nil => exact .value ⟨rfl, .nil⟩
    | label named rest => exact .value ⟨rfl, .label named rest⟩
    | @token _ t ts us plain rest =>
      cases t with
      | sym s =>
        dsimp only
        cases s.operator? with
        | none => exact .value ⟨rfl, .token plain rest⟩
        | some operator =>
          refine (near_readExpr n rest).bind fun p r _ _ related => ?_
          exact .value ⟨congrArg (Expr.more operand operator) related.1, related.2⟩
      | _ => exact .value ⟨rfl, .token plain rest⟩

end

variable {ts us : List Token}

theorem near_operand (h : NearTokens f true ts us) : Alike SameKind (Kept f) (Operand.read ts) (Operand.read us) := by
  rw [Operand.read, Operand.read, bound, bound, h.length_eq]
  exact near_readOperand _ h

theorem near_expr (h : NearTokens f true ts us) : Alike SameKind (Kept f) (Expr.read ts) (Expr.read us) := by
  rw [Expr.read, Expr.read, bound, bound, h.length_eq]
  exact near_readExpr _ h

theorem near_readSymbol (s : Symbol) (h : NearTokens f true ts us) :
    Alike SameKind (NearTokens f true) (readSymbol s ts) (readSymbol s us) := by
  cases h with
  | nil => exact .fault rfl
  | label => exact .fault rfl
  | @token _ t ts us _ rest =>
    cases t with
    | sym t =>
      rw [readSymbol, readSymbol]
      split
      · exact .value rest
      · exact .fault rfl
    | _ => exact .fault rfl

theorem near_readInteger (h : NearTokens f true ts us) : Alike SameKind (Kept f) (readInteger ts) (readInteger us) := by
  cases h with
  | nil => exact .fault rfl
  | label => exact .fault rfl
  | @token _ t ts us _ rest =>
    cases t with
    | int value => exact .value ⟨rfl, rest⟩
    | sym s =>
      cases s with
      | minus =>
        cases rest with
        | nil => exact .fault rfl
        | label => exact .fault rfl
        | @token _ t ts us _ rest =>
          cases t with
          | int value => exact .value ⟨rfl, rest⟩
          | _ => exact .fault rfl
      | _ => exact .fault rfl
    | _ => exact .fault rfl

theorem near_readEnd (same : ts = [] ↔ us = []) : Alike SameKind (fun _ _ => ts = []) (readEnd ts) (readEnd us) := by
  cases ts with
  | nil =>
    rw [same.mp rfl]
    exact .value rfl
  | cons t ts =>
    cases us with
    | nil => cases same.mpr rfl
    | cons u us => exact .fault rfl

theorem NearTokens.eq_nil_iff {strict : Bool} (h : NearTokens f strict ts us) : ts = [] ↔ us = [] := by
  rw [← List.length_eq_zero_iff, h.length_eq, List.length_eq_zero_iff]

end Source

namespace Code

variable (f)

/-- A statement without a block, with other label numbers. -/
def Action.relabel : Action → Action
  | goto target => goto (target.map f)
  | stop target => stop (target.map f)
  | gosub target => gosub (f target)
  | pause target => pause (f target)
  | a => a

mutual

/-- A statement with other label numbers. -/
def Statement.relabel : Statement → Statement
  | .action a => .action (a.relabel f)
  | .block guard body => .block guard (relabelBlock body)
  | .mark label => .mark (f label)

/-- The statements of a block with other label numbers. -/
def relabelBlock : List Statement → List Statement
  | [] => []
  | s :: ss => s.relabel :: relabelBlock ss

end

variable {f}

theorem Action.relabel_of_jump? {a : Action} (h : a.jump? = none) : a.relabel f = a := by
  cases a with
  | goto => cases h
  | stop => cases h
  | gosub => cases h
  | pause => cases h
  | _ => rfl

end Code

namespace Assembly

open Source (Kept)

variable {catalog : Catalog} {ts us : List Token}

/-! ### Conditions -/

/-- Two steps are alike: they end with related values and the same strings, or with faults of one kind. -/
def AlikeIn {α β : Type} (R : α → β → Prop) (m : Resolve α) (m' : Resolve β) : Prop :=
  ∀ s, Alike SameKind (fun x y => R x.1 y.1 ∧ x.2 = y.2) (m s).result (m' s).result

section

variable {α β α' β' : Type} {R : α → β → Prop} {R' : α' → β' → Prop}

theorem AlikeIn.bind {m : Resolve α} {m' : Resolve β} {g : α → Resolve α'} {h : β → Resolve β'} (first : AlikeIn R m m')
    (rest : ∀ a b, R a b → AlikeIn R' (g a) (h b)) : AlikeIn R' (m >>= g) (m' >>= h) := by
  intro s
  show Alike SameKind _ (m s >>= fun p => g p.1 p.2).result (m' s >>= fun p => h p.1 p.2).result
  rw [Traced.result_bind, Traced.result_bind]
  refine (first s).bind fun p r _ _ related => ?_
  rw [← related.2]
  exact rest _ _ related.1 p.2

theorem AlikeIn.mono {R' : α → β → Prop} {m : Resolve α} {m' : Resolve β} (h : AlikeIn R m m')
    (weaker : ∀ s a s' b, Yields m s a s' → R a b → R' a b) : AlikeIn R' m m' :=
  fun s => (h s).mono fun _ _ yields _ related => ⟨weaker s _ _ _ yields related.1, related.2⟩

theorem alikeIn_lift {x : Except Source.Fault α} {y : Except Source.Fault β} (h : Alike SameKind R x y) :
    AlikeIn R (liftM x) (liftM y) := by
  intro s
  cases h with
  | value related => exact .value ⟨related, rfl⟩
  | fault related => exact .fault related

theorem AlikeIn.refl (m : Resolve α) : AlikeIn Eq m m :=
  fun _ => (Alike.refl SameKind.refl _).mono fun _ _ _ _ same => ⟨congrArg Prod.fst same, congrArg Prod.snd same⟩

theorem alikeIn_pure {a : α} {b : β} (h : R a b) : AlikeIn R (pure a) (pure b) := fun _ => .value ⟨h, rfl⟩

theorem alikeIn_refuse {e d : Source.Fault} (h : SameKind e d) : AlikeIn R (refuse e) (refuse d) := fun _ => .fault h

end

theorem near_readComparator (h : NearTokens f true ts us) :
    Alike SameKind (Kept f) (readComparator ts) (readComparator us) := by
  cases h with
  | nil => exact .fault rfl
  | label => exact .fault rfl
  | @token _ t ts us _ rest =>
    cases t with
    | sym s =>
      rw [readComparator, readComparator]
      cases s.comparator? with
      | none => exact .fault rfl
      | some comparator => exact .value ⟨rfl, rest⟩
    | _ => exact .fault rfl

theorem near_readComparison (h : NearTokens f true ts us) :
    AlikeIn (Kept f) (readComparison catalog ts) (readComparison catalog us) := by
  refine (alikeIn_lift (Source.near_expr h)).bind ?_
  rintro ⟨left, ts⟩ ⟨_, us⟩ ⟨rfl, h⟩
  refine (alikeIn_lift (near_readComparator h)).bind ?_
  rintro ⟨comparator, ts⟩ ⟨_, us⟩ ⟨rfl, h⟩
  refine (alikeIn_lift (Source.near_expr h)).bind ?_
  rintro ⟨right, ts⟩ ⟨_, us⟩ ⟨rfl, h⟩
  refine (AlikeIn.refl (resolveFormula catalog left)).bind ?_
  rintro left _ rfl
  refine (AlikeIn.refl (resolveFormula catalog right)).bind ?_
  rintro right _ rfl
  exact alikeIn_pure ⟨rfl, h⟩

theorem near_readCondition (n : Nat) : ∀ {ts us : List Token}, NearTokens f true ts us →
    AlikeIn Eq (readCondition catalog n ts) (readCondition catalog n us) := by
  induction n with
  | zero => exact fun _ => alikeIn_refuse rfl
  | succ n ih =>
    intro ts us h
    refine (near_readComparison h).bind ?_
    rintro ⟨comparison, ts⟩ ⟨_, us⟩ ⟨rfl, h⟩
    have further : ∀ {ts us : List Token} (conjunction : Conjunction), NearTokens f true ts us →
        AlikeIn Eq (readCondition catalog n ts >>= fun rest => pure (Code.Condition.more comparison conjunction rest))
          (readCondition catalog n us >>= fun rest => pure (Code.Condition.more comparison conjunction rest)) := by
      intro ts us conjunction h
      refine (ih h).bind ?_
      rintro rest _ rfl
      exact alikeIn_pure rfl
    cases h with
    | nil => exact alikeIn_pure rfl
    | label => exact alikeIn_refuse rfl
    | @token _ t ts us _ rest =>
      dsimp only
      split
      · exact further .and rest
      · split
        · exact further .or rest
        · exact alikeIn_refuse rfl

theorem near_readGuard (h : NearTokens f true ts us) : AlikeIn Eq (readGuard catalog ts) (readGuard catalog us) := by
  have condition : ∀ {ts us : List Token}, NearTokens f true ts us →
      AlikeIn Eq (readCondition catalog (ts.length + 1) ts >>= fun c => pure (Code.Guard.condition c))
        (readCondition catalog (us.length + 1) us >>= fun c => pure (Code.Guard.condition c)) := by
    intro ts us h
    rw [h.length_eq]
    refine (near_readCondition _ h).bind ?_
    rintro condition _ rfl
    exact alikeIn_pure rfl
  cases h with
  | nil => exact condition .nil
  | label named rest => exact condition (.label named rest)
  | @token _ t ts us plain rest =>
    cases t with
    | result =>
      refine (alikeIn_lift (Source.near_readSymbol .equal rest)).bind fun ts us h => ?_
      refine (alikeIn_lift (Source.near_readInteger h)).bind ?_
      rintro ⟨value, ts⟩ ⟨_, us⟩ ⟨rfl, h⟩
      refine (AlikeIn.refl (liftM (Source.byteOf .resultValue value))).bind ?_
      rintro value _ rfl
      exact (alikeIn_lift (Source.near_readEnd h.eq_nil_iff)).bind fun _ _ _ => alikeIn_pure rfl
    | _ => exact condition (.token plain rest)

/-! ### Statements -/

/-- A line of a body with other label numbers. -/
def Piece.relabel (f : UInt32 → UInt32) : Piece → Piece
  | statement s => statement (s.relabel f)
  | guard g => guard g

/-- If nothing follows what was read, nothing follows in the other line, and the labels differ by the renaming. -/
def Acts {α β : Type} (g : α → β) (p : α × List Token) (r : β × List Token) : Prop :=
  (p.2 = [] ↔ r.2 = []) ∧ (p.2 = [] → r.1 = g p.1)

theorem near_readLabel (h : NearTokens f true ts us) :
    Alike SameKind (Acts f) (Source.readLabel ts) (Source.readLabel us) := by
  cases h with
  | nil => exact .fault rfl
  | label named rest =>
    refine .value ⟨rest.eq_nil_iff, fun last => named rfl ?_⟩
    exact (Nat.le_of_eq (congrArg List.length last)).trans (Nat.zero_le 1)
  | @token _ t ts us plain rest =>
    cases t with
    | label number => exact absurd rfl (plain rfl number)
    | _ => exact .fault rfl

theorem near_readTarget (h : NearTokens f true ts us) :
    Alike SameKind (Acts (Option.map f)) (readTarget ts) (readTarget us) := by
  have label : Alike SameKind (Acts (Option.map f)) ((Source.readLabel ts).map fun p => (some p.1, p.2))
      ((Source.readLabel us).map fun p => (some p.1, p.2)) :=
    (near_readLabel h).map fun _ _ _ _ related => ⟨related.1, fun last => congrArg some (related.2 last)⟩
  cases h with
  | nil => exact .value ⟨Iff.rfl, fun _ => rfl⟩
  | label => exact label
  | token => exact label

theorem near_called (code : Resolve Code.Action) (h : NearTokens f true ts us) :
    AlikeIn (Kept f) (code >>= fun a => pure (a, ts)) (code >>= fun a => pure (a, us)) := by
  refine (AlikeIn.refl code).bind ?_
  rintro action _ rfl
  exact alikeIn_pure ⟨rfl, h⟩

theorem near_readCall (mode : CallMode) (h : NearTokens f true ts us) :
    AlikeIn (Kept f) (readCall catalog mode ts) (readCall catalog mode us) := by
  refine (alikeIn_lift (Source.near_operand h)).bind ?_
  rintro ⟨operand, ts⟩ ⟨_, us⟩ ⟨rfl, h⟩
  dsimp only
  cases resolveCall? catalog mode operand with
  | none => exact alikeIn_refuse rfl
  | some code => exact near_called code h

theorem near_readPlain (h : NearTokens f true ts us) :
    AlikeIn (Kept f) (readPlain catalog ts) (readPlain catalog us) := by
  refine (alikeIn_lift (Source.near_operand h)).bind ?_
  rintro ⟨operand, ts⟩ ⟨_, us⟩ ⟨rfl, h⟩
  have assign : ∀ {ts us : List Token}, NearTokens f true ts us → AlikeIn (Kept f)
      (liftM (Source.Expr.read ts) >>= fun p => resolvePlace catalog operand >>= fun place =>
        resolveFormula catalog p.1 >>= fun formula => pure (Code.Action.assign place formula, p.2))
      (liftM (Source.Expr.read us) >>= fun p => resolvePlace catalog operand >>= fun place =>
        resolveFormula catalog p.1 >>= fun formula => pure (Code.Action.assign place formula, p.2)) := by
    intro ts us h
    refine (alikeIn_lift (Source.near_expr h)).bind ?_
    rintro ⟨e, ts⟩ ⟨_, us⟩ ⟨rfl, h⟩
    refine (AlikeIn.refl (resolvePlace catalog operand)).bind ?_
    rintro place _ rfl
    refine (AlikeIn.refl (resolveFormula catalog e)).bind ?_
    rintro formula _ rfl
    exact alikeIn_pure ⟨rfl, h⟩
  -- Without an equals sign the statement is a call, whatever follows the operand.
  dsimp only
  generalize resolveCall? catalog .task operand = call
  cases call with
  | none =>
    cases h with
    | nil => exact alikeIn_refuse rfl
    | label => exact alikeIn_refuse rfl
    | @token _ t ts us plain rest =>
      cases t with
      | sym s =>
        cases s with
        | equal => exact assign rest
        | _ => exact alikeIn_refuse rfl
      | _ => exact alikeIn_refuse rfl
  | some code =>
    cases h with
    | nil => exact near_called code .nil
    | label named rest => exact near_called code (.label named rest)
    | @token _ t ts us plain rest =>
      cases t with
      | sym s =>
        cases s with
        | equal => exact assign rest
        | _ => exact near_called code (.token plain rest)
      | _ => exact near_called code (.token plain rest)

theorem acts_of_kept {m m' : Resolve (Code.Action × List Token)} (h : AlikeIn (Kept f) m m')
    (plain : ∀ {s a rest s'}, Yields m s (a, rest) s' → a.jump? = none) :
    AlikeIn (Acts (Code.Action.relabel f)) m m' := by
  refine h.mono fun s p s' r yields related => ⟨related.2.eq_nil_iff, fun _ => ?_⟩
  rw [← related.1, Code.Action.relabel_of_jump? (plain yields)]

theorem near_readMarker (h : NearTokens f true ts us) :
    AlikeIn (Acts (Code.Action.relabel f)) (readMarker ts) (readMarker us) := by
  cases h with
  | nil => exact alikeIn_refuse rfl
  | label => exact alikeIn_refuse rfl
  | @token _ t ts us _ rest =>
    cases t with
    | ident word =>
      rw [readMarker, readMarker]
      split
      · refine (alikeIn_lift (Source.near_readInteger rest)).bind ?_
        rintro ⟨value, ts⟩ ⟨_, us⟩ ⟨rfl, h⟩
        refine (AlikeIn.refl (liftM (Source.byteOf .anchor value))).bind ?_
        rintro value _ rfl
        exact alikeIn_pure ⟨h.eq_nil_iff, fun _ => rfl⟩
      · split
        · refine (alikeIn_lift (near_readLabel rest)).bind fun p r related => ?_
          exact alikeIn_pure ⟨related.1, fun last => congrArg Code.Action.pause (related.2 last)⟩
        · exact alikeIn_refuse rfl
    | _ => exact alikeIn_refuse rfl

theorem near_readWord (word : String) (h : NearTokens f true ts us) :
    AlikeIn (Acts (Code.Action.relabel f)) (readWord catalog word ts) (readWord catalog word us) := by
  rw [readWord, readWord]
  split
  · refine (alikeIn_lift (near_readTarget h)).bind fun p r related => ?_
    exact alikeIn_pure ⟨related.1, fun last => congrArg Code.Action.goto (related.2 last)⟩
  split
  · refine (alikeIn_lift (near_readTarget h)).bind fun p r related => ?_
    exact alikeIn_pure ⟨related.1, fun last => congrArg Code.Action.stop (related.2 last)⟩
  split
  · refine (alikeIn_lift (near_readLabel h)).bind fun p r related => ?_
    exact alikeIn_pure ⟨related.1, fun last => congrArg Code.Action.gosub (related.2 last)⟩
  split
  · exact alikeIn_pure ⟨h.eq_nil_iff, fun _ => rfl⟩
  split
  · exact alikeIn_pure ⟨h.eq_nil_iff, fun _ => rfl⟩
  split
  · exact acts_of_kept (near_readCall .async h) readCall_jump?
  split
  · exact acts_of_kept (near_readCall .function h) readCall_jump?
  · exact acts_of_kept (near_readPlain (.token (fun _ _ => by simp) h)) readPlain_jump?

theorem near_readWhole {m m' : Resolve (Code.Action × List Token)} (h : AlikeIn (Acts (Code.Action.relabel f)) m m') :
    AlikeIn (fun p r => r = p.relabel f) (readWhole m) (readWhole m') := by
  refine h.bind ?_
  rintro ⟨action, ts⟩ ⟨action', us⟩ ⟨ends, same⟩
  exact (alikeIn_lift (Source.near_readEnd ends)).bind fun _ _ last =>
    alikeIn_pure (congrArg (fun a => Piece.statement (.action a)) (same last))

/-- A label may only be marked if nothing but a colon follows it. -/
theorem near_mark {m n : UInt32} (named : ts.length ≤ 1 → n = f m) (h : NearTokens f false ts us) :
    AlikeIn (fun p r => r = p.relabel f) (readPiece catalog (.label m :: ts)) (readPiece catalog (.label n :: us)) := by
  cases h with
  | nil => exact fun _ => .fault rfl
  | label => exact fun _ => .fault rfl
  | literal => exact fun _ => .fault rfl
  | @token _ t ts us _ rest =>
    cases t with
    | sym s =>
      cases s with
      | colon =>
        cases rest with
        | nil => exact fun _ => .value ⟨congrArg (fun l => Piece.statement (.mark l)) (named (Nat.le_refl 1)), rfl⟩
        | _ => exact fun _ => .fault rfl
      | _ => exact fun _ => .fault rfl
    | _ => exact fun _ => .fault rfl

theorem near_readPiece (h : NearTokens f true ts us) :
    AlikeIn (fun p r => r = p.relabel f) (readPiece catalog ts) (readPiece catalog us) := by
  have plain : ∀ {ts us : List Token}, NearTokens f true ts us →
      AlikeIn (fun p r => r = p.relabel f) (readWhole (readPlain catalog ts)) (readWhole (readPlain catalog us)) :=
    fun h => near_readWhole (acts_of_kept (near_readPlain h) readPlain_jump?)
  cases h with
  | nil => exact plain .nil
  | label named rest => exact near_mark (named rfl) rest
  | @token _ t ts us other rest =>
    cases t with
    | label number => exact absurd rfl (other rfl number)
    | ident word =>
      rw [readPiece, readPiece]
      split
      · refine (near_readGuard rest).bind ?_
        rintro guard _ rfl
        exact alikeIn_pure rfl
      · exact near_readWhole (near_readWord word rest)
    | sym s =>
      cases s with
      | atSign => exact near_readWhole (near_readMarker rest)
      | _ => exact plain (.token other rest)
    | _ => exact plain (.token other rest)

/-! ### Lines in front of a body -/

theorem alike_cons {α : Type} (first : Except Source.Fault α) {x y : Except Source.Fault (List α)}
    (rest : Alike SameKind Eq x y) : Alike SameKind Eq (first >>= fun a => x >>= fun as => .ok (a :: as))
      (first >>= fun a => y >>= fun as => .ok (a :: as)) := by
  refine (Alike.refl SameKind.refl first).bind fun a _ _ _ same => ?_
  subst same
  exact rest.bind fun as _ _ _ same => .value (congrArg (a :: ·) same)

theorem near_readStrings (h : NearTokens f true ts us) : Alike SameKind Eq (readStrings ts) (readStrings us) := by
  induction length : ts.length using Nat.strongRecOn generalizing ts us with
  | ind _ ih =>
    subst length
    cases h with
    | nil => exact .fault rfl
    | label => exact .fault rfl
    | @token _ t ts us _ rest =>
      cases t with
      | str text =>
        cases rest with
        | nil => exact .value rfl
        | label => exact .fault rfl
        | @token _ t ts us _ rest =>
          cases t with
          | sym s =>
            cases s with
            | comma =>
              exact alike_cons (.ok text) (ih ts.length (by simp only [List.length_cons]; omega) rest rfl)
            | _ => exact .fault rfl
          | _ => exact .fault rfl
      | _ => exact .fault rfl

theorem near_readValues (h : NearTokens f true ts us) : Alike SameKind Eq (readValues ts) (readValues us) := by
  induction length : ts.length using Nat.strongRecOn generalizing ts us with
  | ind _ ih =>
    subst length
    cases h with
    | nil => exact .fault rfl
    | label => exact .fault rfl
    | @token _ t ts us _ rest =>
      cases t with
      | int value =>
        cases rest with
        | nil => exact .refl .refl _
        | label => exact .refl .refl _
        | @token _ t ts us _ rest =>
          cases t with
          | sym s =>
            cases s with
            | comma =>
              exact alike_cons _ (ih ts.length (by simp only [List.length_cons]; omega) rest rfl)
            | _ => exact .refl .refl _
          | _ => exact .refl .refl _
      | sym s =>
        cases s with
        | minus =>
          cases rest with
          | nil => exact .fault rfl
          | label => exact .fault rfl
          | @token _ t ts us _ rest =>
            cases t with
            | int value =>
              cases rest with
              | nil => exact .refl .refl _
              | label => exact .refl .refl _
              | @token _ t ts us _ rest =>
                cases t with
                | sym s =>
                  cases s with
                  | comma =>
                    exact alike_cons _ (ih ts.length (by simp only [List.length_cons]; omega) rest rfl)
                  | _ => exact .refl .refl _
                | _ => exact .refl .refl _
            | _ => exact .fault rfl
        | _ => exact .fault rfl
      | _ => exact .fault rfl

namespace Preamble

/-- What the lines before a body have set, with other label numbers. -/
def relabel (f : UInt32 → UInt32) (p : Preamble) : Preamble := { p with entryLabel := p.entryLabel.map f }

theorem near_setEntry (p : Preamble) (h : NearTokens f true ts us) :
    Alike SameKind (Acts (relabel f)) (p.setEntry ts) ((p.relabel f).setEntry us) := by
  cases h with
  | nil => exact .fault rfl
  | @label _ m n ts us named rest =>
    refine .value ⟨rest.eq_nil_iff, fun last => ?_⟩
    have few : ts.length ≤ 1 := (Nat.le_of_eq (congrArg List.length last)).trans (Nat.zero_le 1)
    rw [named rfl few]
    rfl
  | @token _ t ts us plain rest =>
    cases t with
    | label number => exact absurd rfl (plain rfl number)
    | int value =>
      refine (Alike.refl SameKind.refl (wordIn .entryRange value)).bind fun address _ _ _ same => ?_
      subst same
      exact .value ⟨rest.eq_nil_iff, fun _ => rfl⟩
    | _ => exact .fault rfl

theorem near_setVariables (p : Preamble) (h : NearTokens f true ts us) :
    Alike SameKind (Acts (relabel f)) (p.setVariables ts) ((p.relabel f).setVariables us) := by
  refine (Source.near_readSymbol .leftParen h).bind fun ts us _ _ h => ?_
  refine (Source.near_readInteger h).bind ?_
  rintro ⟨count, ts⟩ ⟨_, us⟩ - - ⟨rfl, h⟩
  have zeros : ∀ {ts us : List Token}, NearTokens f true ts us → Alike SameKind (Acts (relabel f))
      (initial count.toNat [] >>= fun values => pure ({ p with vars := values }, ts))
      (initial count.toNat [] >>= fun values => pure ({ p.relabel f with vars := values }, us)) := by
    intro ts us h
    refine (Alike.refl SameKind.refl (initial count.toNat [])).bind fun values _ _ _ same => ?_
    subst same
    exact .value ⟨h.eq_nil_iff, fun _ => rfl⟩
  dsimp only
  split
  · exact .fault rfl
  refine (Source.near_readSymbol .rightParen h).bind fun ts us _ _ h => ?_
  cases h with
  | nil => exact zeros .nil
  | label named rest => exact zeros (.label named rest)
  | @token _ t ts us plain rest =>
    cases t with
    | sym s =>
      cases s with
      | equal =>
        refine (near_readValues rest).bind fun values _ _ _ same => ?_
        subst same
        refine (Alike.refl SameKind.refl (initial count.toNat values)).bind fun values _ _ _ same => ?_
        subst same
        exact .value ⟨Iff.rfl, fun _ => rfl⟩
      | _ => exact zeros (.token plain rest)
    | _ => exact zeros (.token plain rest)

/-- A number after an equals sign is the same in both lines. -/
theorem near_setNumber {α : Type} (p : Preamble) (check : Int → Except Source.Fault α) (write : Preamble → α → Preamble)
    (apart : ∀ p a, (write p a).relabel f = write (p.relabel f) a) (h : NearTokens f true ts us) :
    Alike SameKind (Acts (relabel f))
      (Source.readSymbol .equal ts >>= fun ts => Source.readInteger ts >>= fun r =>
        check r.1 >>= fun a => pure (write p a, r.2))
      (Source.readSymbol .equal us >>= fun ts => Source.readInteger ts >>= fun r =>
        check r.1 >>= fun a => pure (write (p.relabel f) a, r.2)) := by
  refine (Source.near_readSymbol .equal h).bind fun ts us _ _ h => ?_
  refine (Source.near_readInteger h).bind ?_
  rintro ⟨value, ts⟩ ⟨_, us⟩ - - ⟨rfl, h⟩
  refine (Alike.refl SameKind.refl (check value)).bind fun a _ _ _ same => ?_
  subst same
  exact .value ⟨h.eq_nil_iff, fun _ => (apart p a).symm⟩

theorem near_set (p : Preamble) (key : String) (h : NearTokens f true ts us) :
    Alike SameKind (Acts (relabel f)) (p.set catalog key ts) ((p.relabel f).set catalog key us) := by
  rw [set, set]
  split
  · exact near_setNumber p (fun value => wordIn (.instanceRange value) value) (fun p a => { p with instances := a })
      (fun _ _ => rfl) h
  split
  · exact near_setNumber p (Source.byteOf .kind) (fun p a => { p with kind := a }) (fun _ _ => rfl) h
  split
  · exact (Source.near_readSymbol .equal h).bind fun ts us _ _ h => near_setEntry p h
  split
  · refine (Source.near_readSymbol .equal h).bind fun ts us _ _ h => ?_
    refine (near_readStrings h).bind fun strings _ _ _ same => ?_
    subst same
    exact .value ⟨Iff.rfl, fun _ => rfl⟩
  split
  · exact near_setVariables p h
  · refine (Alike.refl SameKind.refl (catalog.resolve .attr key)).bind fun index _ _ _ same => ?_
    subst same
    exact near_setNumber p (Source.byteOf .attributeValue)
      (fun p a => { p with attributes := p.attributes.set index a }) (fun _ _ => rfl) h

theorem near_read (p : Preamble) {xs ys : List Char}
    (h : Alike SameKind (NearTokens f true) (Source.tokens xs) (Source.tokens ys)) :
    Alike SameKind (fun a b => b = a.relabel f) (p.read catalog xs) ((p.relabel f).read catalog ys) := by
  refine h.bind fun ts us _ _ near => ?_
  cases near with
  | nil => exact .fault rfl
  | label => exact .fault rfl
  | @token _ t ts us _ rest =>
    cases t with
    | ident key =>
      refine (near_set p key rest).bind ?_
      rintro ⟨p, ts⟩ ⟨p', us⟩ - - ⟨ends, same⟩
      exact (Source.near_readEnd ends).bind fun _ _ _ _ last => .value (same last)
    | _ => exact .fault rfl

end Preamble

end Assembly

end EventScript
