import EventScript.Proofs.LabelReading
import EventScript.Proofs.LabelSlots
import EventScript.Proofs.Renumbering
import Mathlib.Data.List.Basic

/-!
# Bodies with other label numbers

The bytes of a statement depend on the addresses of its labels and not on their numbers, and these addresses are the
same after a renaming that keeps labels apart (`address?_relabel`). So the states of assembly can be renamed as a whole
(`State.relabel`): a line and the renamed line lead from a state and the renamed one to such states again
(`alike_step`). Only the fault that is reported may be another one of its kind (`Fault.kind`), since which one of
several missing labels is met first depends on their numbers.
-/

namespace EventScript

open Source (Line Token NearTokens ReadAlike)

/-- What matters of a fault if labels are only names: where it is, and the name that is unknown. -/
inductive Fault.Kind where
  | line (map : String) (number : Nat) (unknown : Option String)
  | unresolved (map unit : String)
  | other (e : Fault)
  deriving DecidableEq, Repr

/-- The kind of a fault. -/
def Fault.kind : Fault → Fault.Kind
  | .line map number cause => .line map number cause.unknown?
  | .unresolvedLabel map unit _ => .unresolved map unit
  | e => .other e

/-- Two faults are of one kind. -/
def Fault.SameKind (e d : Fault) : Prop := e.kind = d.kind

theorem Fault.SameKind.refl (e : Fault) : e.SameKind e := rfl

variable {f : UInt32 → UInt32}

/-! ### Code -/

namespace Code

theorem relabelBlock_eq_map (ss : List Statement) : relabelBlock f ss = ss.map (Statement.relabel f) := by
  induction ss with
  | nil => rfl
  | cons s ss ih => rw [relabelBlock, ih, List.map_cons]

theorem relabelBlock_reverse (ss : List Statement) : relabelBlock f ss.reverse = (relabelBlock f ss).reverse := by
  rw [relabelBlock_eq_map, relabelBlock_eq_map, List.map_reverse]

theorem Action.encode_relabel (address : UInt32 → UInt32) (a : Action) :
    (a.relabel f).encode address = a.encode (address ∘ f) := by
  cases a with
  | goto target => cases target <;> rfl
  | stop target => cases target <;> rfl
  | _ => rfl

theorem Action.target?_relabel (a : Action) : (a.relabel f).target? = a.target?.map f := by
  cases a <;> rfl

mutual

theorem Statement.encode_relabel (address : UInt32 → UInt32) :
    ∀ s : Statement, (s.relabel f).encode address = s.encode (address ∘ f)
  | .action a => by rw [Statement.relabel, Statement.encode, Statement.encode, a.encode_relabel]
  | .block guard body => by
    rw [Statement.relabel, Statement.encode, Statement.encode, encodeBlock_relabel address body]
  | .mark _ => by rw [Statement.relabel, Statement.encode, Statement.encode]

theorem encodeBlock_relabel (address : UInt32 → UInt32) :
    ∀ ss : List Statement, encodeBlock address (relabelBlock f ss) = encodeBlock (address ∘ f) ss
  | [] => by rw [relabelBlock, encodeBlock, encodeBlock]
  | s :: ss => by
    rw [relabelBlock, encodeBlock, encodeBlock, s.encode_relabel address, encodeBlock_relabel address ss]

end

/-- A statement takes as many bytes as before. -/
theorem Statement.size_relabel (s : Statement) : (s.relabel f).size = s.size := by
  rw [← Statement.length_encode (fun _ => 0), Statement.encode_relabel, Statement.length_encode]

theorem blockSize_relabel (ss : List Statement) : blockSize (relabelBlock f ss) = blockSize ss := by
  rw [← length_encodeBlock id, encodeBlock_relabel, length_encodeBlock]

mutual

theorem Statement.targets_relabel : ∀ s : Statement, (s.relabel f).targets = s.targets.map f
  | .action a => by
    rw [Statement.relabel, Statement.targets, Statement.targets, a.target?_relabel, Option.toList_map]
  | .block _ body => by rw [Statement.relabel, Statement.targets, Statement.targets, blockTargets_relabel body]
  | .mark _ => by rw [Statement.relabel, Statement.targets, Statement.targets, List.map_nil]

theorem blockTargets_relabel : ∀ ss : List Statement, blockTargets (relabelBlock f ss) = (blockTargets ss).map f
  | [] => by rw [relabelBlock, blockTargets, List.map_nil]
  | s :: ss => by
    rw [relabelBlock, blockTargets, blockTargets, s.targets_relabel, blockTargets_relabel ss, List.map_append]

end

mutual

theorem Statement.marks_relabel (start : Nat) :
    ∀ s : Statement, (s.relabel f).marks start = (s.marks start).map (Prod.map f id)
  | .action a => by rw [Statement.relabel, Statement.marks, Statement.marks, List.map_nil]
  | .block guard body => by
    rw [Statement.relabel, Statement.marks, Statement.marks, blockMarks_relabel (start + guard.size) body]
  | .mark _ => by rw [Statement.relabel, Statement.marks, Statement.marks, List.map_singleton, Prod.map, id]

theorem blockMarks_relabel (start : Nat) :
    ∀ ss : List Statement, blockMarks start (relabelBlock f ss) = (blockMarks start ss).map (Prod.map f id)
  | [] => by rw [relabelBlock, blockMarks, List.map_nil]
  | s :: ss => by
    rw [relabelBlock, blockMarks, blockMarks, s.marks_relabel start, s.size_relabel,
      blockMarks_relabel (start + s.size) ss, List.map_append]

end

end Code

namespace Source

theorem NearTokens.heading_iff {ts us : List Token} (h : NearTokens f true ts us) {word text : String} :
    ts = [.ident word, .str text] ↔ us = [.ident word, .str text] := by
  constructor <;> rintro rfl
  all_goals
    cases h with
    | token _ rest =>
      cases rest with
      | token _ rest =>
        cases rest with
        | nil => rfl

theorem ReadAlike.heading_iff {xs ys : List Char} (h : ReadAlike f xs ys) {word text : String} :
    Source.tokens xs = .ok [.ident word, .str text] ↔ Source.tokens ys = .ok [.ident word, .str text] := by
  have alike : Alike SameKind (NearTokens f true) (Source.tokens xs) (Source.tokens ys) := h.tokens
  generalize Source.tokens xs = x, Source.tokens ys = y at alike
  cases alike with
  | value near => rw [Except.ok.injEq, Except.ok.injEq, near.heading_iff]
  | fault => simp

end Source

namespace Assembly

variable {catalog : Catalog} {map name : String}

/-! ### Units -/

section

variable (injective : Function.Injective f)

include injective

/-- A label has the address that it had before. -/
theorem address?_relabel (marks : List (UInt32 × Nat)) (label : UInt32) :
    address? (marks.map (Prod.map f id)) (f label) = address? marks label := by
  simp only [address?]
  induction marks with
  | nil => rfl
  | cons mark marks ih =>
    have same : (f label == f mark.1) = (label == mark.1) := by
      rw [Bool.eq_iff_iff, beq_iff_eq, beq_iff_eq, injective.eq_iff]
    rw [List.map_cons, List.lookup_cons, List.lookup_cons, ih]
    simp only [Prod.map, id, same]

theorem lowAddress_relabel (marks : List (UInt32 × Nat)) :
    lowAddress (marks.map (Prod.map f id)) ∘ f = lowAddress marks := by
  funext label
  rw [Function.comp_apply, lowAddress, lowAddress, address?_relabel injective]

theorem alike_entryOf (marks : List (UInt32 × Nat)) (p : Preamble) : Alike Fault.SameKind Eq
    (entryOf map name marks p) (entryOf map name (marks.map (Prod.map f id)) (p.relabel f)) := by
  rw [entryOf, entryOf, Preamble.relabel]
  cases p.entryLabel with
  | none => exact .value rfl
  | some label =>
    simp only [Option.map_some, address?_relabel injective]
    cases address? marks label with
    | none => exact .fault rfl
    | some address => exact .value rfl

/-- Either all labels have addresses or some label has none, before and after. -/
theorem alike_checkLabels (marks : List (UInt32 × Nat)) (labels : List UInt32) : Alike Fault.SameKind Eq
    (checkLabels map name marks (Code.ascending labels)).result
    (checkLabels map name (marks.map (Prod.map f id)) (Code.ascending (labels.map f))).result := by
  have same : (checkLabels map name marks (Code.ascending labels)).result = .ok () ↔
      (checkLabels map name (marks.map (Prod.map f id)) (Code.ascending (labels.map f))).result = .ok () := by
    simp only [checkLabels_eq_ok, Code.mem_ascending, List.forall_mem_map, address?_relabel injective]
  cases first : (checkLabels map name marks (Code.ascending labels)).result with
  | ok =>
    rw [same.mp first]
    exact .value rfl
  | error e =>
    cases second : (checkLabels map name (marks.map (Prod.map f id)) (Code.ascending (labels.map f))).result with
    | ok => cases first.symm.trans (same.mpr second)
    | error d =>
      obtain ⟨l, -, -, rfl⟩ := checkLabels_eq_error first
      obtain ⟨l', -, -, rfl⟩ := checkLabels_eq_error second
      exact .fault rfl

/-- A complete body gives the same unit as before, or labels are missing in both. -/
theorem alike_unitOf (p : Preamble) (strings : List String) (body : List Code.Statement) : Alike Fault.SameKind Eq
    (unitOf map name p strings body).result
    (unitOf map name (p.relabel f) strings (Code.relabelBlock f body)).result := by
  have labels : Code.blockTargets (Code.relabelBlock f body) ++
      ((Code.blockMarks 0 body).map (Prod.map f id)).map Prod.fst =
      (Code.blockTargets body ++ (Code.blockMarks 0 body).map Prod.fst).map f := by
    rw [Code.blockTargets_relabel, List.map_append, List.map_map, List.map_map]
    rfl
  simp only [unitOf, Traced.result_bind, Code.blockMarks_relabel, labels]
  refine (alike_checkLabels injective _ _).bind fun _ _ _ _ _ => ?_
  refine (alike_entryOf injective _ p).bind ?_
  rintro entry _ - - rfl
  rw [Code.encodeBlock_relabel, lowAddress_relabel injective]
  exact .value rfl

end

/-! ### States -/

/-- An open block with other label numbers. -/
def Frame.relabel (f : UInt32 → UInt32) (frame : Frame) : Frame := ⟨frame.guard, Code.relabelBlock f frame.before⟩

/-- A body with other label numbers. -/
def Body.relabel (f : UInt32 → UInt32) (b : Body) : Body :=
  { b with
    marked := b.marked.map f
    frames := b.frames.map (Frame.relabel f)
    done := Code.relabelBlock f b.done }

/-- The current unit with other label numbers. -/
def Phase.relabel (f : UInt32 → UInt32) : Phase → Phase
  | idle => idle
  | preamble name p => preamble name (p.relabel f)
  | body name p b => body name (p.relabel f) (b.relabel f)

/-- A state with other label numbers in the current unit. -/
def State.relabel (f : UInt32 → UInt32) (s : State) : State := { s with phase := s.phase.relabel f }

theorem Body.settle_relabel (b : Body) : (b.relabel f).settle = b.settle.relabel f := by
  rcases b with ⟨_, _, _, _, _ | _⟩ <;> rfl

theorem Body.closeBlock?_relabel (b : Body) :
    (b.relabel f).closeBlock? = b.closeBlock?.map (Except.map (Body.relabel f)) := by
  rcases b with ⟨strings, marked, _ | ⟨frame, frames⟩, done, pending⟩
  · rfl
  · simp only [closeBlock?, relabel, List.map_cons, Option.map_some, ← Code.relabelBlock_reverse,
      Code.blockSize_relabel]
    split <;> rfl

/-- A label is marked twice before and after. -/
theorem Body.alike_add (injective : Function.Injective f) (b : Body) (piece : Piece) :
    Alike Source.SameKind (fun b c => c = b.relabel f) (b.add piece) ((b.relabel f).add (piece.relabel f)) := by
  cases piece with
  | guard guard => exact .value rfl
  | statement s =>
    cases s with
    | action a => exact .value rfl
    | block guard body => exact .value rfl
    | mark label =>
      have same : (b.marked.map f).contains (f label) = b.marked.contains label := by
        rw [Bool.eq_iff_iff, List.contains_iff_mem, List.contains_iff_mem, List.mem_map_of_injective injective]
      simp only [Piece.relabel, Code.Statement.relabel, add, relabel, same]
      split
      · exact .fault rfl
      · exact .value rfl

theorem alike_blamed {α β : Type} {R : α → β → Prop} {x : Except Source.Fault α} {y : Except Source.Fault β}
    (h : Alike Source.SameKind R x y) (map : String) (number : Nat) :
    Alike Fault.SameKind R (x.mapError (Fault.line map number)) (y.mapError (Fault.line map number)) :=
  h.mapError fun _ _ => congrArg (Fault.Kind.line map number)

/-! ### Steps -/

/-- The lines of one number are read alike. -/
structure LinesAlike (f : UInt32 → UInt32) (l l' : Line) : Prop where
  number : l'.number = l.number
  read : ReadAlike f l.text l'.text

variable {l l' : Line}

theorem alike_begin (s : State) (h : LinesAlike f l l') :
    Alike Fault.SameKind (fun s t => t = s.relabel f) (s.begin map l) ((s.relabel f).begin map l') := by
  by_cases unit : ∃ name, Source.tokens l.text = .ok [.ident "unit", .str name]
  · obtain ⟨name, tokens⟩ := unit
    rw [begin_of_tokens tokens, begin_of_tokens (h.read.heading_iff.mp tokens), h.number]
    exact .value rfl
  · rw [not_exists] at unit
    rw [begin_of_other unit, begin_of_other fun name found => unit name (h.read.heading_iff.mpr found), h.number]
    exact .fault rfl

theorem alike_prepare (s : State) (p : Preamble) (h : LinesAlike f l l') :
    Alike Fault.SameKind (fun s t => t = s.relabel f) (s.prepare catalog map name p l)
      ((s.relabel f).prepare catalog map name (p.relabel f) l') := by
  rw [State.prepare, State.prepare, h.number]
  by_cases brace : l.text = ['{']
  · rw [if_pos brace, if_pos ((h.read.brace _ (by decide)).mp brace)]
    exact .value rfl
  · rw [if_neg brace, if_neg (mt (h.read.brace _ (by decide)).mpr brace)]
    have alike : Alike Source.SameKind (fun a b => b = a.relabel f) (p.read catalog l.text)
        ((p.relabel f).read catalog l'.text) := Preamble.near_read p h.read.tokens
    generalize p.read catalog l.text = x, (p.relabel f).read catalog l'.text = y at alike
    cases alike with
    | value related =>
      subst related
      exact .value rfl
    | fault related => exact .fault (congrArg (Fault.Kind.line map l.number) related)

theorem alike_addUnit (s : State) (u : ScriptUnit) :
    Alike Fault.SameKind (fun s t => t = s.relabel f) (s.addUnit map u) ((s.relabel f).addUnit map u) := by
  have same : (s.relabel f).addUnit map u = s.addUnit map u := rfl
  rw [same, State.addUnit]
  dsimp only
  split
  · exact .value rfl
  · exact .fault rfl

theorem alike_addLine (injective : Function.Injective f) (s : State) (p : Preamble) (b : Body) (h : LinesAlike f l l') :
    Alike Fault.SameKind (fun s t => t = s.relabel f) (s.addLine catalog map name p b l).result
      ((s.relabel f).addLine catalog map name (p.relabel f) (b.relabel f) l').result := by
  simp only [State.addLine, Traced.result_bind, h.number]
  refine (alike_blamed h.read.tokens map l.number).bind fun ts us _ _ near => ?_
  refine (alike_blamed (near_readPiece near b.strings) map l.number).bind ?_
  rintro ⟨piece, strings⟩ ⟨_, _⟩ - - ⟨rfl, rfl⟩
  refine (alike_blamed (Body.alike_add injective { b with strings := strings } piece) map l.number).bind ?_
  rintro b _ - - rfl
  exact .value rfl

theorem alike_continueBody (injective : Function.Injective f) (s : State) (p : Preamble) (b : Body)
    (h : LinesAlike f l l') :
    Alike Fault.SameKind (fun s t => t = s.relabel f) (s.continueBody catalog map name p b l).result
      ((s.relabel f).continueBody catalog map name (p.relabel f) (b.relabel f) l').result := by
  rw [State.continueBody, State.continueBody, h.number]
  by_cases left : l.text = ['{']
  · rw [if_pos left, if_pos ((h.read.brace _ (by decide)).mp left)]
    have pending : (b.relabel f).pending = b.pending := rfl
    rw [pending]
    cases b.pending with
    | none => exact .fault rfl
    | some guard => exact .value rfl
  rw [if_neg left, if_neg (mt (h.read.brace _ (by decide)).mpr left)]
  by_cases right : l.text = ['}']
  · rw [if_pos right, if_pos ((h.read.brace _ (by decide)).mp right)]
    simp only [Body.settle_relabel, Body.closeBlock?_relabel]
    cases b.settle.closeBlock? with
    | some ending =>
      have same : Alike Source.SameKind (fun b c => c = b.relabel f) ending (ending.map (Body.relabel f)) := by
        cases ending with
        | ok b => exact .value rfl
        | error e => exact .fault rfl
      simp only [Option.map_some, Traced.result_bind]
      refine (alike_blamed same map l.number).bind ?_
      rintro b _ - - rfl
      exact .value rfl
    | none =>
      simp only [Option.map_none, Traced.result_bind, Body.relabel, ← Code.relabelBlock_reverse]
      refine (alike_unitOf injective p _ _).bind ?_
      rintro u _ - - rfl
      exact alike_addUnit { s with line := l.number } u
  · rw [if_neg right, if_neg (mt (h.read.brace _ (by decide)).mpr right), Body.settle_relabel]
    exact alike_addLine injective s p b.settle h

/-- Lines that are read alike lead from a state and the renamed state to such states, or to faults of one kind. -/
theorem alike_step (injective : Function.Injective f) (s : State) (h : LinesAlike f l l') :
    Alike Fault.SameKind (fun s t => t = s.relabel f) (s.step catalog map l).result
      ((s.relabel f).step catalog map l').result := by
  have phase : (s.relabel f).phase = s.phase.relabel f := rfl
  rw [State.step, State.step, phase]
  cases s.phase with
  | idle => exact alike_begin s h
  | preamble name p => exact alike_prepare s p h
  | body name p b => exact alike_continueBody injective s p b h

theorem finish_relabel (s : State) : (s.relabel f).finish map = s.finish map := by
  rcases s with ⟨line, units, offset, _ | _ | _⟩ <;> rfl

end Assembly

end EventScript
