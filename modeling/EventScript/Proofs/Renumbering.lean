import EventScript.Proofs.NumberedLines
import EventScript.Proofs.Steps

/-!
# Assembly with other line numbers and after other units

The numbers of lines show in faults only, and the units that are complete show in the place of the code of later
units only. `Behind f us n s t` says that `t` is a state like `s`, but with line numbers seen through `f` and after
units `us` with `n` bytes of code. From such states the same lines lead to such states or to the same fault
(`agree_step`, `agree_foldlM`), as long as there is room for the code.
-/

namespace EventScript

/-- A fault with another line number. -/
def Fault.renumber (f : Nat → Nat) : Fault → Fault
  | .line map n cause => .line map (f n) cause
  | e => e

/-- A unit with its code further back. -/
def ScriptUnit.behind (n : Nat) (u : ScriptUnit) : ScriptUnit :=
  { u with header := { u.header with scriptOffset := u.header.scriptOffset + UInt32.ofNat n } }

theorem ScriptUnit.toNat_scriptOffset_behind {n : Nat} {u : ScriptUnit}
    (small : u.header.scriptOffset.toNat + n < 4294967296) :
    (u.behind n).header.scriptOffset.toNat = u.header.scriptOffset.toNat + n := by
  have moved : (u.behind n).header.scriptOffset = u.header.scriptOffset + UInt32.ofNat n := rfl
  rw [moved, UInt32.toNat_add, UInt32.toNat_ofNat']
  omega

namespace Assembly

open Source (Line)

variable {α β γ δ : Type} {f : Nat → Nat} {R : α → β → Prop} {S : γ → δ → Prop}

/-- Values are related, and faults are the same but for the numbers of their lines. -/
inductive Agree (f : Nat → Nat) (R : α → β → Prop) : Except Fault α → Except Fault β → Prop where
  | value {a : α} {b : β} (related : R a b) : Agree f R (.ok a) (.ok b)
  | fault (e : Fault) : Agree f R (.error e) (.error (e.renumber f))

theorem Agree.bind {x : Except Fault α} {y : Except Fault β} {g : α → Except Fault γ} {h : β → Except Fault δ}
    (first : Agree f R x y) (rest : ∀ a b, x = .ok a → R a b → Agree f S (g a) (h b)) :
    Agree f S (x >>= g) (y >>= h) := by
  cases first with
  | value related => exact rest _ _ rfl related
  | fault e => exact .fault e

theorem Agree.mono {R' : α → β → Prop} {x : Except Fault α} {y : Except Fault β} (h : Agree f R x y)
    (weaker : ∀ a b, R a b → R' a b) : Agree f R' x y := by
  cases h with
  | value related => exact .value (weaker _ _ related)
  | fault e => exact .fault e

theorem Agree.of_ok {x : Except Fault α} {y : Except Fault β} {a : α} (h : Agree f R x y) (ok : x = .ok a) :
    ∃ b, y = .ok b ∧ R a b := by
  cases h with
  | value related =>
    cases ok
    exact ⟨_, rfl, related⟩
  | fault e => cases ok

theorem Agree.of_error {x : Except Fault α} {y : Except Fault β} {e : Fault} (h : Agree f R x y)
    (failed : x = .error e) : y = .error (e.renumber f) := by
  cases h with
  | value related => cases failed
  | fault e => cases failed; rfl

theorem agree_mapError (x : Except Source.Fault α) (map : String) (n : Nat) :
    Agree f Eq (x.mapError (Fault.line map n)) (x.mapError (Fault.line map (f n))) := by
  cases x with
  | ok a => exact .value rfl
  | error e => exact .fault (.line map n e)

/-! ### Units -/

variable {catalog : Catalog} {map name : String} {p : Preamble}

theorem agree_checkLabels (marks : List (UInt32 × Nat)) (labels : List UInt32) :
    Agree f Eq (checkLabels map name marks labels).result (checkLabels map name marks labels).result := by
  induction labels with
  | nil => exact .value rfl
  | cons label labels ih =>
    rw [checkLabels, Traced.result_bind]
    refine Agree.bind (R := Eq) ?_ fun _ _ _ _ => ih
    rw [checkLabel]
    cases address? marks label with
    | none => exact .fault _
    | some address =>
      rw [Traced.result_noteIf]
      exact .value rfl

theorem agree_entryOf (marks : List (UInt32 × Nat)) :
    Agree f Eq (entryOf map name marks p) (entryOf map name marks p) := by
  rw [entryOf]
  cases p.entryLabel with
  | none => exact .value rfl
  | some label =>
    dsimp only
    cases address? marks label with
    | none => exact .fault _
    | some address => exact .value rfl

/-- A fault that a complete body leads to has no line. -/
theorem agree_unitOf (strings : List String) (body : List Code.Statement) :
    Agree f Eq (unitOf map name p strings body).result (unitOf map name p strings body).result := by
  simp only [unitOf, Traced.result_bind]
  refine (agree_checkLabels _ _).bind fun _ _ _ _ => (agree_entryOf _).bind ?_
  rintro entry _ - rfl
  exact .value rfl

/-! ### Steps -/

/-- The state `t` is like `s`, with other line numbers and after other units. -/
structure Behind (f : Nat → Nat) (us : List ScriptUnit) (n : Nat) (s t : State) : Prop where
  phase : t.phase = s.phase
  line : s.phase ≠ .idle → t.line = f s.line
  units : t.units = us ++ s.units.map (ScriptUnit.behind n)
  offset : t.offset = n + s.offset

variable {us : List ScriptUnit} {n : Nat} {s t : State}

/-- Both go on with the current unit. -/
theorem Behind.go (h : Behind f us n s t) (line : Nat) (phase : Phase) :
    Behind f us n { s with line := line, phase := phase } { t with line := f line, phase := phase } :=
  ⟨rfl, fun _ => rfl, h.units, h.offset⟩

theorem begin_of_tokens {l : Line} (h : Source.tokens l.text = .ok [.ident "unit", .str name]) (s : State) :
    s.begin map l = .ok { s with line := l.number, phase := .preamble name {} } := by
  rw [State.begin, h]
  rfl

theorem begin_of_other {l : Line} (h : ∀ name, Source.tokens l.text ≠ .ok [.ident "unit", .str name]) (s : State) :
    s.begin map l = .error (.line map l.number (.expectedUnit (String.ofList l.text))) := by
  rw [State.begin]
  split
  · next name found => exact absurd found (h name)
  · rfl

theorem agree_begin (h : Behind f us n s t) (l : Line) :
    Agree f (Behind f us n) (s.begin map l) (t.begin map (l.renumber f)) := by
  by_cases unit : ∃ name, Source.tokens l.text = .ok [.ident "unit", .str name]
  · obtain ⟨name, tokens⟩ := unit
    rw [begin_of_tokens tokens, begin_of_tokens (l := l.renumber f) tokens]
    exact .value (h.go _ _)
  · rw [not_exists] at unit
    rw [begin_of_other unit, begin_of_other (l := l.renumber f) unit]
    exact .fault _

theorem agree_prepare (h : Behind f us n s t) (l : Line) :
    Agree f (Behind f us n) (s.prepare catalog map name p l) (t.prepare catalog map name p (l.renumber f)) := by
  have text : (l.renumber f).text = l.text := rfl
  simp only [State.prepare, text]
  by_cases brace : l.text = ['{']
  · rw [if_pos brace, if_pos brace]
    exact .value (h.go _ _)
  · rw [if_neg brace, if_neg brace]
    cases p.read catalog l.text with
    | ok p => exact .value (h.go _ _)
    | error e => exact .fault _

/-- A unit is added behind the others if there is room, and is refused by both if there is none. -/
theorem agree_addUnit (h : Behind f us n s t) (u : ScriptUnit)
    (room : ∀ s', s.addUnit map u = .ok s' → s'.phase = .idle → n + s'.offset ≤ 4294967295) :
    Agree f (Behind f us n) (s.addUnit map u) (t.addUnit map u) := by
  have place : UInt32.ofNat t.offset = UInt32.ofNat s.offset + UInt32.ofNat n := by
    rw [h.offset, UInt32.ofNat_add, UInt32.add_comm]
  simp only [State.addUnit] at room ⊢
  by_cases fits : s.offset + u.header.scriptLength.toNat ≤ 4294967295
  · rw [if_pos fits] at room ⊢
    have fits' : t.offset + u.header.scriptLength.toNat ≤ 4294967295 := by
      rw [h.offset, Nat.add_assoc]
      exact room _ rfl rfl
    rw [if_pos fits']
    refine .value ⟨rfl, fun started => absurd rfl started, ?_, ?_⟩
    · simp only [h.units, place, List.map_append, List.map_singleton, ScriptUnit.behind, List.append_assoc]
    · simp only [h.offset, Nat.add_assoc]
  · rw [if_neg fits, if_neg (by rw [h.offset]; omega)]
    exact .fault (.bounds (.codeTooLarge map))

theorem agree_addLine (h : Behind f us n s t) (b : Body) (l : Line) :
    Agree f (Behind f us n) (s.addLine catalog map name p b l).result
      (t.addLine catalog map name p b (l.renumber f)).result := by
  simp only [State.addLine, Traced.result_bind]
  refine (agree_mapError _ map l.number).bind ?_
  rintro ts _ - rfl
  refine (agree_mapError _ map l.number).bind ?_
  rintro ⟨piece, strings⟩ _ - rfl
  refine (agree_mapError _ map l.number).bind ?_
  rintro b _ - rfl
  exact .value (h.go _ _)

theorem agree_continueBody (h : Behind f us n s t) {b : Body} (phase : s.phase = .body name p b) (l : Line)
    (room : ∀ s', (s.continueBody catalog map name p b l).result = .ok s' → s'.phase = .idle →
      n + s'.offset ≤ 4294967295) :
    Agree f (Behind f us n) (s.continueBody catalog map name p b l).result
      (t.continueBody catalog map name p b (l.renumber f)).result := by
  have text : (l.renumber f).text = l.text := rfl
  simp only [State.continueBody, text] at room ⊢
  by_cases left : l.text = ['{']
  · rw [if_pos left, if_pos left]
    cases b.pending with
    | none => exact .fault _
    | some guard => exact .value ⟨rfl, fun _ => h.line (by rw [phase]; exact Phase.noConfusion), h.units, h.offset⟩
  · rw [if_neg left] at room ⊢
    rw [if_neg left]
    by_cases right : l.text = ['}']
    · rw [if_pos right] at room ⊢
      rw [if_pos right]
      cases closed : b.settle.closeBlock? with
      | some ending =>
        simp only [Traced.result_bind]
        refine (agree_mapError ending map l.number).bind ?_
        rintro b _ - rfl
        exact .value (h.go _ _)
      | none =>
        simp only [closed, Traced.result_bind] at room ⊢
        refine (agree_unitOf _ _).bind ?_
        rintro u _ made rfl
        have lines : Behind f us n { s with line := l.number } { t with line := f l.number } :=
          ⟨h.phase, fun _ => rfl, h.units, h.offset⟩
        refine agree_addUnit lines u fun s' added => room s' ?_
        rw [made]
        exact added
    · rw [if_neg right, if_neg right]
      exact agree_addLine h _ l

/-- The same line leads to like states or to the same fault. -/
theorem agree_step (h : Behind f us n s t) (l : Line)
    (room : ∀ s', (s.step catalog map l).result = .ok s' → s'.phase = .idle → n + s'.offset ≤ 4294967295) :
    Agree f (Behind f us n) (s.step catalog map l).result (t.step catalog map (l.renumber f)).result := by
  rw [State.step] at room ⊢
  rw [State.step, h.phase]
  cases phase : s.phase with
  | idle => exact agree_begin h l
  | preamble name p => exact agree_prepare h l
  | body name p b =>
    rw [phase] at room
    exact agree_continueBody h phase l room

/-- The same lines lead to like states or to the same fault. -/
theorem agree_foldlM : ∀ {ls : List Line} {s t : State}, Behind f us n s t →
    (∀ front s', front <+: ls → (front.foldlM (State.step catalog map) s).result = .ok s' → s'.phase = .idle →
      n + s'.offset ≤ 4294967295) →
    Agree f (Behind f us n) (ls.foldlM (State.step catalog map) s).result
      ((ls.map (Line.renumber f)).foldlM (State.step catalog map) t).result
  | [], _, _, h, _ => .value h
  | l :: ls, s, t, h, room => by
    rw [List.map_cons, List.foldlM_cons, List.foldlM_cons, Traced.result_bind, Traced.result_bind]
    have first := agree_step h l fun s' step => room [l] s' (by simp)
      (Traced.result_foldlM_cons.mpr ⟨s', step, rfl⟩)
    refine first.bind fun s' t' step related => agree_foldlM related fun front s'' part run => ?_
    exact room (l :: front) s'' (List.cons_prefix_cons.mpr ⟨rfl, part⟩) (Traced.result_foldlM_cons.mpr ⟨s', step, run⟩)

theorem agree_finish (h : Behind f us n s t) :
    Agree f (fun vs ws => ws = us ++ vs.map (ScriptUnit.behind n)) (s.finish map) (t.finish map) := by
  rw [State.finish, State.finish, h.phase]
  cases phase : s.phase with
  | idle => exact .value h.units
  | preamble name p =>
    rw [h.line (by rw [phase]; exact Phase.noConfusion)]
    exact .fault _
  | body name p b =>
    rw [h.line (by rw [phase]; exact Phase.noConfusion)]
    exact .fault _

end Assembly

end EventScript
