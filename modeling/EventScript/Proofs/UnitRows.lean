import EventScript.Proofs.Renumbering
import EventScript.Proofs.Rereading
import EventScript.Proofs.Stability
import Mathlib.Data.List.Infix

/-!
# Texts in a row

A text that is assembled after another one gives the same units, with their code behind that of the first text, or
the same fault, with its line counted from the beginning of the first text (`assemble_append`). Nothing else of a unit
reaches the next one: when a text is complete, assembly stands where it began, but for the units and the length of
their code.
-/

namespace EventScript.Assembly

open Source (Line)

variable {catalog : Catalog} {map : String} {s s' : State} {us : List ScriptUnit} {as bs : List String}

/-! ### The length of the code -/

theorem length_le_codeLength {u : ScriptUnit} (mem : u ∈ us) : u.code.length ≤ codeLength us := by
  induction us with
  | nil => cases mem
  | cons v us ih =>
    rw [codeLength_cons]
    obtain rfl | mem := List.mem_cons.mp mem
    · exact Nat.le_add_right _ _
    · exact Nat.le_trans (ih mem) (Nat.le_add_left _ _)

theorem Chained.scriptOffset_le {u : ScriptUnit} : ∀ {us : List ScriptUnit} {offset : Nat}, Chained offset us →
    u ∈ us → u.header.scriptOffset.toNat ≤ offset + sumBy (fun u => u.header.scriptLength.toNat) us
  | v :: us, offset, h, mem => by
    rw [sumBy]
    obtain rfl | mem := List.mem_cons.mp mem
    · rw [h.1, UInt32.toNat_ofNat']
      exact Nat.le_trans (Nat.mod_le _ _) (Nat.le_add_right _ _)
    · rw [← Nat.add_assoc]
      exact h.2.scriptOffset_le mem

/-- The lengths in the headers are those of the code, but for what a word cannot hold. -/
theorem toNat_scriptLength_assembled (assembled : (assemble catalog map as).result = .ok us) :
    ∀ u ∈ us, u.header.scriptLength.toNat = u.code.length % 4294967296 := by
  intro u mem
  obtain ⟨compiled, -⟩ := assemble_compiled (P := fun _ => True) assembled fun _ _ => trivial
  obtain ⟨body, made⟩ := compiled u mem
  rw [made.header]
  exact UInt32.toNat_ofNat'

theorem sum_le_codeLength (assembled : (assemble catalog map as).result = .ok us) :
    sumBy (fun u => u.header.scriptLength.toNat) us ≤ codeLength us := by
  have lengths := toNat_scriptLength_assembled assembled
  clear assembled
  induction us with
  | nil => exact Nat.le_refl _
  | cons u us ih =>
    obtain ⟨first, others⟩ := List.forall_mem_cons.mp lengths
    rw [sumBy, codeLength_cons, first]
    exact Nat.add_le_add (Nat.mod_le _ _) (ih others)

theorem sum_eq_codeLength (assembled : (assemble catalog map as).result = .ok us)
    (small : codeLength us < 4294967296) : sumBy (fun u => u.header.scriptLength.toNat) us = codeLength us := by
  refine sumBy_congr fun u mem => ?_
  rw [toNat_scriptLength_assembled assembled u mem, Nat.mod_eq_of_lt]
  exact Nat.lt_of_le_of_lt (length_le_codeLength mem) small

section

variable {ls : List Line}

theorem offset_of_run (run : (ls.foldlM (State.step catalog map) {}).result = .ok s) :
    s.offset = sumBy (fun u => u.header.scriptLength.toNat) s.units := by
  refine Traced.foldlM_keeps (P := fun s => s.offset = sumBy (fun u => u.header.scriptLength.toNat) s.units)
    (fun s l s' sum step => ?_) rfl run
  cases step_cases step with
  | leave phase brace frames unit room => simp only [sumBy_append, sumBy, Nat.add_zero, sum]
  | _ => exact sum

theorem offset_le_of_run (run : (ls.foldlM (State.step catalog map) s).result = .ok s') : s.offset ≤ s'.offset := by
  refine Traced.foldlM_keeps (P := fun t => s.offset ≤ t.offset) (fun t l t' more step => ?_) (Nat.le_refl _) run
  cases step_cases step with
  | leave phase brace frames unit room => exact Nat.le_trans more (Nat.le_add_right _ _)
  | _ => exact more

end

/-! ### Two texts -/

/-- After a text that leads to the state `s`, another text leads to the units and faults that it leads to alone. -/
theorem agree_append {la : List Line} (prepared : Source.preparedFrom catalog 1 as = .ok la)
    (run : (la.foldlM (State.step catalog map) {}).result = .ok s) (idle : s.phase = .idle)
    (bs : List String) (room : ∀ lb front s', Source.preparedFrom catalog 1 bs = .ok lb → front <+: lb →
      (front.foldlM (State.step catalog map) {}).result = .ok s' → s'.phase = .idle →
        s.offset + s'.offset ≤ 4294967295) :
    Agree (· + as.length) (fun vs ws => ws = s.units ++ vs.map (ScriptUnit.behind s.offset))
      (assemble catalog map bs).result (assemble catalog map (as ++ bs)).result := by
  have start : Behind (· + as.length) s.units s.offset {} s :=
    ⟨idle, fun started => absurd rfl started, (List.append_nil _).symm, rfl⟩
  rw [result_assemble, result_assemble, Source.preparedFrom_append, prepared, ok_bind, Source.preparedFrom_add]
  cases second : Source.preparedFrom catalog 1 bs with
  | error e => exact .fault (.line map e.1 e.2)
  | ok lb =>
    show Agree _ _ ((lb.foldlM (State.step catalog map) {}).result >>= State.finish map)
      (((la ++ lb.map (Line.renumber (· + as.length))).foldlM (State.step catalog map) {}).result >>=
        State.finish map)
    rw [List.foldlM_append, Traced.result_bind, run, ok_bind]
    exact (agree_foldlM start fun front s' part => room lb front s' second part).bind
      fun _ _ _ related => agree_finish related

/-- A text after a complete one is assembled as it is alone, if there are less than 4 GiB of code: to the same units
with their code further back, or to the same fault with its line further down. If the second text is refused, its
code is that of the units before the fault. -/
theorem assemble_append (first : (assemble catalog map as).result = .ok us) :
    (∀ vs, (assemble catalog map bs).result = .ok vs → codeLength us + codeLength vs < 4294967296 →
      (assemble catalog map (as ++ bs)).result = .ok (us ++ vs.map (ScriptUnit.behind (codeLength us))) ∧
        ∀ v ∈ vs, (v.behind (codeLength us)).header.scriptOffset.toNat =
          v.header.scriptOffset.toNat + codeLength us) ∧
    ∀ e, (assemble catalog map bs).result = .error e →
      (∀ front vs, front <+: bs → (assemble catalog map front).result = .ok vs →
        codeLength us + codeLength vs < 4294967296) →
      (assemble catalog map (as ++ bs)).result = .error (e.renumber (· + as.length)) := by
  obtain ⟨la, s, prepared, run, idle, rfl⟩ := assemble_eq_ok.mp first
  have sum := offset_of_run run
  constructor
  · intro vs second small
    obtain ⟨lb, t, prepared', run', idle', rfl⟩ := assemble_eq_ok.mp second
    have sum' := offset_of_run run'
    rw [sum_eq_codeLength first (by omega)] at sum
    rw [sum_eq_codeLength second (by omega)] at sum'
    -- Before its end the second text has less code than all of it.
    have agree := agree_append prepared run idle bs fun lb' front s' again part reached _ => by
      cases prepared'.symm.trans again
      obtain ⟨rest, rfl⟩ := part
      obtain ⟨m, here, last⟩ := Traced.result_foldlM_append.mp run'
      cases here.symm.trans reached
      have further := offset_le_of_run last
      omega
    obtain ⟨ws, whole, rfl⟩ := agree.of_ok second
    rw [sum] at whole
    refine ⟨whole, fun v mem => ScriptUnit.toNat_scriptOffset_behind ?_⟩
    obtain ⟨-, chained, -⟩ := assemble_compiled (P := fun _ => True) second fun _ _ => trivial
    have place := chained.scriptOffset_le mem
    rw [sum_eq_codeLength second (by omega)] at place
    omega
  · intro e second small
    -- There are no units to measure, so the fronts of the text have to do.
    have agree := agree_append prepared run idle bs fun lb front s' prepared' part reached idle' => by
      obtain ⟨raws, shorter, taken⟩ := Source.exists_front prepared' part
      have complete := assemble_eq_ok.mpr ⟨front, s', taken, reached, idle', rfl⟩
      have bound := small raws s'.units shorter complete
      have length := sum_le_codeLength first
      have length' := sum_le_codeLength complete
      have sum' := offset_of_run reached
      omega
    exact agree.of_error second

/-- A text whose second unit calls a routine that no catalog names. -/
def misspeltText : List String := signText ++ ["unit \"Late\"", Text.leftBrace, "Mesage(1)", Text.rightBrace]

/-- Behind the two units of the first text, a third one has its code at 11, and a fault of line 8 is one of line 24. -/
theorem assemble_append_keeper :
    (assemble .village "field" (keeperText ++ signText)).result = .ok (keeperUnits ++ [(signUnit 7).behind 11]) ∧
    ((signUnit 7).behind 11).header.scriptOffset.toNat = 11 ∧
    (assemble .village "field" misspeltText).result = .error (.line "field" 8 (.unknownSymbol "Mesage")) ∧
    (assemble .village "field" (keeperText ++ misspeltText)).result =
      .error (.line "field" 24 (.unknownSymbol "Mesage")) := by
  have fault : (assemble .village "field" misspeltText).result = .error (.line "field" 8 (.unknownSymbol "Mesage")) := by
    decide +kernel
  have small : ∀ front ∈ misspeltText.inits, ∀ vs ∈ (assemble .village "field" front).result.toOption,
      codeLength keeperUnits + codeLength vs < 4294967296 := by
    decide +kernel
  obtain ⟨units, places⟩ := (assemble_append assemble_keeperText).1 _ assemble_signText (by decide)
  refine ⟨units, places (signUnit 7) (List.mem_singleton_self _), fault, ?_⟩
  refine (assemble_append assemble_keeperText).2 _ fault fun front vs part assembled => ?_
  exact small front (List.mem_inits _ _ |>.mpr part) vs (by rw [assembled]; rfl)

end EventScript.Assembly
