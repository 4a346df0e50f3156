import EventScript.Proofs.CatalogNames
import EventScript.Proofs.Renumbering
import Mathlib.Data.List.Basic

/-!
# Blank lines and comments

A line of which nothing is left without its comment does nothing, wherever it stands. `Spaced place ls ms` says that
the text `ms` has the lines of `ls` at the positions that `place` gives, in their order, and only such lines
elsewhere. Then the texts are assembled alike: to the same units, or to the same fault with its line at its new
position (`assemble_spaced`).
-/

namespace EventScript

namespace Source

/-- The text `ms` is the text `ls` with idle lines put in: line `k` of `ls` has the position `place k`, and a line at a
position of no line of `ls` is blank or a comment. -/
structure Spaced (place : Nat → Nat) (ls ms : List String) : Prop where
  ascending : ∀ j < ls.length, ∀ i < j, place (i + 1) < place (j + 1)
  kept : ∀ i < ls.length, 1 ≤ place (i + 1) ∧ ms[place (i + 1) - 1]? = ls[i]?
  idle : ∀ j < ms.length, (∀ i < ls.length, place (i + 1) ≠ j + 1) → ∀ line ∈ ms[j]?, stripComment line.toList = []

/-- The same of lines from a point on: the next line of the one text has the number `n`, and of the other `m`. -/
inductive SpacedFrom (place : Nat → Nat) : (n m : Nat) → List String → List String → Prop where
  | done {n m : Nat} : SpacedFrom place n m [] []
  | keep {n m : Nat} {line : String} {ls ms : List String} (here : place n = m)
      (rest : SpacedFrom place (n + 1) (m + 1) ls ms) : SpacedFrom place n m (line :: ls) (line :: ms)
  | idle {n m : Nat} {line : String} {ls ms : List String} (blank : stripComment line.toList = [])
      (rest : SpacedFrom place n (m + 1) ls ms) : SpacedFrom place n m ls (line :: ms)

variable {place : Nat → Nat} {ls ms : List String}

/-- What `Spaced` asks of the lines from a point on. -/
structure PlacedFrom (place : Nat → Nat) (n m : Nat) (ls ms : List String) : Prop where
  ascending : ∀ j < ls.length, ∀ i < j, place (n + i) < place (n + j)
  kept : ∀ i < ls.length, m ≤ place (n + i) ∧ ms[place (n + i) - m]? = ls[i]?
  idle : ∀ j < ms.length, (∀ i < ls.length, place (n + i) ≠ m + j) → ∀ line ∈ ms[j]?, stripComment line.toList = []

namespace PlacedFrom

variable {n m : Nat} {l line : String}

theorem getElem?_sub_succ {m k : Nat} (after : m + 1 ≤ k) : ms[k - (m + 1)]? = (line :: ms)[k - m]? := by
  have next : k - m = k - (m + 1) + 1 := by omega
  rw [next, List.getElem?_cons_succ]

/-- The next line of the second text is the next one of the first. -/
theorem keep (h : PlacedFrom place n m (l :: ls) (line :: ms)) (here : place n = m) :
    line = l ∧ PlacedFrom place (n + 1) (m + 1) ls ms := by
  have shift : ∀ i, n + 1 + i = n + (i + 1) := fun i => by omega
  have later : ∀ i < ls.length, m + 1 ≤ place (n + (i + 1)) := by
    intro i inside
    have := h.ascending (i + 1) (Nat.succ_lt_succ inside) 0 (Nat.zero_lt_succ _)
    rwa [Nat.add_zero, here] at this
  refine ⟨?_, fun j inside i before => ?_, fun i inside => ?_, fun j inside apart => ?_⟩
  · obtain ⟨-, found⟩ := h.kept 0 (Nat.zero_lt_succ _)
    rw [Nat.add_zero, here, Nat.sub_self] at found
    exact Option.some.inj found
  · rw [shift, shift]
    exact h.ascending (j + 1) (Nat.succ_lt_succ inside) (i + 1) (Nat.succ_lt_succ before)
  · rw [shift]
    refine ⟨later i inside, ?_⟩
    rw [getElem?_sub_succ (later i inside), (h.kept (i + 1) (Nat.succ_lt_succ inside)).2, List.getElem?_cons_succ]
  · refine h.idle (j + 1) (Nat.succ_lt_succ inside) fun i inside' => ?_
    cases i with
    | zero =>
      rw [Nat.add_zero]
      omega
    | succ i =>
      have := apart i (Nat.lt_of_succ_lt_succ inside')
      rw [shift] at this
      omega

/-- The next line of the second text is none of the first, and so it is idle. -/
theorem skip (h : PlacedFrom place n m ls (line :: ms)) (other : ls ≠ [] → place n ≠ m) :
    stripComment line.toList = [] ∧ PlacedFrom place n (m + 1) ls ms := by
  -- the positions of all lines are behind that of the first one
  have apart : ∀ i < ls.length, place (n + i) ≠ m := by
    intro i inside same
    have filled : ls ≠ [] := List.ne_nil_of_length_pos (Nat.zero_lt_of_lt inside)
    obtain ⟨first, -⟩ := h.kept 0 (List.length_pos_iff.mpr filled)
    cases i with
    | zero => exact other filled same
    | succ i =>
      have := h.ascending (i + 1) inside 0 (Nat.zero_lt_succ _)
      omega
  refine ⟨h.idle 0 (Nat.zero_lt_succ _) apart line rfl, h.ascending, fun i inside => ?_, fun j inside others => ?_⟩
  · have after : m + 1 ≤ place (n + i) := Nat.lt_of_le_of_ne (h.kept i inside).1 (apart i inside).symm
    exact ⟨after, by rw [getElem?_sub_succ after, (h.kept i inside).2]⟩
  · refine h.idle (j + 1) (Nat.succ_lt_succ inside) fun i inside' => ?_
    have := others i inside'
    omega

end PlacedFrom

/-- Going through the second text finds the lines of the first. -/
theorem PlacedFrom.spacedFrom {n m : Nat} (h : PlacedFrom place n m ls ms) : SpacedFrom place n m ls ms := by
  induction ms generalizing ls n m with
  | nil =>
    cases ls with
    | nil => exact .done
    | cons l ls =>
      obtain ⟨-, found⟩ := h.kept 0 (Nat.zero_lt_succ _)
      cases found
  | cons line ms ih =>
    by_cases here : ls ≠ [] ∧ place n = m
    · obtain ⟨filled, here⟩ := here
      obtain ⟨l, ls, rfl⟩ := List.exists_cons_of_ne_nil filled
      obtain ⟨rfl, rest⟩ := h.keep here
      exact .keep here (ih rest)
    · obtain ⟨blank, rest⟩ := h.skip fun filled same => here ⟨filled, same⟩
      exact .idle blank (ih rest)

theorem Spaced.spacedFrom (spaced : Spaced place ls ms) : SpacedFrom place 1 1 ls ms := by
  refine PlacedFrom.spacedFrom ⟨fun j inside i before => ?_, fun i inside => ?_, fun j inside apart => ?_⟩
  · rw [Nat.add_comm 1, Nat.add_comm 1]
    exact spaced.ascending j inside i before
  · rw [Nat.add_comm 1]
    exact spaced.kept i inside
  · refine spaced.idle j inside fun i inside' => ?_
    rw [Nat.add_comm i, Nat.add_comm j]
    exact apart i inside'

/-- Idle lines are not prepared, and the others keep their texts. -/
theorem SpacedFrom.preparedFrom_eq (catalog : Catalog) {n m : Nat} (h : SpacedFrom place n m ls ms) :
    preparedFrom catalog m ms =
      ((preparedFrom catalog n ls).map (List.map (Line.renumber place))).mapError fun e => (place e.1, e.2) := by
  induction h with
  | done => rfl
  | @keep n m line ls ms here rest ih =>
    subst here
    rw [preparedFrom_cons, ih, preparedFrom_cons]
    rcases prepared catalog line.toList with e | text | text
    · rfl
    · cases preparedFrom catalog (n + 1) ls <;> rfl
    · cases preparedFrom catalog (n + 1) ls <;> rfl
  | @idle n m line ls ms blank rest ih =>
    have nothing : prepared catalog line.toList = .ok none := by
      rw [prepared, blank]
      rfl
    rw [preparedFrom_cons, ih, nothing]
    cases preparedFrom catalog n ls <;> rfl

end Source

theorem ScriptUnit.behind_zero (u : ScriptUnit) : u.behind 0 = u := by
  have same : u.header.scriptOffset + UInt32.ofNat 0 = u.header.scriptOffset := UInt32.add_zero _
  rw [behind, same]

namespace Assembly

open Source (Line Spaced)

variable {catalog : Catalog} {map : String} {place : Nat → Nat} {ls ms : List String}

/-- At each point there is room for the code so far. -/
theorem offset_le_of_steps {lines : List Line} {s : State}
    (run : (lines.foldlM (State.step catalog map) {}).result = .ok s) : s.offset ≤ 4294967295 := by
  refine Traced.foldlM_keeps (P := fun s => s.offset ≤ 4294967295) (fun s l s' fits step => ?_) (Nat.zero_le _) run
  cases step_cases step with
  | leave phase brace frames unit room => exact room
  | _ => exact fits

/-- Both texts are assembled to the same units or to the same fault. -/
theorem agree_spaced (spaced : Spaced place ls ms) :
    Agree place Eq (assemble catalog map ls).result (assemble catalog map ms).result := by
  rw [result_assemble, result_assemble, spaced.spacedFrom.preparedFrom_eq]
  cases Source.preparedFrom catalog 1 ls with
  | error e => exact .fault (.line map e.1 e.2)
  | ok lines =>
    have start : Behind place [] 0 {} {} := ⟨rfl, fun started => absurd rfl started, rfl, rfl⟩
    have run : Agree place (Behind place [] 0) (lines.foldlM (State.step catalog map) {}).result
        ((lines.map (Line.renumber place)).foldlM (State.step catalog map) {}).result := by
      refine agree_foldlM start fun front s' _ reached _ => ?_
      rw [Nat.zero_add]
      exact offset_le_of_steps reached
    refine run.bind fun s t _ related => (agree_finish related).mono fun us vs moved => ?_
    rw [moved, List.nil_append, funext ScriptUnit.behind_zero, List.map_id']

/-- Lines that are blank or comments may be put in anywhere: the units are the same, and so is a fault, with its line at
its new position. -/
theorem assemble_spaced (spaced : Spaced place ls ms) :
    (∀ us, (assemble catalog map ms).result = .ok us ↔ (assemble catalog map ls).result = .ok us) ∧
    ∀ e, (assemble catalog map ls).result = .error e →
      (assemble catalog map ms).result = .error (e.renumber place) := by
  have agree : Agree place Eq (assemble catalog map ls).result (assemble catalog map ms).result := agree_spaced spaced
  refine ⟨fun us => ⟨fun made => ?_, fun made => ?_⟩, fun e failed => agree.of_error failed⟩
  · cases first : (assemble catalog map ls).result with
    | error e => cases made.symm.trans (agree.of_error first)
    | ok vs =>
      obtain ⟨ws, second, rfl⟩ := agree.of_ok first
      exact congrArg Except.ok (Except.ok.inj (second.symm.trans made))
  · obtain ⟨vs, second, rfl⟩ := agree.of_ok made
    exact second

/-- A unit with a block. -/
def gateText : List String :=
  ["unit \"Gate\"", Text.leftBrace, "if GateOpen = 1", Text.leftBrace, "Wait(3)", Text.rightBrace, "return",
    Text.rightBrace]

/-- The text with remarks and blank lines, one of them in front of the block. -/
def remarkedGate : List String :=
  ["// a gate", "unit \"Gate\"", "", Text.leftBrace, "if GateOpen = 1", "  // open: ", Text.leftBrace, "Wait(3)",
    Text.rightBrace, "return", Text.rightBrace, " \t"]

/-- Where the lines of the text are. -/
def gatePlace (k : Nat) : Nat := [2, 4, 5, 7, 8, 9, 10, 11].getD (k - 1) 0

/-- The whole text gives the same unit. Its first half ends in an open block, which is blamed on the condition: that is
its third line, and the fifth among the remarks. -/
theorem assemble_spaced_gate :
    (∃ us, (assemble .village "field" gateText).result = .ok us ∧
      (assemble .village "field" remarkedGate).result = .ok us) ∧
    (assemble .village "field" (gateText.take 4)).result = .error (.line "field" 3 (.unclosedBlock "Gate")) ∧
    (assemble .village "field" (remarkedGate.take 7)).result = .error (.line "field" 5 (.unclosedBlock "Gate")) := by
  have whole : Spaced gatePlace gateText remarkedGate := ⟨by decide, by decide, by decide +kernel⟩
  have half : Spaced gatePlace (gateText.take 4) (remarkedGate.take 7) := ⟨by decide, by decide, by decide +kernel⟩
  obtain ⟨us, made⟩ := exists_eq_ok_of_toOption (x := (assemble .village "field" gateText).result) (by decide +kernel)
  have failed : (assemble .village "field" (gateText.take 4)).result =
      .error (.line "field" 3 (.unclosedBlock "Gate")) := by decide +kernel
  exact ⟨⟨us, made, ((assemble_spaced whole).1 us).mpr made⟩, failed, (assemble_spaced half).2 _ failed⟩

end Assembly

end EventScript
