import EventScript.Listing.Basic
import EventScript.Proofs.NumberedLines
import EventScript.Proofs.StatementText
import EventScript.Proofs.Steps

/-!
# Lines that take assembly from one state to another

`Runs catalog map lines s s'` says that the lines can be prepared, wherever they stand in the text, and
that assembly goes through them from the state `s` to the state `s'`. The number of the line that
faults are blamed on is left out of account. `BodyRuns` says the same for lines of a body.
-/

namespace EventScript.Assembly

/-- The lines take a state to another, wherever they stand. -/
def Runs (catalog : Catalog) (map : String) (raws : List String) (s s' : State) : Prop :=
  ∀ n k, ∃ ls k', Source.preparedFrom catalog n raws = .ok ls ∧
    (ls.foldlM (State.step catalog map) { s with line := k }).result = .ok { s' with line := k' }

/-- The lines take a body to another. -/
def BodyRuns (catalog : Catalog) (raws : List String) (b b' : Body) : Prop :=
  ∀ (map : String) (s : State) (name : String) (p : Preamble),
    Runs catalog map raws { s with phase := .body name p b } { s with phase := .body name p b' }

section

variable {catalog : Catalog} {map : String}

theorem runs_nil (s : State) : Runs catalog map [] s s :=
  fun _ k => ⟨[], k, rfl, rfl⟩

theorem Runs.append {as bs : List String} {s t u : State} (h : Runs catalog map as s t)
    (h' : Runs catalog map bs t u) : Runs catalog map (as ++ bs) s u := by
  intro n k
  obtain ⟨la, k', pa, ra⟩ := h n k
  obtain ⟨lb, k'', pb, rb⟩ := h' (n + as.length) k'
  exact ⟨la ++ lb, k'', Source.preparedFrom_append_eq_ok.mpr ⟨la, lb, pa, pb, rfl⟩,
    Traced.result_foldlM_append.mpr ⟨_, ra, rb⟩⟩

/-- A line that one step takes care of. -/
theorem runs_line {raw : String} {text : List Char} {s s' : State}
    (prepared : Source.prepared catalog raw.toList = .ok (some text))
    (step : ∀ n k, ∃ k', (State.step catalog map { s with line := k } ⟨n, text⟩).result =
      .ok { s' with line := k' }) : Runs catalog map [raw] s s' := by
  intro n k
  obtain ⟨k', run⟩ := step n k
  refine ⟨[⟨n, text⟩], k', ?_, Traced.result_foldlM_cons.mpr ⟨_, run, rfl⟩⟩
  rw [Source.preparedFrom, prepared]
  rfl

/-- A line that says nothing. -/
theorem runs_empty (s : State) : Runs catalog map [""] s s :=
  fun _ k => ⟨[], k, rfl, rfl⟩

theorem bodyRuns_nil (b : Body) : BodyRuns catalog [] b b := fun _ _ _ _ => runs_nil _

theorem BodyRuns.append {as bs : List String} {a b c : Body} (h : BodyRuns catalog as a b)
    (h' : BodyRuns catalog bs b c) : BodyRuns catalog (as ++ bs) a c :=
  fun map s name p => (h map s name p).append (h' map s name p)

/-! ### Lines of a body -/

theorem tokens_single (s : Source.Symbol) : Source.tokens s.text.toList = .ok [.sym s] := by
  have chain : Source.Chain none [.symbol s] := ⟨trivial, by rintro c ⟨⟩, trivial⟩
  have tokens := Source.tokens_strippedText chain
  rwa [Source.strippedText_cons, Source.strippedText_nil, List.append_nil] at tokens

/-- No line of a body is a lone symbol. -/
theorem not_yields_symbol (symbol : Source.Symbol) {s s' : List String} {piece : Piece} :
    ¬ Yields (readPiece catalog [.sym symbol]) s piece s' := by
  intro h
  cases symbol <;> cases h

/-- A line with a statement or a guard. -/
theorem bodyRuns_piece {raw : String} {text : List Char} {ts : List Source.Token} {piece : Piece}
    {b b' : Body} {strings : List String}
    (prepared : Source.prepared catalog raw.toList = .ok (some text))
    (tokens : Source.tokens text = .ok ts)
    (run : Yields (readPiece catalog ts) b.strings piece strings)
    (add : ({ b.settle with strings := strings }.add piece) = .ok b') :
    BodyRuns catalog [raw] b b' := by
  intro map s name p
  have notBrace : ∀ symbol : Source.Symbol, text ≠ symbol.text.toList := by
    rintro symbol rfl
    have same := (tokens_single symbol).symm.trans tokens
    rw [← Except.ok.inj same] at run
    exact not_yields_symbol symbol run
  have notLeft : text ≠ ['{'] := by
    rw [← (by decide : Text.leftBrace.toList = ['{'])]
    exact notBrace .leftBrace
  have notRight : text ≠ ['}'] := by
    rw [← (by decide : Text.rightBrace.toList = ['}'])]
    exact notBrace .rightBrace
  refine runs_line prepared fun n k => ⟨n, ?_⟩
  simp only [State.step, State.continueBody, if_neg notLeft, if_neg notRight, State.addLine]
  have read : ((readPiece catalog ts).run b.settle.strings).result = .ok (piece, strings) := by
    rw [Body.strings_settle]
    exact run
  refine Traced.result_bind_eq_ok.mpr ⟨ts, mapError_eq_ok.mpr tokens, ?_⟩
  refine Traced.result_bind_eq_ok.mpr ⟨(piece, strings), mapError_eq_ok.mpr read, ?_⟩
  exact Traced.result_bind_eq_ok.mpr ⟨b', mapError_eq_ok.mpr add, rfl⟩

theorem toList_margin (indent : Nat) : (Code.margin indent).toList = List.replicate (4 * indent) ' ' := by
  rw [Code.margin, String.toList_ofList]

theorem prepared_brace (indent : Nat) {s : Source.Symbol} (h : s = .leftBrace ∨ s = .rightBrace) :
    Source.prepared catalog (Code.margin indent ++ s.text).toList = .ok (some s.text.toList) := by
  have chain : ∀ next, Source.Chain next [.symbol s] := by
    intro next
    refine ⟨trivial, fun c _ => ?_, trivial⟩
    rcases h with rfl | rfl <;> rfl
  have bounded : Source.Bounded [.symbol s] := by
    rcases h with rfl | rfl <;> exact ⟨_, _, rfl, rfl, rfl, rfl⟩
  have raw : (Source.Lexeme.symbol s).raw = s.text.toList := by
    rcases h with rfl | rfl <;> rfl
  have known : ∀ l ∈ [Source.Lexeme.symbol s], l.Known catalog := by
    intro l hl
    rw [List.mem_singleton.mp hl]
    trivial
  have line := Source.prepared_line (4 * indent) .none (fun next _ => chain next) bounded known
  rwa [Source.rawText_cons, Source.rawText_nil, raw, List.append_nil, List.append_nil,
    List.map_singleton, Source.strippedText_cons, Source.strippedText_nil, List.append_nil,
    ← toList_margin, ← String.toList_append] at line

theorem prepared_leftBrace (indent : Nat) :
    Source.prepared catalog (Code.margin indent ++ Text.leftBrace).toList = .ok (some ['{']) := by
  rw [← (by decide : Text.leftBrace.toList = ['{'])]
  exact prepared_brace (s := .leftBrace) indent (.inl rfl)

theorem prepared_rightBrace (indent : Nat) :
    Source.prepared catalog (Code.margin indent ++ Text.rightBrace).toList = .ok (some ['}']) := by
  rw [← (by decide : Text.rightBrace.toList = ['}'])]
  exact prepared_brace (s := .rightBrace) indent (.inr rfl)

/-- An opening brace begins the block of the guard on the line before. -/
theorem bodyRuns_open (indent : Nat) {b : Body} {guard : Code.Guard} (h : b.pending = some guard) :
    BodyRuns catalog [Code.margin indent ++ Text.leftBrace] b (b.openBlock guard) := by
  intro map s name p
  refine runs_line (prepared_leftBrace indent) fun n k => ⟨k, ?_⟩
  simp only [State.step, State.continueBody]
  rw [if_pos trivial, h]
  rfl

/-- A closing brace ends the innermost block. -/
theorem bodyRuns_close (indent : Nat) {b b' : Body} (h : b.settle.closeBlock? = some (.ok b')) :
    BodyRuns catalog [Code.margin indent ++ Text.rightBrace] b b' := by
  intro map s name p
  refine runs_line (prepared_rightBrace indent) fun n k => ⟨n, ?_⟩
  simp only [State.step, State.continueBody]
  rw [if_neg (by decide), if_pos trivial, h]
  rfl

end

end EventScript.Assembly
