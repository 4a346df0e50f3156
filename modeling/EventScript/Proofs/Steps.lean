import EventScript.Assembly.Basic
import EventScript.Proofs.Run

/-!
# The steps of assembly

`Step` says what a line can do to the state of assembly, and `step_cases` that a line does nothing else.
What every step keeps holds at the end (`assemble_keeps`).
-/

namespace EventScript.Assembly

open Source (Line)

@[simp] theorem Body.strings_settle (b : Body) : b.settle.strings = b.strings := by
  rcases b with ⟨_, _, _, _, _ | _⟩ <;> rfl

@[simp] theorem Body.marked_settle (b : Body) : b.settle.marked = b.marked := by
  rcases b with ⟨_, _, _, _, _ | _⟩ <;> rfl

@[simp] theorem Body.frames_settle (b : Body) : b.settle.frames = b.frames := by
  rcases b with ⟨_, _, _, _, _ | _⟩ <;> rfl

@[simp] theorem Body.pending_settle (b : Body) : b.settle.pending = none := by
  rcases b with ⟨_, _, _, _, _ | _⟩ <;> rfl

theorem Body.settle_of_pending {b : Body} (h : b.pending = none) : b.settle = b := by
  rw [Body.settle, h]

theorem Body.closeBlock?_eq_none {b : Body} : b.closeBlock? = none ↔ b.frames = [] := by
  rw [Body.closeBlock?]
  cases b.frames <;> simp

/-- A block ends if its length is a word. -/
theorem Body.closeBlock?_eq_ok {b b' : Body} : b.closeBlock? = some (.ok b') ↔ ∃ f fs, b.frames = f :: fs ∧
    Code.blockSize b.done.reverse ≤ 4294967295 ∧
    b' = { b with frames := fs, done := .block f.guard b.done.reverse :: f.before } := by
  rw [Body.closeBlock?]
  cases b.frames with
  | nil => simp
  | cons f fs =>
    constructor
    · intro closed
      have ended := Option.some.inj closed
      split at ended
      · next bounded =>
        cases ended
        exact ⟨f, fs, rfl, bounded, rfl⟩
      · cases ended
    · rintro ⟨f, fs, ⟨⟩, bounded, rfl⟩
      exact congrArg some (if_pos bounded)

/-- What a line can add to a body. -/
inductive Body.Adds (b : Body) : Piece → Body → Prop where
  /-- A guard waits for its block. -/
  | guard (g : Code.Guard) : Adds b (.guard g) { b with pending := some g }
  /-- A label is marked that was not. -/
  | mark {l : UInt32} (new : l ∉ b.marked) :
      Adds b (.statement (.mark l)) { b with marked := l :: b.marked, done := .mark l :: b.done }
  | statement {s : Code.Statement} (other : ∀ l, s ≠ .mark l) :
      Adds b (.statement s) { b with done := s :: b.done }

theorem Body.add_cases {b b' : Body} {piece : Piece} (h : b.add piece = .ok b') : b.Adds piece b' := by
  unfold Body.add at h
  split at h
  · next g =>
    cases h
    exact .guard g
  · split at h
    · cases h
    · next absent =>
      cases h
      exact .mark fun mem => absent (List.contains_iff_mem.mpr mem)
  · next other =>
    cases h
    exact .statement other

/-- What a line can do. -/
inductive Step (catalog : Catalog) (map : String) : State → Line → State → Prop where
  /-- A unit begins. -/
  | begin {s : State} {l : Line} {name : String} (idle : s.phase = .idle)
      (tokens : Source.tokens l.text = .ok [.ident "unit", .str name]) :
      Step catalog map s l { s with line := l.number, phase := .preamble name {} }
  /-- The preamble of a unit goes on. -/
  | setting {s : State} {l : Line} {name : String} {p p' : Preamble} (phase : s.phase = .preamble name p)
      (other : l.text ≠ ['{']) (read : p.read catalog l.text = .ok p') :
      Step catalog map s l { s with line := l.number, phase := .preamble name p' }
  /-- The body of a unit begins. -/
  | enter {s : State} {l : Line} {name : String} {p : Preamble} (phase : s.phase = .preamble name p)
      (brace : l.text = ['{']) :
      Step catalog map s l { s with line := l.number, phase := .body name p { strings := p.strings } }
  /-- The block of a guard begins. -/
  | openBlock {s : State} {l : Line} {name : String} {p : Preamble} {b : Body} {guard : Code.Guard}
      (phase : s.phase = .body name p b) (brace : l.text = ['{']) (pending : b.pending = some guard) :
      Step catalog map s l { s with phase := .body name p (b.openBlock guard) }
  /-- A block ends. -/
  | closeBlock {s : State} {l : Line} {name : String} {p : Preamble} {b b' : Body}
      (phase : s.phase = .body name p b) (brace : l.text = ['}'])
      (closed : b.settle.closeBlock? = some (.ok b')) :
      Step catalog map s l { s with line := l.number, phase := .body name p b' }
  /-- A unit ends. -/
  | leave {s : State} {l : Line} {name : String} {p : Preamble} {b : Body} {u : ScriptUnit}
      (phase : s.phase = .body name p b) (brace : l.text = ['}']) (frames : b.frames = [])
      (unit : (unitOf map name p b.strings b.settle.done.reverse).result = .ok u)
      (room : s.offset + u.header.scriptLength.toNat ≤ 4294967295) :
      Step catalog map s l { s with
        line := l.number
        units := s.units ++ [{ u with header := { u.header with scriptOffset := UInt32.ofNat s.offset } }]
        offset := s.offset + u.header.scriptLength.toNat
        phase := .idle }
  /-- A body goes on with a statement, a guard or a label. -/
  | piece {s : State} {l : Line} {name : String} {p : Preamble} {b b' : Body} {ts : List Source.Token}
      {piece : Piece} {strings : List String} (phase : s.phase = .body name p b)
      (notLeft : l.text ≠ ['{']) (notRight : l.text ≠ ['}'])
      (tokens : Source.tokens l.text = .ok ts)
      (read : Yields (readPiece catalog ts) b.strings piece strings)
      (add : ({ b.settle with strings := strings }.add piece) = .ok b') :
      Step catalog map s l { s with line := l.number, phase := .body name p b' }

variable {catalog : Catalog} {map : String} {s s' : State} {l : Line}

theorem begin_cases (idle : s.phase = .idle) (h : s.begin map l = .ok s') : Step catalog map s l s' := by
  rw [State.begin] at h
  split at h
  · next tokens =>
    cases h
    exact .begin idle tokens
  · cases h

theorem prepare_cases {name : String} {p : Preamble} (phase : s.phase = .preamble name p)
    (h : s.prepare catalog map name p l = .ok s') : Step catalog map s l s' := by
  rw [State.prepare] at h
  split at h
  · next brace =>
    cases h
    exact .enter phase brace
  · next other =>
    split at h
    · next read =>
      cases h
      exact .setting phase other read
    · cases h

theorem leave_cases {name : String} {p : Preamble} {b : Body} (phase : s.phase = .body name p b)
    (brace : l.text = ['}']) (frames : b.frames = [])
    (h : (unitOf map name p b.strings b.settle.done.reverse >>= fun u =>
      (liftM ({ s with line := l.number }.addUnit map u) : Traced Notice Fault State)).result = .ok s') :
    Step catalog map s l s' := by
  obtain ⟨u, unit, added⟩ := Traced.result_bind_eq_ok.mp h
  have result : ({ s with line := l.number }.addUnit map u) = .ok s' := added
  simp only [State.addUnit] at result
  split at result
  · next room =>
    cases result
    exact .leave phase brace frames unit room
  · cases result

theorem continueBody_cases {name : String} {p : Preamble} {b : Body} (phase : s.phase = .body name p b)
    (h : (s.continueBody catalog map name p b l).result = .ok s') : Step catalog map s l s' := by
  rw [State.continueBody] at h
  split at h
  · next brace =>
    cases pending : b.pending with
    | none =>
      rw [pending] at h
      cases h
    | some guard =>
      rw [pending] at h
      cases h
      exact .openBlock phase brace pending
  · next notLeft =>
    split at h
    · next brace =>
      cases closed : b.settle.closeBlock? with
      | some ending =>
        simp only [closed] at h
        obtain ⟨b', ended, last⟩ := Traced.result_bind_eq_ok.mp h
        cases last
        have made : ending = .ok b' := mapError_eq_ok.mp ended
        exact .closeBlock phase brace (made ▸ closed)
      | none =>
        have frames : b.frames = [] := by
          rw [← Body.frames_settle]
          exact Body.closeBlock?_eq_none.mp closed
        simp only [closed, Body.strings_settle] at h
        exact leave_cases phase brace frames h
    · next notRight =>
      obtain ⟨ts, tokens, h₁⟩ := Traced.result_bind_eq_ok.mp h
      obtain ⟨⟨piece, strings⟩, read, h₂⟩ := Traced.result_bind_eq_ok.mp h₁
      obtain ⟨b', add, last⟩ := Traced.result_bind_eq_ok.mp h₂
      cases last
      have run : Yields (readPiece catalog ts) b.settle.strings piece strings := mapError_eq_ok.mp read
      rw [Body.strings_settle] at run
      exact .piece phase notLeft notRight (mapError_eq_ok.mp tokens) run (mapError_eq_ok.mp add)

/-- A line does one of the things that `Step` lists. -/
theorem step_cases (h : (State.step catalog map s l).result = .ok s') : Step catalog map s l s' := by
  rw [State.step] at h
  split at h
  · next idle => exact begin_cases idle h
  · next phase => exact prepare_cases phase h
  · next phase => exact continueBody_cases phase h

/-- Assembly prepares all lines, goes through them and looks whether the last unit is complete. -/
theorem result_assemble (catalog : Catalog) (map : String) (lines : List String) :
    (assemble catalog map lines).result =
      (Source.preparedFrom catalog 1 lines).mapError (fun e => Fault.line map e.1 e.2) >>= fun ls =>
        (ls.foldlM (State.step catalog map) {}).result >>= State.finish map := by
  rw [assemble, Traced.result_bind]
  refine congrArg _ (funext fun ls => ?_)
  rw [Traced.result_bind]
  rfl

theorem finish_eq_ok {us : List ScriptUnit} : s.finish map = .ok us ↔ s.phase = .idle ∧ s.units = us := by
  rw [State.finish]
  cases s.phase <;> simp

theorem assemble_eq_ok {lines : List String} {us : List ScriptUnit} : (assemble catalog map lines).result = .ok us ↔
    ∃ ls s, Source.preparedFrom catalog 1 lines = .ok ls ∧
      (ls.foldlM (State.step catalog map) {}).result = .ok s ∧ s.phase = .idle ∧ s.units = us := by
  simp only [result_assemble, bind_eq_ok, mapError_eq_ok, finish_eq_ok, exists_and_left]

/-- What the state of assembly keeps, together with the lines that were read, holds at the end. -/
theorem assemble_keeps (Inv : List Line → State → Prop) (start : Inv [] {})
    (step : ∀ ls s l s', Inv ls s → Step catalog map s l s' → Inv (ls ++ [l]) s')
    {lines : List String} {us : List ScriptUnit} (h : (assemble catalog map lines).result = .ok us) :
    ∃ ls s, Source.preparedFrom catalog 1 lines = .ok ls ∧ Inv ls s ∧ s.phase = .idle ∧ s.units = us := by
  obtain ⟨ls, s, prepared, run, finished⟩ := assemble_eq_ok.mp h
  have keeps : ∀ (rest done : List Line) (t t' : State), Inv done t →
      (rest.foldlM (State.step catalog map) t).result = .ok t' → Inv (done ++ rest) t' := by
    intro rest
    induction rest with
    | nil =>
      intro done t t' inv run
      cases run
      rwa [List.append_nil]
    | cons l rest ih =>
      intro done t t' inv run
      obtain ⟨m, first, last⟩ := Traced.result_foldlM_cons.mp run
      have next := ih (done ++ [l]) m t' (step done t l m inv (step_cases first)) last
      rwa [List.append_assoc] at next
  exact ⟨ls, s, prepared, keeps ls [] {} s start run, finished⟩

end EventScript.Assembly
