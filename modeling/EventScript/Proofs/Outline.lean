import EventScript.Proofs.Running

/-!
# Outlines of bodies

The outline of a body says, line by line, where labels stand and where statements jump. It is read off the
tokens of lines (`Source.outlines`), so that a text and its listing can be compared. The statements that
assembly has collected have the outline of the lines it has read (`readPiece_entry`, `Body.outline`).
-/

namespace EventScript

namespace Source

/-- The statements that name a label. -/
inductive JumpWord where
  | goto
  | stop
  | gosub
  | pause
  deriving DecidableEq, Repr

/-- A jump that may stand without a label. -/
def JumpWord.optional : JumpWord → Bool
  | .goto => true
  | .stop => true
  | .gosub => false
  | .pause => false

/-- The jump that begins with a word. -/
def jumpWord? (word : String) : Option JumpWord :=
  if word = "goto" then some .goto
  else if word = "end" then some .stop
  else if word = "gosub" then some .gosub
  else none

/-- What a line of a body is, as far as labels are concerned. -/
inductive BodyLine where
  | label (label : UInt32)
  /-- A statement or a guard, with the label that it names if it jumps. -/
  | statement (jump : Option (JumpWord × Option UInt32))
  | brace
  deriving DecidableEq, Repr

/-- What the tokens of a line of a body say. -/
def BodyLine.ofTokens : List Token → BodyLine
  | [.label l, .sym .colon] => .label l
  | [.sym .leftBrace] => .brace
  | [.sym .rightBrace] => .brace
  | [.ident word] => .statement ((jumpWord? word).map fun w => (w, none))
  | [.ident word, .label l] => .statement ((jumpWord? word).map fun w => (w, some l))
  | [.sym .atSign, .ident word, .label l] =>
    .statement (if word = "pause" then some (.pause, some l) else none)
  | _ => .statement none

/-- The bodies that lines have gone through. -/
structure Sketch where
  finished : List (List BodyLine) := []
  /-- The body that is open, with the number of blocks that are open in it. -/
  current : Option (List BodyLine × Nat) := none

/-- Goes on with a line. -/
def Sketch.step (k : Sketch) (ts : List Token) : Sketch :=
  match k.current with
  | none => if ts = [.sym .leftBrace] then { k with current := some ([], 0) } else k
  | some (es, depth) =>
    if ts = [.sym .leftBrace] then { k with current := some (es ++ [.brace], depth + 1) }
    else if ts = [.sym .rightBrace] then
      match depth with
      | 0 => ⟨k.finished ++ [es], none⟩
      | depth + 1 => { k with current := some (es ++ [.brace], depth) }
    else { k with current := some (es ++ [BodyLine.ofTokens ts], depth) }

/-- The tokens of a line that can be read. -/
def tokensOf (text : List Char) : List Token :=
  match tokens text with
  | .ok ts => ts
  | .error _ => []

/-- The bodies that the lines of a text go through. -/
def sketch (texts : List (List Char)) : Sketch :=
  texts.foldl (fun k text => k.step (tokensOf text)) {}

/-- The outlines of the bodies in a text. -/
def outlines (texts : List (List Char)) : List (List BodyLine) := (sketch texts).finished

/-- The statements and guards of an outline. -/
def BodyLine.statement? : BodyLine → Option (Option (JumpWord × Option UInt32))
  | .statement jump => some jump
  | _ => none

/-- The statements and guards of an outline, in order. -/
def statementsOf (es : List BodyLine) : List (Option (JumpWord × Option UInt32)) :=
  es.filterMap BodyLine.statement?

/-- The label that stands on a line. -/
def BodyLine.label? : BodyLine → Option UInt32
  | .label l => some l
  | _ => none

/-- The labels of an outline, in order. -/
def labelsOf (es : List BodyLine) : List UInt32 := es.filterMap BodyLine.label?

/-- An outline without the braces. -/
def unbraced (es : List BodyLine) : List BodyLine := es.filter (· ≠ .brace)

theorem tokensOf_eq {text : List Char} {ts : List Token} (h : tokens text = .ok ts) : tokensOf text = ts := by
  rw [tokensOf, h]

theorem sketch_append (texts : List (List Char)) (text : List Char) :
    sketch (texts ++ [text]) = (sketch texts).step (tokensOf text) := by
  rw [sketch, List.foldl_append]
  rfl

namespace Sketch

variable {k : Sketch} {es : List BodyLine} {depth : Nat} {ts : List Token}

theorem step_outside (outside : k.current = none) (other : ts ≠ [.sym .leftBrace]) : k.step ts = k := by
  rw [step, outside]
  exact if_neg other

theorem step_enter (outside : k.current = none) :
    k.step [.sym .leftBrace] = { k with current := some ([], 0) } := by
  rw [step, outside]
  exact if_pos rfl

theorem step_open (inside : k.current = some (es, depth)) :
    k.step [.sym .leftBrace] = { k with current := some (es ++ [.brace], depth + 1) } := by
  rw [step, inside]
  exact if_pos rfl

theorem step_close (inside : k.current = some (es, depth + 1)) :
    k.step [.sym .rightBrace] = { k with current := some (es ++ [.brace], depth) } := by
  rw [step, inside]
  rfl

theorem step_leave (inside : k.current = some (es, 0)) :
    k.step [.sym .rightBrace] = ⟨k.finished ++ [es], none⟩ := by
  rw [step, inside]
  rfl

/-- A line that is no brace is one more entry of the body. -/
theorem step_entry (inside : k.current = some (es, depth)) (other : BodyLine.ofTokens ts ≠ .brace) :
    k.step ts = { k with current := some (es ++ [BodyLine.ofTokens ts], depth) } := by
  have notLeft : ts ≠ [.sym .leftBrace] := by
    rintro rfl
    exact other rfl
  have notRight : ts ≠ [.sym .rightBrace] := by
    rintro rfl
    exact other rfl
  simp only [step, inside, if_neg notLeft, if_neg notRight]

end Sketch

@[simp] theorem statementsOf_append (as bs : List BodyLine) :
    statementsOf (as ++ bs) = statementsOf as ++ statementsOf bs := List.filterMap_append

@[simp] theorem labelsOf_append (as bs : List BodyLine) : labelsOf (as ++ bs) = labelsOf as ++ labelsOf bs :=
  List.filterMap_append

@[simp] theorem unbraced_append (as bs : List BodyLine) :
    unbraced (as ++ bs) = unbraced as ++ unbraced bs := List.filter_append ..

theorem statementsOf_unbraced (es : List BodyLine) : statementsOf (unbraced es) = statementsOf es := by
  induction es with
  | nil => rfl
  | cons e es ih =>
    cases e with
    | brace => exact ih
    | label l => exact ih
    | statement jump => exact congrArg (jump :: ·) ih

end Source

namespace Code

open Source (BodyLine JumpWord)

/-- The jump that a statement without a block is. -/
def Action.jump? : Action → Option (JumpWord × Option UInt32)
  | .goto target => some (.goto, target)
  | .stop target => some (.stop, target)
  | .gosub target => some (.gosub, some target)
  | .pause target => some (.pause, some target)
  | _ => none

mutual

/-- The outline of a statement. -/
def Statement.outline : Statement → List BodyLine
  | .action a => [.statement a.jump?]
  | .block _ body => .statement none :: blockOutline body
  | .mark label => [.label label]

/-- The outline of a block. -/
def blockOutline : List Statement → List BodyLine
  | [] => []
  | s :: ss => s.outline ++ blockOutline ss

end

theorem blockOutline_append (as bs : List Statement) :
    blockOutline (as ++ bs) = blockOutline as ++ blockOutline bs := by
  induction as with
  | nil => rfl
  | cons s as ih => rw [List.cons_append, blockOutline, ih, blockOutline, List.append_assoc]

end Code

namespace Assembly

open Code
open Source (BodyLine)

/-- The outline of blocks that are open. -/
def framesOutline : List Frame → List BodyLine
  | [] => []
  | f :: fs => framesOutline fs ++ blockOutline f.before.reverse ++ [.statement none]

/-- The outline of a body that is not complete. -/
def Body.outline (b : Body) : List BodyLine :=
  framesOutline b.frames ++ blockOutline b.done.reverse ++
    if b.pending.isSome then [.statement none] else []

/-- What a line of a body says, as far as labels are concerned. -/
def Piece.entry : Piece → BodyLine
  | .guard _ => .statement none
  | .statement (.action a) => .statement a.jump?
  | .statement (.block _ _) => .statement none
  | .statement (.mark label) => .label label

theorem Piece.entry_ne_brace (piece : Piece) : piece.entry ≠ .brace := by
  rcases piece with (a | ⟨g, body⟩ | l) | g <;> exact BodyLine.noConfusion

theorem outline_settle (b : Body) : b.settle.outline = b.outline := by
  rw [Body.settle]
  split
  · next pending =>
    simp [Body.outline, pending, blockOutline_append, blockOutline, Statement.outline]
  · rfl

theorem outline_openBlock {b : Body} {guard : Guard} (pending : b.pending = some guard) :
    (b.openBlock guard).outline = b.outline := by
  simp [Body.outline, Body.openBlock, framesOutline, pending, blockOutline]

theorem outline_closeBlock {b b' : Body} (pending : b.pending = none) (closed : b.closeBlock? = some (.ok b')) :
    b'.outline = b.outline := by
  obtain ⟨f, fs, frames, -, rfl⟩ := Body.closeBlock?_eq_ok.mp closed
  simp [Body.outline, frames, framesOutline, pending, blockOutline_append, blockOutline,
    Statement.outline]

theorem outline_add {b b' : Body} {piece : Piece} (pending : b.pending = none)
    (simple : ∀ g body, piece ≠ .statement (.block g body)) (added : b.add piece = .ok b') :
    b'.outline = b.outline ++ [piece.entry] := by
  cases Body.add_cases added with
  | guard g => simp [Body.outline, pending, Piece.entry]
  | mark _ => simp [Body.outline, pending, Piece.entry, blockOutline_append, blockOutline, Statement.outline]
  | @statement s other =>
    cases s with
    | action a =>
      simp [Body.outline, pending, Piece.entry, blockOutline_append, blockOutline, Statement.outline]
    | block g body => exact absurd rfl (simple g body)
    | mark label => exact absurd rfl (other label)

/-! ### Lines of a body -/

variable {catalog : Catalog}

theorem resolveCall?_jump? {mode : CallMode} {op : Source.Operand} {code : Resolve Action}
    (found : resolveCall? catalog mode op = some code) {a : Action} {s s' : List String}
    (h : Yields code s a s') : a.jump? = none := by
  unfold resolveCall? at found
  split at found
  · cases found
    obtain ⟨_, _, -, rest⟩ := yields_bind.mp h
    obtain ⟨_, _, -, last⟩ := yields_bind.mp rest
    obtain ⟨rfl, -⟩ := yields_pure.mp last
    rfl
  · cases found
    obtain ⟨_, _, -, rest⟩ := yields_bind.mp h
    obtain ⟨_, _, -, rest'⟩ := yields_bind.mp rest
    obtain ⟨_, _, -, last⟩ := yields_bind.mp rest'
    obtain ⟨rfl, -⟩ := yields_pure.mp last
    rfl
  · cases found

theorem readCall_jump? {mode : CallMode} {ts rest : List Source.Token} {a : Action} {s s' : List String}
    (h : Yields (readCall catalog mode ts) s (a, rest) s') : a.jump? = none := by
  obtain ⟨⟨op, ts'⟩, t, -, h₁⟩ := yields_bind.mp h
  simp only at h₁
  split at h₁
  · next code found =>
    obtain ⟨a', t', run, last⟩ := yields_bind.mp h₁
    obtain ⟨same, -⟩ := yields_pure.mp last
    cases same
    exact resolveCall?_jump? found run
  · cases h₁

theorem readPlain_jump? {ts rest : List Source.Token} {a : Action} {s s' : List String}
    (h : Yields (readPlain catalog ts) s (a, rest) s') : a.jump? = none := by
  obtain ⟨⟨op, ts'⟩, t, -, h₁⟩ := yields_bind.mp h
  simp only at h₁
  split at h₁
  · obtain ⟨_, _, -, h₂⟩ := yields_bind.mp h₁
    obtain ⟨_, _, -, h₃⟩ := yields_bind.mp h₂
    obtain ⟨_, _, -, last⟩ := yields_bind.mp h₃
    obtain ⟨same, -⟩ := yields_pure.mp last
    cases same
    rfl
  · split at h₁
    · next code found =>
      obtain ⟨a', t', run, last⟩ := yields_bind.mp h₁
      obtain ⟨same, -⟩ := yields_pure.mp last
      cases same
      exact resolveCall?_jump? found run
    · cases h₁

theorem readTarget_eq {ts : List Source.Token} {target : Option UInt32}
    (h : readTarget ts = .ok (target, [])) : ts = target.toList.map Source.Token.label := by
  unfold readTarget at h
  split at h
  · cases h
    rfl
  · cases read : Source.readLabel ts with
    | error e =>
      rw [read] at h
      cases h
    | ok r =>
      obtain ⟨l, rest⟩ := r
      rw [read] at h
      cases h
      exact Source.readLabel_eq read

/-- A line that begins with a word that is no jump. -/
theorem ofTokens_word {word : String} (h : Source.jumpWord? word = none) (ts : List Source.Token) :
    BodyLine.ofTokens (.ident word :: ts) = .statement none := by
  have jump : ∀ target : Option UInt32,
      BodyLine.statement ((Source.jumpWord? word).map fun w => (w, target)) = .statement none := by
    intro target
    rw [h]
    rfl
  rcases ts with _ | ⟨t, _ | ⟨t', ts⟩⟩
  · exact jump none
  · cases t with
    | label l => exact jump (some l)
    | _ => rfl
  · cases t <;> rfl

/-- A line that begins with a sign and a word other than that of a jump. -/
theorem ofTokens_marker {word : String} (h : word ≠ "pause") (ts : List Source.Token) :
    BodyLine.ofTokens (.sym .atSign :: .ident word :: ts) = .statement none := by
  rcases ts with _ | ⟨t, _ | ⟨t', ts⟩⟩
  · rfl
  · cases t with
    | label l => exact congrArg BodyLine.statement (if_neg h)
    | _ => rfl
  · cases t <;> rfl

theorem ofTokens_jump (word : String) (target : Option UInt32) :
    BodyLine.ofTokens (.ident word :: target.toList.map Source.Token.label) =
      .statement ((Source.jumpWord? word).map fun w => (w, target)) := by
  cases target <;> rfl

theorem readWord_entry {word : String} {ts : List Source.Token} {a : Action} {s s' : List String}
    (h : Yields (readWord catalog word ts) s (a, []) s') :
    BodyLine.ofTokens (.ident word :: ts) = .statement a.jump? := by
  -- A jump with an optional target has no tokens but the word and the target.
  have optional : ∀ (f : Option UInt32 → Action) (w : Source.JumpWord), Source.jumpWord? word = some w →
      (∀ target, (f target).jump? = some (w, target)) →
      Yields ((liftM (readTarget ts) : Resolve _) >>= fun p => pure (f p.1, p.2)) s (a, []) s' →
      BodyLine.ofTokens (.ident word :: ts) = .statement a.jump? := by
    intro f w hw jump h
    obtain ⟨⟨target, rest⟩, t, read, last⟩ := yields_bind.mp h
    obtain ⟨found, rfl⟩ := yields_lift.mp read
    obtain ⟨same, -⟩ := yields_pure.mp last
    cases same
    rw [readTarget_eq found, ofTokens_jump, hw, jump]
    rfl
  unfold readWord at h
  split at h
  · next e => exact optional .goto .goto (by rw [e]; rfl) (fun _ => rfl) h
  split at h
  · next e => exact optional .stop .stop (by rw [e]; rfl) (fun _ => rfl) h
  split at h
  · next e =>
    obtain ⟨⟨label, rest⟩, t, read, last⟩ := yields_bind.mp h
    obtain ⟨found, rfl⟩ := yields_lift.mp read
    obtain ⟨same, -⟩ := yields_pure.mp last
    cases same
    rw [Source.readLabel_eq found, e]
    rfl
  next notGoto notEnd notGosub =>
  have other : Source.jumpWord? word = none := by
    rw [Source.jumpWord?, if_neg notGoto, if_neg notEnd, if_neg notGosub]
  rw [ofTokens_word other]
  split at h
  · obtain ⟨same, -⟩ := yields_pure.mp h
    cases same
    rfl
  split at h
  · obtain ⟨same, -⟩ := yields_pure.mp h
    cases same
    rfl
  split at h
  · rw [readCall_jump? h]
  split at h
  · rw [readCall_jump? h]
  · rw [readPlain_jump? h]

theorem readMarker_entry {ts : List Source.Token} {a : Action} {s s' : List String}
    (h : Yields (readMarker ts) s (a, []) s') :
    BodyLine.ofTokens (.sym .atSign :: ts) = .statement a.jump? := by
  unfold readMarker at h
  split at h
  · next word ts =>
    split at h
    · next e =>
      obtain ⟨⟨value, rest⟩, t, -, h₁⟩ := yields_bind.mp h
      obtain ⟨_, t', -, last⟩ := yields_bind.mp h₁
      obtain ⟨same, -⟩ := yields_pure.mp last
      cases same
      exact ofTokens_marker (by rw [e]; decide) ts
    · split at h
      · next e =>
        obtain ⟨⟨label, rest⟩, t, read, last⟩ := yields_bind.mp h
        obtain ⟨found, rfl⟩ := yields_lift.mp read
        obtain ⟨same, -⟩ := yields_pure.mp last
        cases same
        rw [Source.readLabel_eq found, e]
        rfl
      · cases h
  · cases h

/-- What a line is turned into has the entry of the line in the outline. -/
theorem readPiece_entry {ts : List Source.Token} {piece : Piece} {s s' : List String}
    (h : Yields (readPiece catalog ts) s piece s') :
    BodyLine.ofTokens ts = piece.entry ∧ ∀ g body, piece ≠ .statement (.block g body) := by
  have lone : ∀ symbol, ts ≠ [.sym symbol] := by
    rintro symbol rfl
    exact not_yields_symbol symbol h
  unfold readPiece at h
  split at h
  · next label ts =>
    obtain ⟨ts₁, t, read₁, h₁⟩ := yields_bind.mp h
    obtain ⟨_, t', read₂, last⟩ := yields_bind.mp h₁
    obtain ⟨colon, rfl⟩ := yields_lift.mp read₁
    obtain ⟨done, rfl⟩ := yields_lift.mp read₂
    obtain ⟨rfl, -⟩ := yields_pure.mp last
    rw [Source.readSymbol_eq colon, Source.readEnd_eq done]
    exact ⟨rfl, fun _ _ => by rintro ⟨⟩⟩
  · obtain ⟨a, rfl, run⟩ := yields_readWhole h
    exact ⟨readMarker_entry run, fun _ _ => by rintro ⟨⟩⟩
  · next word ts =>
    split at h
    · next e =>
      obtain ⟨g, t, -, last⟩ := yields_bind.mp h
      obtain ⟨rfl, -⟩ := yields_pure.mp last
      exact ⟨ofTokens_word (by rw [e]; rfl) ts, fun _ _ => by rintro ⟨⟩⟩
    · obtain ⟨a, rfl, run⟩ := yields_readWhole h
      exact ⟨readWord_entry run, fun _ _ => by rintro ⟨⟩⟩
  · next notLabel notSign notWord =>
    obtain ⟨a, rfl, run⟩ := yields_readWhole h
    refine ⟨?_, fun _ _ => by rintro ⟨⟩⟩
    rw [Piece.entry, readPlain_jump? run]
    -- Only labels, lone symbols, signs and words begin lines that are something else.
    cases ts with
    | nil => rfl
    | cons t ts =>
      cases t with
      | ident word => exact absurd rfl (notWord word ts)
      | label l => exact absurd rfl (notLabel l ts)
      | sym symbol =>
        cases ts with
        | nil => exact absurd rfl (lone symbol)
        | cons t ts =>
          cases symbol with
          | atSign => exact absurd rfl (notSign (t :: ts))
          | _ => rfl
      | _ => rfl

end Assembly

end EventScript
