import EventScript.Proofs.Outline
import EventScript.Proofs.Reassembly

/-!
# Outlines of listings

The listing of a unit has one body, whose outline is known from the statements of the unit: each statement
comes after the label of its address, if that is a label, and blocks stand between braces
(`outlines_listing`). This holds whatever the catalog calls things.
-/

namespace EventScript

namespace Source

/-- A line with lexemes, after a margin and in front of a remark, has their tokens. -/
theorem Apart.tokensOf_line {ls : List Lexeme} (apart : Apart ls) (margin : Nat) {remark : List Char}
    (hr : Remark remark) :
    tokensOf (stripComment (List.replicate margin ' ' ++ rawText ls ++ remark)) =
      ls.flatMap Lexeme.tokens := by
  rw [apart.stripComment_line margin hr]
  exact tokensOf_eq (tokens_strippedText (apart.chain none stop_none))

/-- Goes on with the lines of a listing. -/
def Sketch.run (k : Sketch) (raws : List String) : Sketch :=
  raws.foldl (fun k raw => k.step (tokensOf (stripComment raw.toList))) k

/-- The outlines of the bodies in a listing. -/
def listedOutlines (raws : List String) : List (List BodyLine) :=
  outlines (raws.map fun raw => stripComment raw.toList)

namespace Sketch

theorem finished_run (raws : List String) : listedOutlines raws = (run {} raws).finished := by
  rw [listedOutlines, outlines, sketch, List.foldl_map]
  rfl

theorem run_append (k : Sketch) (as bs : List String) : k.run (as ++ bs) = (k.run as).run bs :=
  List.foldl_append

theorem run_line (k : Sketch) {ls : List Lexeme} (apart : Apart ls) {text : String}
    (ht : text.toList = rawText ls) (indent : Nat) {remark : String} (hr : Remark remark.toList) :
    k.run [Code.margin indent ++ text ++ remark] = k.step (ls.flatMap Lexeme.tokens) := by
  have raw : (Code.margin indent ++ text ++ remark).toList =
      List.replicate (4 * indent) ' ' ++ rawText ls ++ remark.toList := by
    rw [String.toList_append, String.toList_append, Assembly.toList_margin, ht]
  rw [← apart.tokensOf_line (4 * indent) hr, ← raw]
  rfl

theorem run_symbol (k : Sketch) (indent : Nat) {s : Symbol} (h : s = .leftBrace ∨ s = .rightBrace) :
    k.run [Code.margin indent ++ s.text] = k.step [.sym s] := by
  have apart : Apart [.symbol s] := by
    refine ⟨fun next _ => ⟨trivial, fun c _ => ?_, trivial⟩, ?_⟩
    · rcases h with rfl | rfl <;> rfl
    · rcases h with rfl | rfl <;> exact ⟨_, _, rfl, rfl, rfl, rfl⟩
  have text : s.text.toList = rawText [.symbol s] := by
    rw [rawText_cons, rawText_nil, List.append_nil]
    rcases h with rfl | rfl <;> rfl
  have noRemark : Remark "".toList := .none
  have line := k.run_line apart text indent noRemark
  rwa [String.append_empty] at line

variable {finished : List (List BodyLine)} {es : List BodyLine} {depth : Nat}

theorem run_open (indent : Nat) :
    run ⟨finished, some (es, depth)⟩ [Code.margin indent ++ Text.leftBrace] =
      ⟨finished, some (es ++ [.brace], depth + 1)⟩ := by
  have text : Symbol.leftBrace.text = Text.leftBrace := rfl
  rw [← text, run_symbol _ indent (.inl rfl)]
  exact step_open rfl

theorem run_close (indent : Nat) :
    run ⟨finished, some (es, depth + 1)⟩ [Code.margin indent ++ Text.rightBrace] =
      ⟨finished, some (es ++ [.brace], depth)⟩ := by
  have text : Symbol.rightBrace.text = Text.rightBrace := rfl
  rw [← text, run_symbol _ indent (.inr rfl)]
  exact step_close rfl

theorem run_label (indent : Nat) (label : UInt32) :
    run ⟨finished, some (es, depth)⟩ [Code.margin indent ++ "#" ++ Text.decimal label.toNat ++ ":"] =
      ⟨finished, some (es ++ [.label label], depth)⟩ := by
  have noRemark : Remark "".toList := .none
  have line := run_line ⟨finished, some (es, depth)⟩ (Code.apart_label label) (Code.text_label label) indent
    noRemark
  rwa [String.append_empty, ← String.append_assoc, ← String.append_assoc] at line

end Sketch

end Source

namespace Code

open Source (BodyLine Lexeme Sketch Token)

/-! ### Statements -/

theorem ofTokens_symbol {t : Token} (h : ∀ l, t ≠ .label l) (s : Source.Symbol) (ts : List Token) :
    BodyLine.ofTokens (t :: .sym s :: ts) = .statement none := by
  cases t with
  | label l => exact absurd rfl (h l)
  | sym first => cases first <;> rfl
  | _ => rfl

theorem Guard.ofTokens_lexemes (names : Names) (g : Guard) :
    BodyLine.ofTokens ((g.lexemes names).flatMap Lexeme.tokens) = .statement none := by
  cases g <;> exact Assembly.ofTokens_word rfl _

theorem Object.flatMap_tokens (names : Names) {o : Object} (textual : o.Textual) :
    ∃ t : Token, (∀ l, t ≠ .label l) ∧ ∀ ls : List Lexeme,
      ((o.toSource names).lexemes ++ ls).flatMap Lexeme.tokens = t :: ls.flatMap Lexeme.tokens := by
  match o, textual with
  | .builtin _, _ => exact ⟨.ident _, fun _ => Token.noConfusion, fun _ => rfl⟩
  | .named _, _ => exact ⟨.str _, fun _ => Token.noConfusion, fun _ => rfl⟩
  | .dynamic (.flag _), _ => exact ⟨.ident _, fun _ => Token.noConfusion, fun _ => rfl⟩
  | .dynamic (.var _), _ => exact ⟨.ident _, fun _ => Token.noConfusion, fun _ => rfl⟩

/-- A line that calls a routine is no jump, whatever the routine is called. -/
theorem ofTokens_call {ls : List Lexeme} (h : BodyLine.ofTokens (ls.flatMap Lexeme.tokens) = .statement none)
    (mode : CallMode) :
    BodyLine.ofTokens ((callLexemes mode ++ ls).flatMap Lexeme.tokens) = .statement none := by
  cases mode with
  | task => exact h
  | async => exact Assembly.ofTokens_word rfl _
  | function => exact Assembly.ofTokens_word rfl _

theorem Action.ofTokens_lexemes (names : Names) {a : Action} (textual : a.Textual) :
    BodyLine.ofTokens ((a.lexemes names).flatMap Lexeme.tokens) = .statement a.jump? := by
  cases a with
  | call mode routine arguments =>
    refine ofTokens_call ?_ mode
    exact ofTokens_symbol (t := .ident _) (fun _ => Token.noConfusion) .leftParen _
  | objectCall object mode routine arguments =>
    obtain ⟨t, other, tokens⟩ := Object.flatMap_tokens names textual.1
    refine ofTokens_call ?_ mode
    exact (congrArg BodyLine.ofTokens (tokens _)).trans (ofTokens_symbol other .dot _)
  | assign place formula =>
    cases place with
    | flag ordinal => exact ofTokens_symbol (t := .ident _) (fun _ => Token.noConfusion) .equal _
    | var slot => exact ofTokens_symbol (t := .ident _) (fun _ => Token.noConfusion) .equal _
    | field object reference =>
      obtain ⟨t, other, tokens⟩ := Object.flatMap_tokens names textual.1
      rw [Action.lexemes, Place.operand, Operand.toSource, Source.Operand.lexemes, List.append_assoc, tokens]
      exact ofTokens_symbol other .dot _
  | goto target => cases target <;> rfl
  | stop target => cases target <;> rfl
  | gosub target => rfl
  | pause target => rfl
  | anchor value => rfl
  | leave => rfl
  | leaveInterrupt => rfl

/-! ### Blocks -/

/-- The entry for the label of an address, if it has one. -/
def labelEntry (labels : List UInt32) (address : Nat) : List BodyLine :=
  if labels.any fun l => l.toNat == address then [.label (UInt32.ofNat address)] else []

mutual

/-- The outline of the lines of a statement at an address. -/
def Statement.entries (labels : List UInt32) (address : Nat) : Statement → List BodyLine
  | .action a => labelEntry labels address ++ [.statement a.jump?]
  | .block guard body =>
    labelEntry labels address ++ .statement none ::
      if body.isEmpty then []
      else .brace :: (blockEntries labels (address + guard.size) body ++ [.brace])
  | .mark _ => []

/-- The outline of the lines of a block that begins at an address. -/
def blockEntries (labels : List UInt32) (address : Nat) : List Statement → List BodyLine
  | [] => []
  | s :: ss => s.entries labels address ++ blockEntries labels (address + s.size) ss

end

section

variable {names : Names} {finished : List (List BodyLine)}

theorem run_labelLine (labels : List UInt32) (indent address depth : Nat) (es : List BodyLine) :
    Sketch.run ⟨finished, some (es, depth)⟩ (if labels.any fun l => l.toNat == address then
        [margin indent ++ "#" ++ Text.decimal address ++ ":"] else []) =
      ⟨finished, some (es ++ labelEntry labels address, depth)⟩ := by
  rw [labelEntry]
  split
  · next isLabel =>
    obtain ⟨label, -, same⟩ := List.any_eq_true.mp isLabel
    obtain rfl : label.toNat = address := beq_iff_eq.mp same
    rw [UInt32.ofNat_toNat, Sketch.run_label]
  · rw [List.append_nil]
    rfl

/-- The lines of an instruction are those of its label and of its text. -/
theorem run_instruction {labels : List UInt32} {i : Instruction}
    (isLabel : i.isLabel = labels.any fun l => l.toNat == i.address) {ls : List Lexeme}
    (apart : Source.Apart ls) (text : i.text.toList = Source.rawText ls)
    {jump : Option (Source.JumpWord × Option UInt32)}
    (entry : BodyLine.ofTokens (ls.flatMap Lexeme.tokens) = .statement jump) (depth : Nat) (es : List BodyLine) :
    Sketch.run ⟨finished, some (es, depth)⟩ i.lines =
      ⟨finished, some (es ++ (labelEntry labels i.address ++ [.statement jump]), depth)⟩ := by
  obtain ⟨remark, hr, lines⟩ := i.lines_eq
  have other : BodyLine.ofTokens (ls.flatMap Lexeme.tokens) ≠ .brace := by
    rw [entry]
    exact BodyLine.noConfusion
  rw [lines, isLabel, Sketch.run_append, run_labelLine, Sketch.run_line _ apart text i.indent hr,
    Sketch.step_entry rfl other, entry, List.append_assoc]

mutual

theorem Statement.run_lines (sound : names.catalog.Sound) (labels : List UInt32) :
    ∀ (s : Statement), s.Textual → ∀ (indent address depth : Nat) (es : List BodyLine),
      Sketch.run ⟨finished, some (es, depth)⟩ (s.lines names labels indent address) =
        ⟨finished, some (es ++ s.entries labels address, depth)⟩
  | .action a, textual, indent, address, depth, es =>
    run_instruction rfl (a.apart sound) (a.text_eq names) (Action.ofTokens_lexemes names textual)
      depth es
  | .block guard body, textual, indent, address, depth, es => by
    have head : Sketch.run ⟨finished, some (es, depth)⟩ (guard.instruction names labels indent address).lines =
        ⟨finished, some (es ++ (labelEntry labels address ++ [.statement none]), depth)⟩ :=
      run_instruction rfl (guard.apart sound) (guard.text_eq names) (guard.ofTokens_lexemes names) depth es
    rw [Statement.lines, Sketch.run_append, head, Statement.entries]
    split
    · rfl
    · rw [Sketch.run_append, Sketch.run_append, Sketch.run_open, blockLines_run sound labels body textual.2,
        Sketch.run_close]
      simp only [List.append_assoc, List.cons_append, List.nil_append]
  | .mark _, _, _, _, _, es => by
    rw [Statement.lines, Statement.entries, List.append_nil]
    rfl

/-- The lines of a block go through its entries. -/
theorem blockLines_run (sound : names.catalog.Sound) (labels : List UInt32) :
    ∀ (ss : List Statement), blockTextual ss → ∀ (indent address depth : Nat) (es : List BodyLine),
      Sketch.run ⟨finished, some (es, depth)⟩ (blockLines names labels indent address ss) =
        ⟨finished, some (es ++ blockEntries labels address ss, depth)⟩
  | [], _, _, _, _, es => by
    rw [blockLines, blockEntries, List.append_nil]
    rfl
  | s :: ss, textual, indent, address, depth, es => by
    rw [blockLines, Sketch.run_append, s.run_lines sound labels textual.1, blockLines_run sound labels ss textual.2,
      blockEntries, List.append_assoc]

end

end

end Code

/-! ### Units -/

open Source (BodyLine Sketch)

/-- The outline of the listing of a unit with the statements `body`. -/
def ScriptUnit.entries (u : ScriptUnit) (body : List Code.Statement) : List BodyLine :=
  Code.blockEntries (u.labels body) 0 body ++
    if (u.endLabel? body).isSome then [.label (UInt32.ofNat u.code.length)] else []

variable {catalog : Catalog} {u : ScriptUnit} {body : List Code.Statement}

/-- A line that begins with a word does not begin a body. -/
theorem run_words {raws : List String} (lines : ∀ raw ∈ raws, ∃ key ls, Source.WordLine catalog raw key ls)
    {k : Sketch} (idle : k.current = none) : k.run raws = k := by
  induction raws with
  | nil => rfl
  | cons raw raws ih =>
    obtain ⟨⟨key, ls, line⟩, others⟩ := List.forall_mem_cons.mp lines
    have tokens := line.legible.toApart.tokensOf_line 0 .none
    rw [List.replicate_zero, List.nil_append, List.append_nil, ← line.text] at tokens
    have step : k.step (Source.tokensOf (Source.stripComment raw.toList)) = k := by
      rw [tokens]
      exact Sketch.step_outside idle (by rintro ⟨⟩)
    rw [Sketch.run, List.foldl_cons, step]
    exact ih others

theorem run_endLabel {finished : List (List BodyLine)} {es : List BodyLine} {depth : Nat} :
    Sketch.run ⟨finished, some (es, depth)⟩ (u.endLabel? body).toList =
      ⟨finished, some (es ++ if (u.endLabel? body).isSome then [.label (UInt32.ofNat u.code.length)] else [],
        depth)⟩ := by
  by_cases shown : (u.endLabel? body).isSome = true
  · obtain ⟨⟨label, -, last⟩, -⟩ := endLabel?_isSome.mp shown
    rw [if_pos shown, toList_endLabel? shown, ← last, UInt32.ofNat_toNat, Sketch.run_label]
  · have none_ : u.endLabel? body = none := by simpa using shown
    rw [if_neg shown, none_, List.append_nil]
    rfl

/-- The listing of a unit has one body, with the statements of the unit and their labels. -/
theorem listedOutlines_listing (sound : catalog.Sound) (textual : Code.blockTextual body)
    (vars : u.vars.length ≤ Source.maxInteger) (statements : (u.statements catalog).result = .ok body)
    {lines : List String} (listed : (u.listing catalog).result = .ok lines) :
    Source.listedOutlines lines = [u.entries body] := by
  obtain ⟨body', statements', rfl⟩ := listing_eq_ok.mp listed
  rw [statements] at statements'
  cases statements'
  have open_ : Sketch.run {} [Text.leftBrace] = ⟨[], some ([], 0)⟩ :=
    (Sketch.run_symbol {} 0 (.inl rfl)).trans (Sketch.step_enter rfl)
  have close : ∀ es, Sketch.run ⟨[], some (es, 0)⟩ [Text.rightBrace] = ⟨[es], none⟩ := fun es =>
    (Sketch.run_symbol ⟨[], some (es, 0)⟩ 0 (.inr rfl)).trans (Sketch.step_leave rfl)
  rw [Sketch.finished_run, Sketch.run_append, Sketch.run_append, Sketch.run_append, Sketch.run_append,
    run_words (Assembly.preamble_words sound u vars) rfl, open_, Code.blockLines_run sound _ body textual, run_endLabel, close,
    List.nil_append]
  rfl

end EventScript
