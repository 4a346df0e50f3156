import EventScript.Proofs.PatchTargets
import Mathlib.Data.List.DropRight

/-!
# Patch files in a row

Reading a patch file goes line by line, and all that a line leaves for the lines below it is the heading. Each line
that is indented and not blank has one outcome, a change or a warning (`outcomeOn?`), and no other line has any; what is
read from a file are the outcomes of its lines (`read_eq`). So a file that begins with a heading, or at least has no
indented line before its first one, is read after another file as it is alone, but for the numbers of its lines
(`read_row`).
-/

namespace EventScript

namespace Text

/-! ### Lines of two texts -/

theorem lines_newline (cs : List Char) : lines ('\n' :: cs) = [] :: lines cs := rfl

theorem lines_return_newline (cs : List Char) : lines ('\r' :: '\n' :: cs) = [] :: lines cs := rfl

/-- A character that ends no line is the first one of the first line. -/
theorem lines_cons {c : Char} {cs : List Char} (inner : c ≠ '\n') (single : c = '\r' → cs.head? ≠ some '\n') :
    lines (c :: cs) = (c :: (lines cs).headD []) :: (lines cs).tail := by
  rw [lines.eq_4 c cs inner]
  · cases lines cs <;> rfl
  · rintro rest rfl rfl
    exact single rfl rfl

/-- A text ends, or goes on with the end of a line, or with a character of a line. -/
@[elab_as_elim]
theorem lines_induction {motive : List Char → Prop} (nil : motive []) (newline : ∀ cs, motive cs → motive ('\n' :: cs))
    (ret : ∀ cs, motive cs → motive ('\r' :: '\n' :: cs))
    (char : ∀ c cs, c ≠ '\n' → (c = '\r' → cs.head? ≠ some '\n') → motive cs → motive (c :: cs)) (cs : List Char) :
    motive cs := by
  have single : ∀ {c : Char} {cs : List Char}, (∀ rest, c = '\r' → cs = '\n' :: rest → False) →
      c = '\r' → cs.head? ≠ some '\n' := by
    intro c cs apart same
    cases cs with
    | nil => simp
    | cons d cs => exact fun first => apart cs same (congrArg (· :: cs) (Option.some.inj first))
  induction cs using lines.induct with
  | case1 => exact nil
  | case2 cs ih => exact newline cs ih
  | case3 cs ih => exact ret cs ih
  | case4 c cs inner apart _ ih => exact char c cs inner (single apart) ih
  | case5 c cs inner apart _ _ _ ih => exact char c cs inner (single apart) ih

theorem lines_ne_nil : ∀ {cs : List Char}, cs ≠ [] → lines cs ≠ [] := by
  intro cs filled
  induction cs using lines_induction with
  | nil => exact absurd rfl filled
  | newline cs _ => exact List.cons_ne_nil _ _
  | ret cs _ => exact List.cons_ne_nil _ _
  | char c cs inner single _ =>
    rw [lines_cons inner single]
    exact List.cons_ne_nil _ _

/-- A text that does not begin with a line feed does not do so if more follows, unless it is empty. -/
theorem head?_append_ne {c : Char} {cs : List Char} (first : cs.head? ≠ some c) (filled : cs ≠ [])
    (bs : List Char) : (cs ++ bs).head? ≠ some c := by
  obtain ⟨d, cs, rfl⟩ := List.exists_cons_of_ne_nil filled
  exact first

/-- A line feed ends the lines of the text in front of it. -/
theorem lines_append_newline (as bs : List Char) : lines (as ++ '\n' :: bs) = lines (as ++ ['\n']) ++ lines bs := by
  induction as using lines_induction with
  | nil => rfl
  | newline as ih => rw [List.cons_append, lines_newline, ih, List.cons_append, lines_newline, List.cons_append]
  | ret as ih =>
    rw [List.cons_append, List.cons_append, lines_return_newline, ih, List.cons_append, List.cons_append,
      lines_return_newline, List.cons_append]
  | char c as inner single ih =>
    by_cases last : c = '\r' ∧ as = []
    · obtain ⟨rfl, rfl⟩ := last
      rfl
    · have apart : ∀ bs, c = '\r' → (as ++ '\n' :: bs).head? ≠ some '\n' :=
        fun bs same => head?_append_ne (single same) (fun none => last ⟨same, none⟩) _
      obtain ⟨l, ls, split⟩ := List.exists_cons_of_ne_nil (lines_ne_nil (by simp : as ++ ['\n'] ≠ []))
      rw [List.cons_append, lines_cons inner (apart bs), ih, List.cons_append, lines_cons inner (apart []), split]
      rfl

/-- Nothing is left of a text exactly if all of it is blank. -/
theorem trim_eq_nil {cs : List Char} : trim cs = [] ↔ ∀ c ∈ cs, isBlank c = true := by
  rw [trim, trimEnd, trimStart, List.reverse_eq_nil_iff, List.dropWhile_eq_nil_iff]
  constructor
  · intro blank c mem
    by_cases front : c ∈ cs.takeWhile isBlank
    · exact List.mem_takeWhile_imp front
    · rw [← List.takeWhile_append_dropWhile (p := isBlank) (l := cs), List.mem_append] at mem
      exact blank c (List.mem_reverse.mpr (mem.resolve_left front))
  · exact fun blank c mem => blank c (List.dropWhile_subset _ (List.mem_reverse.mp mem))

end Text

namespace Patch

/-! ### Carriage returns -/

theorem bare_cons (c : Char) (cs : List Char) :
    bare (c :: cs) = if bare cs = [] ∧ c = '\r' then [] else c :: bare cs := by
  have dropped := Text.dropEnd_cons (fun c => c == '\r') c cs
  simp only [beq_iff_eq] at dropped
  exact dropped

theorem bare_bare (cs : List Char) : bare (bare cs) = bare cs := List.rdropWhile_idempotent _ cs

/-- But for carriage returns, a line feed at the end of a text adds an empty line or none. -/
theorem map_bare_lines (as : List Char) : ∃ k, (Text.lines (as ++ ['\n'])).map bare =
    (Text.lines as).map bare ++ List.replicate k [] := by
  induction as using Text.lines_induction with
  | nil => exact ⟨1, rfl⟩
  | newline as ih =>
    obtain ⟨k, same⟩ := ih
    exact ⟨k, congrArg (bare [] :: ·) same⟩
  | ret as ih =>
    obtain ⟨k, same⟩ := ih
    exact ⟨k, congrArg (bare [] :: ·) same⟩
  | char c as inner single ih =>
    obtain ⟨k, same⟩ := ih
    by_cases none : as = []
    · subst none
      refine ⟨0, ?_⟩
      by_cases ret : c = '\r'
      · subst ret
        rfl
      · have first : ∀ cs : List Char, c = '\r' → cs.head? ≠ some '\n' := fun _ same => absurd same ret
        rw [List.cons_append, Text.lines_cons inner (first _), Text.lines_cons inner (first _)]
        rfl
    · obtain ⟨l, ls, split⟩ := List.exists_cons_of_ne_nil (Text.lines_ne_nil none)
      obtain ⟨l', ls', split'⟩ := List.exists_cons_of_ne_nil (Text.lines_ne_nil (by simp : as ++ ['\n'] ≠ []))
      rw [split, split'] at same
      obtain ⟨first, others⟩ := List.cons.inj same
      refine ⟨k, ?_⟩
      rw [List.cons_append, Text.lines_cons inner fun ret => Text.head?_append_ne (single ret) none _,
        Text.lines_cons inner single, split, split']
      show bare (c :: l') :: ls'.map bare = bare (c :: l) :: (ls.map bare ++ List.replicate k [])
      rw [bare_cons, bare_cons, first, others, List.append_eq]

/-! ### Outcomes -/

/-- A line with a change, or with what is no change but stands in its place: it is indented and not blank. -/
def isEntryLine (line : List Char) : Bool := isIndented line && !(Text.trim line).isEmpty

/-- What a line below a heading leads to. -/
def outcomeOn? (source : String) (current : Option String) (line : Nat × List Char) : Option (Change ⊕ Warning) :=
  match Content.ofLine (bare line.2), current with
  | .edit position entry, some heading => some (.inl ⟨heading, position, entry⟩)
  | .bad reason, some _ => some (.inr ⟨source, line.1, String.ofList (bare line.2), reason⟩)
  | .edit _ _, none => some (.inr ⟨source, line.1, String.ofList (bare line.2), .noMap⟩)
  | .bad _, none => some (.inr ⟨source, line.1, String.ofList (bare line.2), .noMap⟩)
  | _, _ => none

/-- The heading that a line leaves for those below it. -/
def headingBelow (current : Option String) (line : List Char) : Option String := (heading? (bare line)).or current

/-- What lines lead to, the first of which has the number `n` and is below a heading. -/
def outcomesBelow (source : String) (current : Option String) (n : Nat) : List (List Char) → List (Change ⊕ Warning)
  | [] => []
  | line :: lines =>
    (outcomeOn? source current (n, line)).toList ++ outcomesBelow source (headingBelow current line) (n + 1) lines

/-- The changes among outcomes. -/
def changesOf (os : List (Change ⊕ Warning)) : List Change := os.filterMap Sum.getLeft?

/-- The warnings among outcomes. -/
def warningsOf (os : List (Change ⊕ Warning)) : List Warning := os.filterMap Sum.getRight?

section

variable {source : String}

/-- A line adds its outcome, if it has one, and leaves its heading. -/
theorem State.step_outcome (source : String) {s : State} {current : Option String} (known : s.current = current.map mapKey)
    (line : Nat × List Char) :
    (s.step source line).set = (changesOf (outcomeOn? source current line).toList).foldl PatchSet.addChange s.set ∧
    (s.step source line).warnings = s.warnings ++ warningsOf (outcomeOn? source current line).toList ∧
    (s.step source line).current = (headingBelow current line.2).map mapKey := by
  obtain ⟨-, below⟩ := State.step_eq source known line
  have raw : (line.2.reverse.dropWhile fun c => c == '\r').reverse = bare line.2 := rfl
  rw [headingBelow, ← below]
  unfold State.step outcomeOn?
  simp only [raw, known]
  refine ⟨?_, ?_, trivial⟩
  · cases Content.ofLine (bare line.2) <;> cases current <;> rfl
  · cases Content.ofLine (bare line.2) <;> cases current <;> simp [warningsOf]

/-- All lines add their outcomes. -/
theorem foldl_step_outcomes (source : String) (lines : List (List Char)) : ∀ {s : State} {current : Option String} (n : Nat),
    s.current = current.map mapKey →
      (((lines.zipIdx n).map fun l => (l.2 + 1, l.1)).foldl (State.step source) s).set =
        (changesOf (outcomesBelow source current (n + 1) lines)).foldl PatchSet.addChange s.set ∧
      (((lines.zipIdx n).map fun l => (l.2 + 1, l.1)).foldl (State.step source) s).warnings =
        s.warnings ++ warningsOf (outcomesBelow source current (n + 1) lines) := by
  induction lines with
  | nil => exact fun {s} _ _ _ => ⟨rfl, (List.append_nil _).symm⟩
  | cons line lines ih =>
    intro s current n known
    obtain ⟨set, warnings, below⟩ := State.step_outcome source known (n + 1, line)
    obtain ⟨sets, more⟩ := ih (n + 1) below
    rw [List.zipIdx_cons, List.map_cons, List.foldl_cons, sets, more, set, warnings, outcomesBelow, changesOf,
      changesOf, changesOf, warningsOf, warningsOf, warningsOf, List.filterMap_append, List.foldl_append,
      List.filterMap_append, List.append_assoc]
    exact ⟨rfl, rfl⟩

/-- What lines of a text lead to. -/
def outcomes (source text : String) : List (Change ⊕ Warning) := outcomesBelow source none 1 (Text.lines text.toList)

/-- Reading a patch file gives the changes and the warnings that its lines lead to. -/
theorem read_eq (source text : String) : read source text =
    (PatchSet.ofChanges (changesOf (outcomes source text)), warningsOf (outcomes source text)) := by
  have start : ({} : State).current = (none : Option String).map mapKey := rfl
  obtain ⟨set, warnings⟩ := foldl_step_outcomes source (Text.lines text.toList) 0 start
  exact Prod.ext set (warnings.trans (List.nil_append _))

/-! ### Lines with an outcome -/

theorem isBlank_bare {cs : List Char} : (∀ c ∈ bare cs, Text.isBlank c = true) ↔ ∀ c ∈ cs, Text.isBlank c = true := by
  induction cs with
  | nil => exact Iff.rfl
  | cons c cs ih =>
    rw [bare_cons]
    split
    · next none =>
      obtain ⟨none, rfl⟩ := none
      rw [List.forall_mem_cons, ← ih, none]
      exact ⟨fun h => ⟨by decide, h⟩, fun h => h.2⟩
    · rw [List.forall_mem_cons, List.forall_mem_cons, ih]

theorem isEntryLine_bare (line : List Char) : isEntryLine (bare line) = isEntryLine line := by
  have blank : (Text.trim (bare line)).isEmpty = (Text.trim line).isEmpty := by
    rw [Bool.eq_iff_iff, List.isEmpty_iff, List.isEmpty_iff, Text.trim_eq_nil, Text.trim_eq_nil, isBlank_bare]
  rw [isEntryLine, isEntryLine, blank]
  cases line with
  | nil => rfl
  | cons c cs =>
    rw [bare_cons]
    split
    · next none =>
      -- what is left of such a line is empty, so it is blank
      rw [← blank, bare_cons, if_pos none]
      exact (Bool.and_false _).symm
    · rfl

theorem ofIndented_cases (raw : List Char) :
    (∃ position entry, Content.ofIndented raw = .edit position entry) ∨ ∃ reason, Content.ofIndented raw = .bad reason := by
  unfold Content.ofIndented
  repeat' split
  all_goals simp

theorem ofLine_of_isEntryLine {raw : List Char} (entry : isEntryLine raw = true) :
    Content.ofLine raw = Content.ofIndented raw := by
  obtain ⟨indented, filled⟩ := (Bool.and_eq_true _ _).mp entry
  rw [Content.ofLine, if_neg (by simpa using filled), if_pos indented]

theorem ofLine_of_other {raw : List Char} (other : isEntryLine raw = false) :
    Content.ofLine raw = .nothing ∨ ∃ key, Content.ofLine raw = .heading key := by
  rw [Content.ofLine]
  split
  · exact .inl rfl
  · next filled =>
    split
    · next indented =>
      rw [isEntryLine, indented, Bool.eq_false_iff.mpr filled] at other
      cases other
    · dsimp only
      split
      · exact .inl rfl
      · exact .inr ⟨_, rfl⟩

/-- What a line may lead to: a change that stands on it, or a warning about it. -/
def Explains (source : String) (line : Nat × List Char) : Change ⊕ Warning → Prop
  | .inl change => Content.ofLine (bare line.2) = .edit change.position change.entry
  | .inr warning =>
    warning.source = source ∧ warning.line = line.1 ∧ warning.text = String.ofList (bare line.2)

/-- A line that is indented and not blank has one outcome. -/
theorem outcomeOn?_of_isEntryLine (line : Nat × List Char) (entry : isEntryLine line.2 = true) (current : Option String) :
    ∃ o, outcomeOn? source current line = some o ∧ Explains source line o := by
  rw [← isEntryLine_bare] at entry
  unfold outcomeOn?
  have cases := ofIndented_cases (bare line.2)
  rw [← ofLine_of_isEntryLine entry] at cases
  obtain ⟨position, edit, content⟩ | ⟨reason, content⟩ := cases
  · cases current <;> simp [content, Explains]
  · cases current <;> simp [content, Explains]

theorem outcomeOn?_of_other (line : Nat × List Char) (other : isEntryLine line.2 = false) (current : Option String) :
    outcomeOn? source current line = none := by
  rw [← isEntryLine_bare] at other
  unfold outcomeOn?
  obtain content | ⟨key, content⟩ := ofLine_of_other other
  · rw [content]
  · rw [content]

/-- The lines with an outcome and the outcomes go together, one by one. -/
theorem forall₂_outcomesBelow (lines : List (List Char)) : ∀ (current : Option String) (n : Nat),
    List.Forall₂ (Explains source) (((lines.zipIdx n).map fun l => (l.2 + 1, l.1)).filter fun l => isEntryLine l.2)
      (outcomesBelow source current (n + 1) lines) := by
  induction lines with
  | nil => exact fun _ _ => .nil
  | cons line lines ih =>
    intro current n
    have rest := ih (headingBelow current line) (n + 1)
    rw [List.zipIdx_cons, List.map_cons, outcomesBelow]
    cases entry : isEntryLine line with
    | true =>
      obtain ⟨o, outcome, explains⟩ : ∃ o, outcomeOn? source current (n + 1, line) = some o ∧ _ :=
        outcomeOn?_of_isEntryLine (n + 1, line) entry current
      simp only [List.filter_cons, entry, if_true, outcome]
      exact .cons explains rest
    | false =>
      simp only [List.filter_cons, entry, outcomeOn?_of_other (n + 1, line) entry]
      exact rest

/-! ### Two files -/

theorem outcomesBelow_append (as bs : List (List Char)) : ∀ (current : Option String) (n : Nat),
    outcomesBelow source current n (as ++ bs) =
      outcomesBelow source current n as ++ outcomesBelow source (as.foldl headingBelow current) (n + as.length) bs := by
  induction as with
  | nil => exact fun _ _ => rfl
  | cons line as ih =>
    intro current n
    rw [List.cons_append, outcomesBelow, ih, outcomesBelow, List.foldl_cons, List.length_cons, List.append_assoc,
      Nat.add_right_comm, Nat.add_assoc]

theorem outcomesBelow_bare (lines : List (List Char)) : ∀ (current : Option String) (n : Nat),
    outcomesBelow source current n (lines.map bare) = outcomesBelow source current n lines := by
  induction lines with
  | nil => exact fun _ _ => rfl
  | cons line lines ih =>
    intro current n
    rw [List.map_cons, outcomesBelow, ih, outcomesBelow]
    simp only [outcomeOn?, headingBelow, bare_bare]

theorem outcomesBelow_empty (k : Nat) : ∀ (current : Option String) (n : Nat),
    outcomesBelow source current n (List.replicate k []) = [] := by
  induction k with
  | zero => exact fun _ _ => rfl
  | succ k ih => exact fun current n => ih current (n + 1)

/-- A line feed at the end of a text adds nothing to what its lines lead to. -/
theorem outcomesBelow_newline (as : List Char) : outcomesBelow source none 1 (Text.lines (as ++ ['\n'])) =
    outcomesBelow source none 1 (Text.lines as) := by
  obtain ⟨k, same⟩ := map_bare_lines as
  rw [← outcomesBelow_bare, same, outcomesBelow_append, outcomesBelow_empty, List.append_nil, outcomesBelow_bare]

/-- A warning about a line that is further down. -/
def Warning.below (k : Nat) (w : Warning) : Warning := { w with line := w.line + k }

theorem outcomesBelow_add (k : Nat) (lines : List (List Char)) : ∀ (current : Option String) (n : Nat),
    outcomesBelow source current (n + k) lines =
      (outcomesBelow source current n lines).map (Sum.map id (Warning.below k)) := by
  induction lines with
  | nil => exact fun _ _ => rfl
  | cons line lines ih =>
    intro current n
    have first : outcomeOn? source current (n + k, line) =
        (outcomeOn? source current (n, line)).map (Sum.map id (Warning.below k)) := by
      unfold outcomeOn?
      cases Content.ofLine (bare line) <;> cases current <;> rfl
    rw [outcomesBelow, Nat.add_right_comm, ih, first, outcomesBelow, List.map_append]
    cases outcomeOn? source current (n, line) <;> rfl

/-- No line before the first heading is indented and not blank. -/
def Headed (lines : List (List Char)) : Prop :=
  ∀ line ∈ lines.takeWhile (fun l => (heading? (bare l)).isNone), isEntryLine line = false

instance (lines : List (List Char)) : Decidable (Headed lines) := inferInstanceAs (Decidable (∀ _ ∈ _, _))

/-- Such lines lead to the same whatever heading they are below. -/
theorem Headed.outcomesBelow_eq : ∀ {lines : List (List Char)}, Headed lines → ∀ (current : Option String) (n : Nat),
    outcomesBelow source current n lines = outcomesBelow source none n lines := by
  intro lines
  induction lines with
  | nil => exact fun _ _ _ => rfl
  | cons line lines ih =>
    intro headed current n
    rw [Headed, List.takeWhile_cons] at headed
    rw [outcomesBelow, outcomesBelow]
    cases found : heading? (bare line) with
    | some heading =>
      have idle : ∀ current, outcomeOn? source current (n, line) = none := fun current => by
        unfold outcomeOn?
        rw [ofLine_of_heading found]
      rw [idle, idle, headingBelow, headingBelow, found]
      rfl
    | none =>
      rw [found] at headed
      obtain ⟨other, rest⟩ := List.forall_mem_cons.mp headed
      rw [outcomeOn?_of_other (n, line) other, outcomeOn?_of_other (n, line) other, headingBelow,
        headingBelow, found]
      exact ih rest current (n + 1)

end

theorem changesOf_row (os ps : List (Change ⊕ Warning)) (g : Warning → Warning) :
    changesOf (os ++ ps.map (Sum.map id g)) = changesOf os ++ changesOf ps := by
  rw [changesOf, List.filterMap_append, List.filterMap_map, changesOf, changesOf]
  congr 2
  funext o
  cases o <;> rfl

theorem warningsOf_row (os ps : List (Change ⊕ Warning)) (g : Warning → Warning) :
    warningsOf (os ++ ps.map (Sum.map id g)) = warningsOf os ++ (warningsOf ps).map g := by
  rw [warningsOf, List.filterMap_append, List.filterMap_map, warningsOf, warningsOf, List.map_filterMap]
  congr 2
  funext o
  cases o <;> rfl

/-- A patch file that has no edit before its first heading is read after another one as it is alone: the patch set is
that of both files merged, and the warnings are those of the first file and those of the second, with their lines
counted on. Of the lines of any file each one that is indented and not blank leads to one change or to one warning, and
the patch set and the warnings have nothing else in them. -/
theorem read_row (source t₁ t₂ text : String) :
    (Headed (Text.lines t₂.toList) → read source (t₁ ++ "\n" ++ t₂) =
      (PatchSet.merge [(read source t₁).1, (read source t₂).1],
        (read source t₁).2 ++ (read source t₂).2.map (Warning.below (Text.lines (t₁ ++ "\n").toList).length))) ∧
    ∃ os : List (Change ⊕ Warning), read source text = (PatchSet.ofChanges (changesOf os), warningsOf os) ∧
      List.Forall₂ (Explains source) ((Text.numbered (Text.lines text.toList)).filter fun l => isEntryLine l.2) os := by
  refine ⟨fun headed => ?_, outcomes source text, read_eq source text, forall₂_outcomesBelow _ none 0⟩
  have row : outcomes source (t₁ ++ "\n" ++ t₂) = outcomes source t₁ ++
      (outcomes source t₂).map (Sum.map id (Warning.below (Text.lines (t₁ ++ "\n").toList).length)) := by
    have chars : (t₁ ++ "\n" ++ t₂).toList = t₁.toList ++ '\n' :: t₂.toList := by simp
    have first : (t₁ ++ "\n").toList = t₁.toList ++ ['\n'] := by simp
    rw [outcomes, chars, Text.lines_append_newline, outcomesBelow_append, outcomesBelow_newline, headed.outcomesBelow_eq,
      outcomesBelow_add, first, outcomes, outcomes]
  have merged := PatchSet.merge_ofChanges [changesOf (outcomes source t₁), changesOf (outcomes source t₂)]
  rw [List.flatten_cons, List.flatten_cons, List.flatten_nil, List.append_nil] at merged
  rw [read_eq, row, changesOf_row, warningsOf_row, ← merged, read_eq, read_eq]
  rfl

/-- A file whose last line says nothing that can be done and ends with a carriage return. -/
def shorePatch : String := "island\n  2\tnull\n  oops\r"

/-- A file with a remark in front of its heading. -/
def cavePatch : String := "# later\nmaps/Cave.map\n  x\tgoto\n\t1\treturn\n"

/-- The third line of the second file is the sixth of both. -/
theorem read_row_shore : Headed (Text.lines cavePatch.toList) ∧
    read "mod.patch" (shorePatch ++ "\n" ++ cavePatch) =
      (⟨[("cave", [(1, ⟨false, ["return"]⟩)]), ("island", [(2, ⟨true, []⟩)])]⟩,
        [⟨"mod.patch", 3, "  oops", .noTab⟩, ⟨"mod.patch", 6, "  x\tgoto", .badPosition⟩]) := by
  have headed : Headed (Text.lines cavePatch.toList) := by decide +kernel
  refine ⟨headed, ((read_row "mod.patch" shorePatch cavePatch "").1 headed).trans ?_⟩
  decide +kernel

end Patch

end EventScript
