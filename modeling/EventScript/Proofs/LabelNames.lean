import EventScript.Proofs.CatalogNames
import EventScript.Proofs.LabelBodies
import Mathlib.Data.FinEnum
import Mathlib.Data.Fintype.Sum

/-!
# Labels are only names

A text is cut into units at its headings (`inUnits`), and each unit has labels of its own. `relabelled` writes other
numbers in their places, with a renaming for each unit (`unitLabels_relabelled`). If no two labels of a unit become one,
the text is assembled to the same units as before, or is refused with a fault of the same kind (`assemble_relabelled`). What the
renaming does to numbers that are no labels of the unit does not matter, so that it can be taken to be injective
(`exists_injective`).
-/

namespace EventScript

namespace Source

/-! ### The units of a text -/

/-- The name of the unit that a line begins. -/
def unitName? (catalog : Catalog) (line : String) : Option String :=
  match prepared catalog line.toList with
  | .ok (some text) =>
    match tokens text with
    | .ok [.ident word, .str name] => if word = "unit" then some name else none
    | _ => none
  | _ => none

/-- The number of the unit that a line belongs to, if it comes after lines of unit `k`. -/
def unitAfter (catalog : Catalog) (k : Nat) (line : String) : Nat :=
  if (unitName? catalog line).isSome then k + 1 else k

/-- The lines after some lines of unit `k`, with the numbers of their units. -/
def inUnits (catalog : Catalog) (k : Nat) : List String → List (Nat × String)
  | [] => []
  | line :: lines => (unitAfter catalog k line, line) :: inUnits catalog (unitAfter catalog k line) lines

/-- The labels that a line names outside of literals and its comment. -/
def labelsIn (catalog : Catalog) (line : String) : List UInt32 :=
  (segments (ordinalDigits? catalog) .outside 0 line.toList).filterMap Segment.number?

/-- The labels of a unit of a text; the first unit has the number 1. -/
def unitLabels (catalog : Catalog) (lines : List String) (k : Nat) : List UInt32 :=
  ((inUnits catalog 0 lines).filter (·.1 == k)).flatMap (labelsIn catalog ·.2)

/-- A line with other label numbers. -/
def relabelLine (catalog : Catalog) (f : UInt32 → UInt32) (line : String) : String :=
  String.ofList (relabelFrom (ordinalDigits? catalog) f .outside line.toList)

/-- Lines after some lines of unit `k`, with the label numbers of each unit changed by its renaming. -/
def relabelledFrom (catalog : Catalog) (fs : Nat → UInt32 → UInt32) (k : Nat) (lines : List String) : List String :=
  (inUnits catalog k lines).map fun p => relabelLine catalog (fs p.1) p.2

/-- A text with the label numbers of each unit changed by its renaming. -/
def relabelled (catalog : Catalog) (fs : Nat → UInt32 → UInt32) (lines : List String) : List String :=
  relabelledFrom catalog fs 0 lines

variable {catalog : Catalog} {line : String} {lines : List String} {k : Nat}

theorem unitName?_eq_some {name : String} : unitName? catalog line = some name ↔
    ∃ text, prepared catalog line.toList = .ok (some text) ∧ tokens text = .ok [.ident "unit", .str name] := by
  constructor
  · intro h
    rw [unitName?] at h
    split at h
    · next text made =>
      split at h
      · next word name' read =>
        split at h
        · next unit =>
          cases h
          subst unit
          exact ⟨text, made, read⟩
        · cases h
      · cases h
    · cases h
  · rintro ⟨text, made, read⟩
    simp only [unitName?, made, read, if_true]

/-- A line begins a unit or belongs to the unit of the line before. -/
theorem unitAfter_cases (catalog : Catalog) (k : Nat) (line : String) : unitAfter catalog k line = k ∨
    unitAfter catalog k line = k + 1 ∧ ∃ text name, prepared catalog line.toList = .ok (some text) ∧
      tokens text = .ok [.ident "unit", .str name] := by
  rw [unitAfter]
  cases found : unitName? catalog line with
  | none => exact .inl rfl
  | some name =>
    obtain ⟨text, made, read⟩ := unitName?_eq_some.mp found
    exact .inr ⟨rfl, text, name, made, read⟩

theorem toList_relabelLine (f : UInt32 → UInt32) (line : String) :
    (relabelLine catalog f line).toList = relabelFrom (ordinalDigits? catalog) f .outside line.toList :=
  String.toList_ofList

/-- A line with other label numbers begins the same unit or none. -/
theorem unitName?_relabelLine (f : UInt32 → UInt32) (line : String) :
    unitName? catalog (relabelLine catalog f line) = unitName? catalog line := by
  refine Option.ext fun name => ?_
  rw [unitName?_eq_some, unitName?_eq_some, toList_relabelLine]
  have alike : Alike Eq (Option.Rel (ReadAlike f)) (prepared catalog line.toList)
      (prepared catalog (relabelFrom (ordinalDigits? catalog) f .outside line.toList)) := alike_prepared f line.toList
  generalize prepared catalog line.toList = x at alike
  generalize prepared catalog (relabelFrom (ordinalDigits? catalog) f .outside line.toList) = y at alike
  cases alike with
  | fault => simp
  | value related =>
    cases related with
    | none => simp
    | some read => simp [read.heading_iff]

theorem inUnits_relabelledFrom (fs : Nat → UInt32 → UInt32) (lines : List String) : ∀ k,
    inUnits catalog k (relabelledFrom catalog fs k lines) =
      (inUnits catalog k lines).map fun p => (p.1, relabelLine catalog (fs p.1) p.2) := by
  induction lines with
  | nil => exact fun _ => rfl
  | cons line lines ih =>
    intro k
    have unit : unitAfter catalog k (relabelLine catalog (fs (unitAfter catalog k line)) line) =
        unitAfter catalog k line := by rw [unitAfter, unitName?_relabelLine, unitAfter]
    rw [relabelledFrom, inUnits, List.map_cons, inUnits, unit, List.map_cons]
    exact congrArg _ (ih _)

theorem labelsIn_relabelLine (f : UInt32 → UInt32) (line : String) :
    labelsIn catalog (relabelLine catalog f line) = (labelsIn catalog line).map f := by
  rw [labelsIn, toList_relabelLine, segments_relabelFrom, List.filterMap_map, labelsIn, List.map_filterMap]
  refine congrFun (congrArg List.filterMap (funext fun segment => ?_)) _
  cases segment with
  | char c => rfl
  | label word number => rfl

/-- Each unit has the labels that its renaming gives, in the same places. -/
theorem unitLabels_relabelled (fs : Nat → UInt32 → UInt32) (lines : List String) (k : Nat) :
    unitLabels catalog (relabelled catalog fs lines) k = (unitLabels catalog lines k).map (fs k) := by
  rw [unitLabels, relabelled, inUnits_relabelledFrom, List.filter_map, List.flatMap_map, unitLabels, List.map_flatMap]
  refine List.flatMap_congr fun p mem => ?_
  obtain rfl : p.1 = k := by simpa using (List.mem_filter.mp mem).2
  exact labelsIn_relabelLine (fs p.1) p.2

/-- Only what becomes of the labels matters. -/
theorem relabelLine_congr {f g : UInt32 → UInt32} (same : ∀ m ∈ labelsIn catalog line, f m = g m) :
    relabelLine catalog f line = relabelLine catalog g line := by
  refine congrArg String.ofList (List.flatMap_congr fun segment mem => ?_)
  cases segment with
  | char c => rfl
  | label word number =>
    have number : f number = g number := same number (List.mem_filterMap.mpr ⟨_, mem, rfl⟩)
    rw [Segment.text, Segment.text, number]

theorem relabelled_congr {fs gs : Nat → UInt32 → UInt32}
    (same : ∀ k, ∀ m ∈ unitLabels catalog lines k, fs k m = gs k m) :
    relabelled catalog fs lines = relabelled catalog gs lines := by
  refine List.map_congr_left fun p mem => relabelLine_congr fun m label => same p.1 m ?_
  exact List.mem_flatMap.mpr ⟨p, List.mem_filter.mpr ⟨mem, beq_self_eq_true _⟩, label⟩

end Source

namespace Assembly

open Source (Line ReadAlike prepared preparedFrom unitAfter unitLabels relabelled relabelledFrom)

variable {catalog : Catalog} {map : String} {fs : Nat → UInt32 → UInt32} {l l' : Line} {ls ls' : List Line} {k : Nat}

/-! ### Headings -/

/-- There are no labels in the heading of a unit. -/
theorem LinesAlike.heading {f : UInt32 → UInt32} {name : String} (h : LinesAlike f l l')
    (unit : Source.tokens l.text = .ok [.ident "unit", .str name]) (g : UInt32 → UInt32) : LinesAlike g l l' := by
  refine ⟨h.number, ?_, h.read.brace⟩
  rw [unit, h.read.heading_iff.mp unit]
  exact .value (.token (by simp) (.token (by simp) .nil))

/-- A heading is no line of a preamble. -/
theorem Preamble.read_heading {text : List Char} {name : String} (p p' : Preamble)
    (unit : Source.tokens text = .ok [.ident "unit", .str name]) : p.read catalog text ≠ .ok p' := by
  intro h
  rw [Preamble.read, unit] at h
  have whole : (p.set catalog "unit" [.str name] >>= fun r => Source.readEnd r.2 >>= fun _ => .ok r.1) = .ok p' := h
  obtain ⟨r, set, -⟩ := bind_eq_ok.mp whole
  rw [Preamble.set, if_neg (by decide), if_neg (by decide), if_neg (by decide), if_neg (by decide),
    if_neg (by decide)] at set
  obtain ⟨_, -, equal⟩ := bind_eq_ok.mp set
  cases equal

/-- A heading is no line of a body. -/
theorem readPiece_heading (name : String) (strings rest : List String) (piece : Piece) :
    ¬Yields (readPiece catalog [.ident "unit", .str name]) strings piece rest := by
  intro h
  cases h

/-- A heading does nothing but begin a unit. -/
theorem step_heading {s s' : State} {name : String} (unit : Source.tokens l.text = .ok [.ident "unit", .str name])
    (h : (s.step catalog map l).result = .ok s') : s' = { s with line := l.number, phase := .preamble name {} } := by
  have notLeft : l.text ≠ ['{'] := by
    intro brace
    rw [brace, tokens_leftBrace] at unit
    cases unit
  have notRight : l.text ≠ ['}'] := by
    intro brace
    rw [brace, tokens_rightBrace] at unit
    cases unit
  cases step_cases h with
  | begin idle tokens =>
    cases unit.symm.trans tokens
    rfl
  | setting phase other read => exact absurd read (Preamble.read_heading _ _ unit)
  | enter phase brace => exact absurd brace notLeft
  | openBlock phase brace => exact absurd brace notLeft
  | closeBlock phase brace => exact absurd brace notRight
  | leave phase brace => exact absurd brace notRight
  | piece phase _ _ tokens read =>
    cases unit.symm.trans tokens
    exact absurd read (readPiece_heading _ _ _ _)

/-! ### Runs -/

/-- Lines after a line of unit `k` are read alike, each under the renaming of its unit. -/
inductive Parallel (fs : Nat → UInt32 → UInt32) : Nat → List Line → List Line → Prop
  | nil {k : Nat} : Parallel fs k [] []
  | line {k : Nat} {l l' : Line} {ls ls' : List Line} (alike : LinesAlike (fs k) l l') (rest : Parallel fs k ls ls') :
    Parallel fs k (l :: ls) (l' :: ls')
  | heading {k : Nat} {l l' : Line} {ls ls' : List Line} {name : String} (alike : LinesAlike (fs (k + 1)) l l')
    (unit : Source.tokens l.text = .ok [.ident "unit", .str name]) (rest : Parallel fs (k + 1) ls ls') :
    Parallel fs k (l :: ls) (l' :: ls')

theorem Parallel.cons {line : String} {text text' : Option (List Char)} (n : Nat)
    (made : prepared catalog line.toList = .ok text)
    (related : Option.Rel (ReadAlike (fs (unitAfter catalog k line))) text text')
    (rest : Parallel fs (unitAfter catalog k line) ls ls') :
    Parallel fs k ((text.map (Line.mk n)).toList ++ ls) ((text'.map (Line.mk n)).toList ++ ls') := by
  obtain same | ⟨next, text, name, heading, unit⟩ := Source.unitAfter_cases catalog k line
  · rw [same] at related rest
    cases related with
    | none => exact rest
    | some read => exact .line ⟨rfl, read⟩ rest
  · rw [next] at related rest
    cases Except.ok.inj (heading.symm.trans made)
    cases related with
    | some read => exact .heading ⟨rfl, read⟩ unit rest

/-- The renamed text is prepared to lines that are read alike. -/
theorem alike_preparedFrom (fs : Nat → UInt32 → UInt32) (lines : List String) : ∀ k n,
    Alike Eq (Parallel fs k) (preparedFrom catalog n lines)
      (preparedFrom catalog n (relabelledFrom catalog fs k lines)) := by
  induction lines with
  | nil => exact fun k n => .value .nil
  | cons line lines ih =>
    intro k n
    have unfolded : relabelledFrom catalog fs k (line :: lines) =
        Source.relabelLine catalog (fs (unitAfter catalog k line)) line ::
          relabelledFrom catalog fs (unitAfter catalog k line) lines := rfl
    rw [unfolded, Source.preparedFrom_cons, Source.preparedFrom_cons, Source.toList_relabelLine]
    refine ((Source.alike_prepared _ line.toList).mapError fun e d same => ?_).bind fun text text' made _ related => ?_
    · rw [same]
    · exact (ih _ (n + 1)).bind fun ls ls' _ _ rest => .value (.cons n (mapError_eq_ok.mp made) related rest)

/-- Lines that are read alike lead from a state and the renamed state to the same units, or to faults of one kind. -/
theorem alike_run (injective : ∀ k, Function.Injective (fs k)) (h : Parallel fs k ls ls') : ∀ s : State,
    Alike Fault.SameKind Eq ((ls.foldlM (State.step catalog map) s).result >>= State.finish map)
      ((ls'.foldlM (State.step catalog map) (s.relabel (fs k))).result >>= State.finish map) := by
  simp only [Traced.result_foldlM]
  induction h with
  | @nil k =>
    intro s
    have same : (s.relabel (fs k)).finish map = s.finish map := finish_relabel s
    simp only [List.foldlM_nil, pure_bind, same]
    exact .refl .refl _
  | @line k _ _ _ _ alike _ ih =>
    intro s
    simp only [List.foldlM_cons, bind_assoc]
    refine (alike_step (injective k) s alike).bind ?_
    rintro s _ - - rfl
    exact ih s
  | @heading k _ _ _ _ _ alike unit _ ih =>
    intro s
    simp only [List.foldlM_cons, bind_assoc]
    refine (alike_step (injective k) s (alike.heading unit (fs k))).bind ?_
    rintro s' _ begun - rfl
    -- No label has been met, so that the renaming of the next unit may take over.
    rw [step_heading unit begun]
    exact ih _

theorem alike_assemble (injective : ∀ k, Function.Injective (fs k)) (lines : List String) :
    Alike Fault.SameKind Eq (assemble catalog map lines).result
      (assemble catalog map (relabelled catalog fs lines)).result := by
  rw [result_assemble, result_assemble]
  refine ((alike_preparedFrom fs lines 0 1).mapError fun e d same => ?_).bind fun ls ls' _ _ parallel => ?_
  · rw [same]
    rfl
  · exact alike_run injective parallel {}

/-! ### Renamings -/

/-- A renaming that keeps some labels apart does the same to them as one that keeps all labels apart. -/
theorem exists_injective {f : UInt32 → UInt32} {labels : Set UInt32} (apart : Set.InjOn f labels) :
    ∃ g : UInt32 → UInt32, Function.Injective g ∧ ∀ m ∈ labels, g m = f m := by
  have all : labels.MapsTo f (Finset.univ : Finset UInt32) := fun m _ => Finset.mem_coe.mpr (Finset.mem_univ _)
  obtain ⟨e, agrees⟩ := all.exists_equiv_extend_of_card_eq Finset.card_univ.symm apart
  exact ⟨fun m => e m, Subtype.val_injective.comp e.injective, agrees⟩

/-- The numbers of labels do not matter. If the labels of each unit are renamed and none of them fall together, the text
is assembled to the same units, or is refused with a fault of the same kind. The labels of the new text are the renamed
ones. -/
theorem assemble_relabelled (catalog : Catalog) (map : String) (lines : List String) (fs : Nat → UInt32 → UInt32)
    (apart : ∀ k, Set.InjOn (fs k) {m | m ∈ unitLabels catalog lines k}) :
    (∀ k, unitLabels catalog (relabelled catalog fs lines) k = (unitLabels catalog lines k).map (fs k)) ∧
    (∀ us, (assemble catalog map (relabelled catalog fs lines)).result = .ok us ↔
      (assemble catalog map lines).result = .ok us) ∧
    ∀ e, (assemble catalog map lines).result = .error e →
      ∃ d, (assemble catalog map (relabelled catalog fs lines)).result = .error d ∧ d.kind = e.kind := by
  refine ⟨Source.unitLabels_relabelled fs lines, ?_⟩
  choose gs injective agrees using fun k => exists_injective (apart k)
  rw [Source.relabelled_congr fun k m mem => (agrees k m mem).symm]
  have alike : Alike Fault.SameKind Eq (assemble catalog map lines).result
      (assemble catalog map (relabelled catalog gs lines)).result := alike_assemble injective lines
  generalize (assemble catalog map lines).result = x at alike
  generalize (assemble catalog map (relabelled catalog gs lines)).result = y at alike
  cases alike with
  | value same =>
    subst same
    exact ⟨fun us => Iff.rfl, by simp⟩
  | fault same =>
    refine ⟨by simp, fun e failed => ⟨_, rfl, ?_⟩⟩
    cases failed
    exact same.symm

/-- Two units with labels of the same numbers. The name in angle brackets stands for 2. -/
def towersText : List String :=
  ["unit \"Gate\"", "entry = #2", Text.leftBrace, "#1:", "Message(\"to #1\") // not to #2", "#2:", "if GateOpen = 1",
    Text.leftBrace, "goto #1", Text.rightBrace, "gosub #<Cave>", "return", Text.rightBrace,
    "unit \"Tower\"", Text.leftBrace, "#1:", "end #1", Text.rightBrace]

/-- The text with labels 40 and 7 in the first unit and 2 in the second. -/
def renamedTowers : List String :=
  ["unit \"Gate\"", "entry = #7", Text.leftBrace, "#40:", "Message(\"to #1\") // not to #2", "#7:", "if GateOpen = 1",
    Text.leftBrace, "goto #40", Text.rightBrace, "gosub #7", "return", Text.rightBrace,
    "unit \"Tower\"", Text.leftBrace, "#2:", "end #2", Text.rightBrace]

/-- A unit without the marks of its labels. -/
def lostTowers : List String := ["unit \"Gate\"", Text.leftBrace, "goto #1", "goto #2", Text.rightBrace]

/-- What the labels become. Only the labels of the first unit are kept apart. -/
def towersNaming (k : Nat) (m : UInt32) : UInt32 :=
  if k = 1 then if m = 1 then 40 else 7 else if k = 2 then 2 else m

theorem injOn_towersNaming {lines : List String} (first : unitLabels .village lines 1 ⊆ [1, 2])
    (second : unitLabels .village lines 2 ⊆ [1]) (k : Nat) :
    Set.InjOn (towersNaming k) {m | m ∈ unitLabels .village lines k} := by
  have differ : towersNaming 1 1 ≠ towersNaming 1 2 := by decide
  intro m hm n hn same
  by_cases unit : k = 1
  · subst unit
    obtain rfl | rfl := List.mem_pair.mp (first hm) <;> obtain rfl | rfl := List.mem_pair.mp (first hn)
    · rfl
    · exact absurd same differ
    · exact absurd same.symm differ
    · rfl
  by_cases unit' : k = 2
  · subst unit'
    rw [List.mem_singleton.mp (second hm), List.mem_singleton.mp (second hn)]
  · rwa [towersNaming, towersNaming, if_neg unit, if_neg unit', if_neg unit, if_neg unit'] at same

/-- The units are the same. Where both labels are missing the smaller one is reported, which is another one after the
renaming. -/
theorem assemble_relabelled_towers :
    (∀ k, Set.InjOn (towersNaming k) {m | m ∈ unitLabels .village towersText k}) ∧
    unitLabels .village renamedTowers 1 = [7, 40, 7, 40, 7] ∧
    (∃ us, (assemble .village "field" towersText).result = .ok us ∧
      (assemble .village "field" renamedTowers).result = .ok us) ∧
    (assemble .village "field" lostTowers).result = .error (.unresolvedLabel "field" "Gate" 1) ∧
    ∃ d, (assemble .village "field" (relabelled .village towersNaming lostTowers)).result = .error d ∧
      d.kind = .unresolved "field" "Gate" := by
  have apart : ∀ k, Set.InjOn (towersNaming k) {m | m ∈ unitLabels .village towersText k} :=
    injOn_towersNaming (by decide +kernel) (by decide +kernel)
  have apart' : ∀ k, Set.InjOn (towersNaming k) {m | m ∈ unitLabels .village lostTowers k} :=
    injOn_towersNaming (by decide +kernel) (by decide +kernel)
  have renamed : relabelled .village towersNaming towersText = renamedTowers := by decide +kernel
  obtain ⟨us, made⟩ := exists_eq_ok_of_toOption (x := (assemble .village "field" towersText).result) (by decide +kernel)
  have whole := assemble_relabelled .village "field" towersText towersNaming apart
  rw [renamed] at whole
  have failed : (assemble .village "field" lostTowers).result = .error (.unresolvedLabel "field" "Gate" 1) := by
    decide +kernel
  have labels : (unitLabels .village towersText 1).map (towersNaming 1) = [7, 40, 7, 40, 7] := by decide +kernel
  exact ⟨apart, (whole.1 1).trans labels, ⟨us, made, (whole.2.1 us).mpr made⟩, failed,
    (assemble_relabelled .village "field" lostTowers towersNaming apart').2.2 _ failed⟩

end Assembly

end EventScript
