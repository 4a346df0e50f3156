import EventScript.Proofs.LabelPlaces

/-!
# Jumps in listings

A jump of a text is shown in the listing with a label again, and the line of that label stands right in front of
the statement that the label of the text stood in front of, or at the end (`jumps_listed`). There is one
exception: zero in the code of `goto` and `end` means that there is no target, so that such a jump to the first
statement is shown without a label (`goto_first_listed_bare`).
-/

namespace EventScript

namespace Source

/-- The line of a label stands after `n` statements. -/
def LabelAfter (es : List BodyLine) (l : UInt32) (n : Nat) : Prop :=
  ∃ before after, es = before ++ .label l :: after ∧ (statementsOf before).length = n

/-- The line of a label stands after `n` statements, right in front of the next one or at the end. -/
def LabelBefore (es : List BodyLine) (l : UInt32) (n : Nat) : Prop :=
  ∃ before after, es = before ++ .label l :: after ∧ (statementsOf before).length = n ∧
    ∀ e ∈ after.head?, e.statement?.isSome = true

/-- The jumps of one outline go where those of another do, except that a jump to the first statement stands
without a label where it may. -/
structure Faithful (es es' : List BodyLine) : Prop where
  /-- The statements are the same, as far as jumps are concerned. -/
  words : (statementsOf es').map (Option.map Prod.fst) = (statementsOf es).map (Option.map Prod.fst)
  /-- No label stands on two lines. -/
  once : (labelsOf es).Nodup ∧ (labelsOf es').Nodup
  jumps : ∀ (n : Nat) (word : JumpWord) (l : UInt32), (statementsOf es)[n]? = some (some (word, some l)) →
    ∃ place, LabelAfter es l place ∧
    if word.optional = true ∧ place = 0 then (statementsOf es')[n]? = some (some (word, none))
    else ∃ m, (statementsOf es')[n]? = some (some (word, some m)) ∧ LabelBefore es' m place

/-- The outlines of the bodies in a text that is to be assembled. -/
def writtenOutlines (catalog : Catalog) (lines : List String) : List (List BodyLine) :=
  match preparedFrom catalog 1 lines with
  | .ok ls => outlines (ls.map Line.text)
  | .error _ => []

theorem labelsOf_unbraced (es : List BodyLine) : labelsOf (unbraced es) = labelsOf es := by
  induction es with
  | nil => rfl
  | cons e es ih =>
    cases e with
    | brace => exact ih
    | label l => exact congrArg (l :: ·) ih
    | statement jump => exact ih

end Source

namespace Code

open Source (BodyLine labelsOf statementsOf)

theorem Precedes.labelBefore {l : UInt32} {n : Nat} {es : List BodyLine} (h : Precedes l n es) :
    Source.LabelBefore es l n := by
  obtain ⟨before, jump, after, found, count⟩ := h
  refine ⟨before, .statement jump :: after, found, count, ?_⟩
  rintro e ⟨⟩
  rfl

end Code

variable {catalog : Catalog} {u : ScriptUnit} {body : List Code.Statement}

open Source (BodyLine labelsOf statementsOf)

theorem statementsOf_entries : statementsOf (u.entries body) = statementsOf (Code.blockOutline body) := by
  rw [ScriptUnit.entries, Source.statementsOf_append, Code.statementsOf_blockEntries]
  split <;> exact List.append_nil _

/-- The labels of a listing ascend. -/
theorem nodup_labelsOf_entries (size : Code.blockSize body = u.code.length) :
    (labelsOf (u.entries body)).Nodup := by
  have ascending := Code.pairwise_blockStops 0 body
  have sublist : ((labelsOf (u.entries body)).map UInt32.toNat).Sublist (Code.blockStops 0 body) := by
    rw [ScriptUnit.entries, Source.labelsOf_append, List.map_append, Code.labelsOf_blockEntries, Code.blockStops,
      Nat.zero_add]
    refine List.filter_sublist.append ?_
    split
    · next shown =>
      obtain ⟨⟨l, -, last⟩, -⟩ := endLabel?_isSome.mp shown
      rw [← last, UInt32.ofNat_toNat, size, ← last]
      exact List.Sublist.refl _
    · exact List.nil_sublist _
  refine List.Pairwise.of_map UInt32.toNat (fun l m less same => ?_) (ascending.sublist sublist)
  rw [same] at less
  exact Nat.lt_irrefl _ less

/-- The label of the address of a statement, or of the end, stands there. -/
theorem labelBefore_entries (size : Code.blockSize body = u.code.length) {l : UInt32} (mem : l ∈ u.labels body)
    {n : Nat} (stop : (Code.blockStops 0 body)[n]? = some l.toNat) : Source.LabelBefore (u.entries body) l n := by
  rw [Code.blockStops, Nat.zero_add, size] at stop
  by_cases start : n < (Code.blockStarts 0 body).length
  · rw [List.getElem?_append_left start] at stop
    exact ((Code.label_of_start mem body 0 n stop).append_right _).labelBefore
  · rw [List.getElem?_append_right (by omega)] at stop
    obtain ⟨bound, last⟩ := List.getElem?_eq_some_iff.mp stop
    rw [List.length_singleton] at bound
    rw [List.getElem_singleton] at last
    have shown : (u.endLabel? body).isSome = true := by
      refine endLabel?_isSome.mpr ⟨⟨l, mem, last.symm⟩, fun mem => ?_⟩
      have inside := Code.blockStarts_bound body 0 mem
      omega
    refine ⟨Code.blockEntries (u.labels body) 0 body, [], ?_, ?_, by rintro e ⟨⟩⟩
    · rw [ScriptUnit.entries, if_pos shown, last, UInt32.ofNat_toNat]
    · rw [Code.statementsOf_blockEntries, Code.length_statementsOf_outline body 0]
      omega

namespace Assembly.Compiled

open Code

variable {P : String → Prop} {es : List BodyLine}

/-- A label after `n` statements has the address of the next one, or that of the end. -/
theorem stop_of_labelAfter (h : Compiled catalog P body u) (small : u.code.length ≤ 65535)
    (outline : blockOutline body = Source.unbraced es) (nodup : (labelsOf (blockOutline body)).Nodup)
    {l : UInt32} {n : Nat} (found : Source.LabelAfter es l n) :
    (blockStops 0 (locatedBody body))[n]? = some (lowAddress (blockMarks 0 body) l).toNat := by
  obtain ⟨before, after, rfl, rfl⟩ := found
  have cut : blockOutline body = Source.unbraced before ++ .label l :: Source.unbraced after := by
    rw [outline, Source.unbraced_append]
    rfl
  obtain ⟨a, mem, stop⟩ := mark_of_outline body 0 cut
  rw [labelsOf_blockOutline body 0] at nodup
  rw [h.toNat_lowAddress small (address?_of_mem nodup mem), ← stop, Source.statementsOf_unbraced, blockStops,
    blockStops, locatedBody, blockStarts_located, blockSize_located]

/-- Every label that a jump names stands on a line. -/
theorem labelAfter_of_target (h : Compiled catalog P body u) (outline : blockOutline body = Source.unbraced es)
    {l : UInt32} (target : l ∈ blockTargets body) : ∃ n, Source.LabelAfter es l n := by
  obtain ⟨a, found⟩ := Option.isSome_iff_exists.mp (h.labels l target)
  have marked : l ∈ labelsOf (blockOutline body) := by
    rw [labelsOf_blockOutline body 0]
    exact List.mem_map.mpr ⟨_, mem_of_address? found, rfl⟩
  rw [outline, Source.labelsOf_unbraced] at marked
  obtain ⟨e, mem, label⟩ := List.mem_filterMap.mp marked
  cases e with
  | label m =>
    cases label
    obtain ⟨before, after, rfl⟩ := List.append_of_mem mem
    exact ⟨_, before, after, rfl, rfl⟩
  | statement jump => cases label
  | brace => cases label

/-- The listing of a unit that assembly made jumps to where its text did. -/
theorem faithful (h : Compiled catalog P body u) (small : u.code.length ≤ 65535)
    (outline : blockOutline body = Source.unbraced es) (nodup : (labelsOf (blockOutline body)).Nodup) :
    Source.Faithful es (u.entries (locatedBody body)) := by
  have source : statementsOf (blockOutline body) = statementsOf es := by
    rw [outline, Source.statementsOf_unbraced]
  have listed : statementsOf (u.entries (locatedBody body)) =
      (statementsOf es).map (Option.map (relocated (lowAddress (blockMarks 0 body)))) := by
    rw [statementsOf_entries, locatedBody, statementsOf_located, source]
  refine ⟨?_, ⟨?_, nodup_labelsOf_entries h.size⟩, ?_⟩
  · rw [listed, List.map_map]
    refine List.map_congr_left fun jump _ => ?_
    rcases jump with _ | ⟨word, target⟩
    · rfl
    · cases word <;> rfl
  · rwa [outline, Source.labelsOf_unbraced] at nodup
  · intro n word l written
    have target : l ∈ blockTargets body :=
      mem_targets_of_outline body (source ▸ List.mem_of_getElem? written)
    obtain ⟨place, found⟩ := h.labelAfter_of_target outline target
    have stop := h.stop_of_labelAfter small outline nodup found
    have first : lowAddress (blockMarks 0 body) l = 0 ↔ place = 0 := by
      rw [← blockStops_eq_start_iff stop, ← UInt32.toNat_inj]
      rfl
    have shown : (statementsOf (u.entries (locatedBody body)))[n]? =
        some (some (relocated (lowAddress (blockMarks 0 body)) (word, some l))) := by
      rw [listed, List.getElem?_map, written]
      rfl
    rw [relocated_label] at shown
    refine ⟨place, found, ?_⟩
    split
    · next bare => rwa [if_pos ⟨bare.1, first.mpr bare.2⟩] at shown
    · next labelled =>
      rw [if_neg fun bare => labelled ⟨bare.1, first.mp bare.2⟩] at shown
      refine ⟨_, shown, labelBefore_entries h.size (mem_labels_of_target ?_) stop⟩
      rw [statementsOf_entries] at shown
      exact mem_targets_of_outline _ (List.mem_of_getElem? shown)

end Assembly.Compiled

open Assembly

/-- In the listing of a unit of at most 65535 bytes of code, every jump that was written with a label has a label
again, which stands right in front of the statement that followed the label in the text, or at the end if none
did. Only a `goto` or an `end` whose label stood in front of all statements is shown without a label. -/
theorem jumps_listed {sources : Catalog.Sources} (accepted : (Catalog.ofSources sources).result = .ok catalog)
    {map : String} {lines : List String} {us : List ScriptUnit}
    (assembled : (assemble catalog map lines).result = .ok us) :
    (Source.writtenOutlines catalog lines).length = us.length ∧
      ∀ (i : Nat) (es : List BodyLine) (u : ScriptUnit),
        (Source.writtenOutlines catalog lines)[i]? = some es → us[i]? = some u → u.code.length ≤ 65535 →
        ∀ {text : List String}, (u.listing catalog).result = .ok text →
          ∃ es', Source.listedOutlines text = [es'] ∧ Source.Faithful es es' := by
  obtain ⟨ls, prepared, -⟩ := Traced.result_bind_eq_ok.mp assembled
  replace prepared := mapError_eq_ok.mp prepared
  obtain ⟨s, rfl, made⟩ := assemble_made assembled prepared (P := fun _ => True) fun _ _ _ _ => trivial
  rw [Source.writtenOutlines, prepared]
  refine ⟨made.count, fun i es u written unit small text listed => ?_⟩
  obtain ⟨body, compiled, outline, nodup⟩ := (made.units i es u written unit).compiled
  obtain ⟨body', statements, -⟩ := listing_eq_ok.mp listed
  obtain rfl := compiled.eq_locatedBody small statements
  have textual : Code.blockTextual (locatedBody body) :=
    Code.blockTextual_located
      (Code.blockAll_imp (fun _ made => (made []).textual) (fun _ made => (made []).textual) compiled.made)
  exact ⟨_, listedOutlines_listing (Catalog.sound_ofSources accepted) textual compiled.vars statements listed,
    compiled.faithful small outline nodup⟩

/-- A script with jumps forward and back, out of a block, to the first statement and to the end. -/
def patrolText : List String :=
  ["unit \"Patrol\"", Text.leftBrace, "#1:", "gosub #2", "if GateOpen = 0", Text.leftBrace, "@pause #1", "goto #3",
    "#3:", Text.rightBrace, "goto #2", "end #1", "#2:", Text.rightBrace]

/-- The unit of the script. -/
def patrolUnit : ScriptUnit where
  header := { name := "Patrol", instances := 1, scriptLength := 40 }
  strings := []
  vars := []
  code := [15, 0, 0, 0, 40, 3, 6, 0, 3, 0, 7, 0, 0, 0, 0, 0, 0, 0, 0, 10, 17, 0, 0, 0, 0, 4, 0, 0, 0, 30, 4, 0, 0,
    0, 40, 5, 0, 0, 0, 0]
  attributes := List.replicate 256 0

/-- The listing of the unit. -/
def patrolListing : List String :=
  ["unit \"Patrol\"", "instances = 1", "entry = 0", "variables(0)", Text.leftBrace, "    #0:", "    gosub #40",
    "    if GateOpen = 0", "    " ++ Text.leftBrace, "        @pause #0", "        goto #30",
    "    " ++ Text.rightBrace, "    #30:", "    goto #40", "    end", "    #40:", Text.rightBrace]

theorem assemble_patrolText : (assemble .village "field" patrolText).result = .ok [patrolUnit] :=
  eq_ok_of_toOption (by decide +kernel)

/-- The outline of the script. -/
def patrolOutline : List BodyLine :=
  [.label 1, .statement (some (.gosub, some 2)), .statement none, .brace, .statement (some (.pause, some 1)),
    .statement (some (.goto, some 3)), .label 3, .brace, .statement (some (.goto, some 2)),
    .statement (some (.stop, some 1)), .label 2]

theorem writtenOutlines_patrolText : Source.writtenOutlines .village patrolText = [patrolOutline] := by
  decide +kernel

theorem listing_patrolUnit : (patrolUnit.listing .village).result = .ok patrolListing :=
  eq_ok_of_toOption (by decide +kernel)

theorem jumps_listed_patrolText : Source.writtenOutlines .village patrolText = [patrolOutline] ∧
    ∃ es', Source.listedOutlines patrolListing = [es'] ∧ Source.Faithful patrolOutline es' := by
  obtain ⟨-, listed⟩ := jumps_listed Catalog.village_accepted assemble_patrolText
  refine ⟨writtenOutlines_patrolText, listed 0 patrolOutline patrolUnit ?_ rfl (by decide) listing_patrolUnit⟩
  rw [writtenOutlines_patrolText]
  rfl

/-- A `goto` to the first statement loses its label: the code of the jump is that of one without a target. -/
theorem goto_first_listed_bare : ∃ u text es es',
    (assemble .village "field" ["unit \"Loop\"", Text.leftBrace, "#1:", "goto #1", Text.rightBrace]).result = .ok [u] ∧
      u.code.length ≤ 65535 ∧ (u.listing .village).result = .ok text ∧
      Source.writtenOutlines .village ["unit \"Loop\"", Text.leftBrace, "#1:", "goto #1", Text.rightBrace] = [es] ∧
      Source.listedOutlines text = [es'] ∧ (statementsOf es)[0]? = some (some (.goto, some 1)) ∧
      ∀ m, (statementsOf es')[0]? ≠ some (some (.goto, some m)) := by
  refine ⟨{
    header := { name := "Loop", instances := 1, scriptLength := 5 }
    strings := []
    vars := []
    code := [4, 0, 0, 0, 0]
    attributes := List.replicate 256 0 },
    ["unit \"Loop\"", "instances = 1", "entry = 0", "variables(0)", Text.leftBrace, "    goto", Text.rightBrace],
    [.label 1, .statement (some (.goto, some 1))], [.statement (some (.goto, none))],
    eq_ok_of_toOption (by decide +kernel), by decide, eq_ok_of_toOption (by decide +kernel), by decide +kernel,
    by decide +kernel, rfl, ?_⟩
  rintro m ⟨⟩

end EventScript
