import EventScript.Proofs.ListingOutline
import EventScript.Proofs.Located

/-!
# Where labels stand

The place of a label in an outline is the number of statements before it. In a text, a label after `n`
statements marks the address of the next one, or that of the end (`mark_of_outline`). In a listing, the label
of such an address stands right in front of the statement (`label_of_start`). The addresses at which statements
begin ascend, so that the place of a label and its address determine each other.
-/

namespace EventScript.Code

open Source (BodyLine JumpWord labelsOf statementsOf)

/-! ### Addresses -/

mutual

theorem Statement.pairwise_starts : ∀ (s : Statement) (address : Nat), (s.starts address).Pairwise (· < ·)
  | .action _, _ => List.pairwise_singleton ..
  | .block guard body, address => by
    have pos : 0 < guard.size := Nat.succ_pos _
    refine List.pairwise_cons.mpr ⟨fun a ha => ?_, pairwise_blockStarts body _⟩
    have := blockStarts_bound body _ ha
    omega
  | .mark _, _ => List.Pairwise.nil

/-- Statements begin at ascending addresses. -/
theorem pairwise_blockStarts : ∀ (ss : List Statement) (address : Nat),
    (blockStarts address ss).Pairwise (· < ·)
  | [], _ => List.Pairwise.nil
  | s :: ss, address => by
    refine List.pairwise_append.mpr ⟨s.pairwise_starts address, pairwise_blockStarts ss _, ?_⟩
    intro a ha b hb
    have first := s.starts_bound address ha
    have second := blockStarts_bound ss _ hb
    omega

end

/-- The addresses at which the statements of a block begin, and that of its end. -/
def blockStops (address : Nat) (ss : List Statement) : List Nat :=
  blockStarts address ss ++ [address + blockSize ss]

theorem blockStops_cons (address : Nat) (s : Statement) (ss : List Statement) :
    blockStops address (s :: ss) = s.starts address ++ blockStops (address + s.size) ss := by
  rw [blockStops, blockStops, blockStarts, blockSize, List.append_assoc, Nat.add_assoc]

theorem pairwise_blockStops (address : Nat) (ss : List Statement) :
    (blockStops address ss).Pairwise (· < ·) := by
  refine List.pairwise_append.mpr ⟨pairwise_blockStarts ss address, List.pairwise_singleton .., ?_⟩
  intro a ha b hb
  rw [List.mem_singleton.mp hb]
  exact (blockStarts_bound ss address ha).2

/-- The first statement of a block begins where the block does. -/
theorem exists_blockStops_eq : ∀ (ss : List Statement) (address : Nat),
    ∃ rest, blockStops address ss = address :: rest
  | [], _ => ⟨[], rfl⟩
  | .action _ :: _, _ => ⟨_, rfl⟩
  | .block _ _ :: _, _ => ⟨_, rfl⟩
  | .mark _ :: ss, address => by
    rw [blockStops_cons]
    exact exists_blockStops_eq ss address

/-- Only the first statement begins where the block does. -/
theorem blockStops_eq_start_iff {ss : List Statement} {address n a : Nat}
    (h : (blockStops address ss)[n]? = some a) : a = address ↔ n = 0 := by
  obtain ⟨rest, stops⟩ := exists_blockStops_eq ss address
  have ascending := pairwise_blockStops address ss
  rw [stops] at h ascending
  cases n with
  | zero =>
    cases h
    exact ⟨fun _ => rfl, fun _ => rfl⟩
  | succ n =>
    have less := (List.pairwise_cons.mp ascending).1 a (List.mem_of_getElem? h)
    omega

mutual

theorem Statement.length_statementsOf : ∀ (s : Statement) (address : Nat),
    (statementsOf s.outline).length = (s.starts address).length
  | .action _, _ => rfl
  | .block guard body, address => congrArg (· + 1) (length_statementsOf_outline body (address + guard.size))
  | .mark _, _ => rfl

theorem length_statementsOf_outline : ∀ (ss : List Statement) (address : Nat),
    (statementsOf (blockOutline ss)).length = (blockStarts address ss).length
  | [], _ => rfl
  | s :: ss, address => by
    rw [blockOutline, Source.statementsOf_append, List.length_append, s.length_statementsOf address,
      length_statementsOf_outline ss (address + s.size), blockStarts, List.length_append]

end

/-! ### Labels of a text -/

/-- An entry of two outlines, one after the other, is in the first or in the second. -/
theorem cut_append {e : BodyLine} {as bs before after : List BodyLine} (h : as ++ bs = before ++ e :: after) :
    (∃ inner, as = before ++ e :: inner) ∨ ∃ outer, before = as ++ outer ∧ bs = outer ++ e :: after := by
  rcases List.append_eq_append_iff.mp h with ⟨outer, found, rest⟩ | ⟨inner, found, rest⟩
  · exact .inr ⟨outer, found, rest⟩
  · cases inner with
    | nil => exact .inr ⟨[], by rw [found, List.append_nil, List.append_nil], rest.symm⟩
    | cons x inner =>
      obtain ⟨rfl, -⟩ := List.cons.inj rest
      exact .inl ⟨inner, found⟩

/-- A label marks the address of the statement that comes next, or that of the end. -/
theorem mark_of_outline {l : UInt32} : ∀ (ss : List Statement) (address : Nat) {before after : List BodyLine},
    blockOutline ss = before ++ .label l :: after →
      ∃ a, (l, a) ∈ blockMarks address ss ∧
        (blockStops address ss)[(statementsOf before).length]? = some a
  | [], _, before, _, h => by
    cases before <;> cases h
  | .action action :: ss, address, before, after, h => by
    rw [blockStops_cons]
    cases before with
    | nil => cases h
    | cons e before =>
      obtain ⟨rfl, rest⟩ := List.cons.inj h
      obtain ⟨a, mem, place⟩ := mark_of_outline ss (address + action.size) rest
      exact ⟨a, mem, place⟩
  | .mark label :: ss, address, before, after, h => by
    rw [blockStops_cons]
    cases before with
    | nil =>
      cases h
      obtain ⟨rest, stops⟩ := exists_blockStops_eq ss address
      exact ⟨address, List.mem_cons_self .., congrArg (·[0]?) stops⟩
    | cons e before =>
      obtain ⟨rfl, rest⟩ := List.cons.inj h
      obtain ⟨a, mem, place⟩ := mark_of_outline ss address rest
      exact ⟨a, List.mem_cons_of_mem _ mem, place⟩
  | .block guard body :: ss, address, before, after, h => by
    cases before with
    | nil => cases h
    | cons e before =>
      obtain ⟨rfl, rest⟩ := List.cons.inj h
      -- The end of the body is where the statement after the block begins.
      obtain ⟨others, stops⟩ := exists_blockStops_eq ss (address + (Statement.block guard body).size)
      have joined : blockStarts (address + guard.size) body ++
          blockStops (address + (Statement.block guard body).size) ss =
          blockStops (address + guard.size) body ++ others := by
        rw [stops, blockStops, List.append_assoc, Statement.size, Nat.add_assoc]
        rfl
      rw [blockStops_cons, Statement.starts, List.cons_append]
      rcases cut_append rest with ⟨inner, found⟩ | ⟨outer, rfl, found⟩
      · obtain ⟨a, mem, place⟩ := mark_of_outline body (address + guard.size) found
        obtain ⟨bound, -⟩ := List.getElem?_eq_some_iff.mp place
        refine ⟨a, List.mem_append_left _ mem, ?_⟩
        rw [joined]
        exact (List.getElem?_append_left bound).trans place
      · obtain ⟨a, mem, place⟩ := mark_of_outline ss (address + (Statement.block guard body).size) found
        refine ⟨a, List.mem_append_right _ mem, ?_⟩
        have count : (statementsOf (.statement none :: (blockOutline body ++ outer))).length =
            (blockStarts (address + guard.size) body).length + (statementsOf outer).length + 1 := by
          rw [← length_statementsOf_outline, ← List.length_append, ← Source.statementsOf_append]
          rfl
        rw [count, List.getElem?_cons_succ, List.getElem?_append_right (Nat.le_add_right ..),
          Nat.add_sub_cancel_left, place]

mutual

theorem Statement.labelsOf_outline : ∀ (s : Statement) (address : Nat),
    labelsOf s.outline = (s.marks address).map Prod.fst
  | .action _, _ => rfl
  | .block guard body, address => labelsOf_blockOutline body (address + guard.size)
  | .mark _, _ => rfl

/-- The labels of an outline are those that are marked. -/
theorem labelsOf_blockOutline : ∀ (ss : List Statement) (address : Nat),
    labelsOf (blockOutline ss) = (blockMarks address ss).map Prod.fst
  | [], _ => rfl
  | s :: ss, address => by
    rw [blockOutline, Source.labelsOf_append, s.labelsOf_outline address,
      labelsOf_blockOutline ss (address + s.size), blockMarks, List.map_append]

end

mutual

theorem Statement.mem_targets_of_outline {word : JumpWord} {l : UInt32} : ∀ s : Statement,
    some (word, some l) ∈ statementsOf s.outline → l ∈ s.targets
  | .action a, h => by
    have jump : some (word, some l) = a.jump? := List.mem_singleton.mp h
    cases a with
    | goto target => cases jump; exact List.mem_singleton_self l
    | stop target => cases jump; exact List.mem_singleton_self l
    | gosub target => cases jump; exact List.mem_singleton_self l
    | pause target => cases jump; exact List.mem_singleton_self l
    | _ => cases jump
  | .block _ body, h => by
    rcases List.mem_cons.mp h with same | mem
    · cases same
    · exact mem_targets_of_outline body mem
  | .mark _, h => by cases h

/-- The label of a jump is a target. -/
theorem mem_targets_of_outline {word : JumpWord} {l : UInt32} : ∀ ss : List Statement,
    some (word, some l) ∈ statementsOf (blockOutline ss) → l ∈ blockTargets ss
  | [], h => by cases h
  | s :: ss, h => by
    rw [blockOutline, Source.statementsOf_append] at h
    rcases List.mem_append.mp h with mem | mem
    · exact List.mem_append_left _ (s.mem_targets_of_outline mem)
    · exact List.mem_append_right _ (mem_targets_of_outline ss mem)

end

/-- If no label is marked twice, the address of a label is that of any of its marks. -/
theorem address?_of_mem {marks : List (UInt32 × Nat)} (nodup : (marks.map Prod.fst).Nodup) {l : UInt32} {a : Nat}
    (mem : (l, a) ∈ marks) : Assembly.address? marks l = some a := by
  rw [Assembly.address?]
  induction marks with
  | nil => cases mem
  | cons mark marks ih =>
    obtain ⟨new, nodup⟩ := List.nodup_cons.mp nodup
    rcases List.mem_cons.mp mem with rfl | mem
    · exact List.lookup_cons_self
    · have other : (l == mark.1) = false := by
        refine beq_false_of_ne ?_
        rintro rfl
        exact new (List.mem_map.mpr ⟨_, mem, rfl⟩)
      rw [List.lookup_cons, other]
      exact ih nodup mem

/-! ### Labels of a listing -/

/-- A jump with an address for its label. -/
def relocated (f : UInt32 → UInt32) : JumpWord × Option UInt32 → JumpWord × Option UInt32
  | (.goto, target) => (.goto, target.bind fun l => targetOf (f l))
  | (.stop, target) => (.stop, target.bind fun l => targetOf (f l))
  | (.gosub, target) => (.gosub, target.map f)
  | (.pause, target) => (.pause, target.map f)

theorem relocated_label (f : UInt32 → UInt32) (word : JumpWord) (l : UInt32) :
    relocated f (word, some l) = (word, if word.optional = true ∧ f l = 0 then none else some (f l)) := by
  cases word <;> simp [relocated, JumpWord.optional, targetOf]

theorem Action.jump?_located (f : UInt32 → UInt32) (a : Action) :
    (a.located f).jump? = a.jump?.map (relocated f) := by
  cases a <;> rfl

mutual

theorem Statement.statementsOf_located (f : UInt32 → UInt32) : ∀ s : Statement,
    statementsOf (blockOutline (s.located f)) = (statementsOf s.outline).map (Option.map (relocated f))
  | .action a => congrArg (fun jump => [jump]) (a.jump?_located f)
  | .block guard body => by
    have inner := statementsOf_located f body
    rw [Statement.located, blockOutline, blockOutline, List.append_nil, Statement.outline, Statement.outline]
    exact congrArg (none :: ·) inner
  | .mark _ => rfl

/-- The listed body has the jumps of the text, with addresses for labels. -/
theorem statementsOf_located (f : UInt32 → UInt32) : ∀ ss : List Statement,
    statementsOf (blockOutline (locatedBlock f ss)) =
      (statementsOf (blockOutline ss)).map (Option.map (relocated f))
  | [] => rfl
  | s :: ss => by
    rw [locatedBlock, blockOutline_append, Source.statementsOf_append, s.statementsOf_located f,
      statementsOf_located f ss, blockOutline, Source.statementsOf_append, List.map_append]

end

variable (labels : List UInt32)

theorem statementsOf_labelEntry (address : Nat) : statementsOf (labelEntry labels address) = [] := by
  rw [labelEntry]
  split <;> rfl

theorem labelsOf_labelEntry (address : Nat) : (labelsOf (labelEntry labels address)).map UInt32.toNat =
    [address].filter fun a => labels.any fun l => l.toNat == a := by
  rw [labelEntry, List.filter_cons, List.filter_nil]
  split
  · next isLabel =>
    obtain ⟨label, -, same⟩ := List.any_eq_true.mp isLabel
    obtain rfl : label.toNat = address := beq_iff_eq.mp same
    rw [UInt32.ofNat_toNat]
    rfl
  · rfl

mutual

theorem Statement.statementsOf_entries : ∀ (s : Statement) (address : Nat),
    statementsOf (s.entries labels address) = statementsOf s.outline
  | .action a, address => by
    rw [Statement.entries, Source.statementsOf_append, statementsOf_labelEntry, List.nil_append,
      Statement.outline]
  | .block guard body, address => by
    have inner := statementsOf_blockEntries body (address + guard.size)
    rw [Statement.entries, Source.statementsOf_append, statementsOf_labelEntry, List.nil_append,
      Statement.outline]
    refine congrArg (none :: ·) ?_
    cases body with
    | nil => rfl
    | cons s ss =>
      refine (Source.statementsOf_append _ [.brace]).trans ?_
      rw [inner]
      exact List.append_nil _
  | .mark _, _ => rfl

/-- The lines of a block show its statements. -/
theorem statementsOf_blockEntries : ∀ (ss : List Statement) (address : Nat),
    statementsOf (blockEntries labels address ss) = statementsOf (blockOutline ss)
  | [], _ => rfl
  | s :: ss, address => by
    rw [blockEntries, Source.statementsOf_append, s.statementsOf_entries, statementsOf_blockEntries ss,
      blockOutline, Source.statementsOf_append]

end

mutual

theorem Statement.labelsOf_entries : ∀ (s : Statement) (address : Nat),
    (labelsOf (s.entries labels address)).map UInt32.toNat =
      (s.starts address).filter fun a => labels.any fun l => l.toNat == a
  | .action a, address => by
    rw [Statement.entries, Source.labelsOf_append, List.map_append, labelsOf_labelEntry]
    exact List.append_nil _
  | .block guard body, address => by
    have inner := labelsOf_blockEntries body (address + guard.size)
    have starts : (Statement.block guard body).starts address =
        [address] ++ blockStarts (address + guard.size) body := rfl
    rw [Statement.entries, Source.labelsOf_append, List.map_append, labelsOf_labelEntry, starts,
      List.filter_append, ← inner]
    refine congrArg (List.append _) ?_
    cases body with
    | nil => rfl
    | cons s ss =>
      refine (congrArg (List.map UInt32.toNat) (Source.labelsOf_append _ [.brace])).trans ?_
      rw [List.map_append]
      exact List.append_nil _
  | .mark _, _ => rfl

/-- The lines of a block show the labels that are addresses of its statements. -/
theorem labelsOf_blockEntries : ∀ (ss : List Statement) (address : Nat),
    (labelsOf (blockEntries labels address ss)).map UInt32.toNat =
      (blockStarts address ss).filter fun a => labels.any fun l => l.toNat == a
  | [], _ => rfl
  | s :: ss, address => by
    rw [blockEntries, Source.labelsOf_append, List.map_append, s.labelsOf_entries, labelsOf_blockEntries ss,
      blockStarts, List.filter_append]

end

variable {labels}

theorem labelEntry_of_mem {l : UInt32} (mem : l ∈ labels) : labelEntry labels l.toNat = [.label l] := by
  have isLabel : (labels.any fun m => m.toNat == l.toNat) = true :=
    List.any_eq_true.mpr ⟨l, mem, beq_self_eq_true _⟩
  rw [labelEntry, if_pos isLabel, UInt32.ofNat_toNat]

/-- The line of a label stands right in front of the statement that comes after `n` others. -/
def Precedes (l : UInt32) (n : Nat) (es : List BodyLine) : Prop :=
  ∃ before jump after, es = before ++ .label l :: .statement jump :: after ∧ (statementsOf before).length = n

theorem Precedes.append_right {l : UInt32} {n : Nat} {es : List BodyLine} (h : Precedes l n es)
    (rest : List BodyLine) : Precedes l n (es ++ rest) := by
  obtain ⟨before, jump, after, rfl, count⟩ := h
  exact ⟨before, jump, after ++ rest, by simp, count⟩

theorem Precedes.append_left {l : UInt32} {n : Nat} {es : List BodyLine} (h : Precedes l n es)
    (first : List BodyLine) : Precedes l ((statementsOf first).length + n) (first ++ es) := by
  obtain ⟨before, jump, after, rfl, rfl⟩ := h
  exact ⟨first ++ before, jump, after, by simp, by simp⟩

theorem precedes_labelEntry {l : UInt32} (mem : l ∈ labels) (jump : Option (JumpWord × Option UInt32))
    (es : List BodyLine) : Precedes l 0 (labelEntry labels l.toNat ++ .statement jump :: es) := by
  rw [labelEntry_of_mem mem]
  exact ⟨[], jump, es, rfl, rfl⟩

mutual

theorem Statement.label_of_start {l : UInt32} (mem : l ∈ labels) : ∀ (s : Statement) (address n : Nat),
    (s.starts address)[n]? = some l.toNat → Precedes l n (s.entries labels address)
  | .action a, address, n, h => by
    cases n with
    | zero =>
      obtain rfl : address = l.toNat := Option.some.inj h
      exact precedes_labelEntry mem a.jump? []
    | succ n => cases h
  | .block guard body, address, n, h => by
    rw [Statement.entries]
    cases n with
    | zero =>
      obtain rfl : address = l.toNat := Option.some.inj h
      exact precedes_labelEntry mem none _
    | succ n =>
      have inner := Code.label_of_start mem body (address + guard.size) n h
      cases body with
      | nil => cases h
      | cons s ss =>
        -- In front of the body stand the line of the guard and the brace.
        have shown := (inner.append_right [.brace]).append_left
          (labelEntry labels address ++ [.statement none, .brace])
        rw [Source.statementsOf_append, statementsOf_labelEntry, List.append_assoc] at shown
        rw [Nat.add_comm]
        exact shown
  | .mark _, _, _, h => by cases h

/-- The label of an address stands right in front of the statement that begins there. -/
theorem label_of_start {l : UInt32} (mem : l ∈ labels) : ∀ (ss : List Statement) (address n : Nat),
    (blockStarts address ss)[n]? = some l.toNat → Precedes l n (blockEntries labels address ss)
  | [], _, _, h => by cases h
  | s :: ss, address, n, h => by
    rw [blockStarts] at h
    rw [blockEntries]
    by_cases first : n < (s.starts address).length
    · rw [List.getElem?_append_left first] at h
      exact (s.label_of_start mem address n h).append_right _
    · rw [List.getElem?_append_right (by omega)] at h
      have later := (label_of_start mem ss (address + s.size) _ h).append_left (s.entries labels address)
      have count : (statementsOf (s.entries labels address)).length = (s.starts address).length := by
        rw [s.statementsOf_entries, s.length_statementsOf address]
      rwa [count, Nat.add_sub_cancel' (by omega)] at later

end

end EventScript.Code
