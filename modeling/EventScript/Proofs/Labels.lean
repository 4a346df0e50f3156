import EventScript.Proofs.BodyLines

/-!
# Labels of a listing

A listing marks every label in front of the statement that begins at that address, or at the end. So the
address that assembly finds for a label is the label itself (`address?_of_marked`), and the code of the
marked statements is that of the statements (`encodeBlock_markedBlock`).
-/

namespace EventScript.Code

/-! ### Ascending labels -/

theorem mem_insertLabel {l label : UInt32} {ls : List UInt32} :
    l ∈ insertLabel label ls ↔ l = label ∨ l ∈ ls := by
  induction ls with
  | nil => simp [insertLabel]
  | cons x xs ih =>
    rw [insertLabel]
    split
    · exact List.mem_cons
    · split
      · next same =>
        rw [List.mem_cons, ← same]
        exact ⟨fun h => .inr h, fun h => h.elim .inl id⟩
      · rw [List.mem_cons, ih, List.mem_cons]
        exact or_left_comm

@[simp] theorem mem_ascending {l : UInt32} {ls : List UInt32} : l ∈ ascending ls ↔ l ∈ ls := by
  induction ls with
  | nil => exact Iff.rfl
  | cons x xs ih =>
    have step : ascending (x :: xs) = insertLabel x (ascending xs) := rfl
    rw [step, mem_insertLabel, ih, List.mem_cons]

/-! ### Starts -/

mutual

/-- Every statement begins in its block. -/
theorem Statement.starts_bound {a : Nat} : ∀ (s : Statement) (address : Nat), a ∈ s.starts address →
    address ≤ a ∧ a < address + s.size
  | .action action, address, h => by
    have pos := action.size_pos
    rw [Statement.starts, List.mem_singleton] at h
    rw [Statement.size]
    omega
  | .block guard body, address, h => by
    have pos : 0 < guard.size := Nat.succ_pos _
    rw [Statement.starts, List.mem_cons] at h
    rw [Statement.size]
    rcases h with rfl | h
    · omega
    · have := blockStarts_bound body (address + guard.size) h
      omega
  | .mark _, _, h => by cases h

theorem blockStarts_bound {a : Nat} : ∀ (ss : List Statement) (address : Nat),
    a ∈ blockStarts address ss → address ≤ a ∧ a < address + blockSize ss
  | [], _, h => by cases h
  | s :: ss, address, h => by
    rw [blockStarts, List.mem_append] at h
    rw [blockSize]
    rcases h with h | h
    · have := s.starts_bound address h
      omega
    · have := blockStarts_bound ss (address + s.size) h
      omega

end

variable {names : Names}

mutual

theorem Statement.starts_normal : ∀ (s : Statement) (address : Nat),
    (s.normal names).starts address = s.starts address
  | .action _, _ => rfl
  | .block guard body, address => by
    simp only [Statement.normal, Statement.starts, Guard.size_normal, blockStarts_normal body]
  | .mark _, _ => rfl

@[simp] theorem blockStarts_normal : ∀ (ss : List Statement) (address : Nat),
    blockStarts address (normalBlock names ss) = blockStarts address ss
  | [], _ => rfl
  | s :: ss, address => by
    simp only [normalBlock, blockStarts, s.starts_normal, Statement.size_normal, blockStarts_normal ss]

end

/-! ### Targets -/

theorem Action.target?_normal (a : Action) : (a.normal names).target? = a.target? := by
  cases a <;> rfl

mutual

theorem Statement.targets_normal : ∀ s : Statement, (s.normal names).targets = s.targets
  | .action a => by rw [Statement.normal, Statement.targets, a.target?_normal, Statement.targets]
  | .block _ body => by rw [Statement.normal, Statement.targets, blockTargets_normal body, Statement.targets]
  | .mark _ => rfl

@[simp] theorem blockTargets_normal : ∀ ss : List Statement,
    blockTargets (normalBlock names ss) = blockTargets ss
  | [] => rfl
  | s :: ss => by rw [normalBlock, blockTargets, s.targets_normal, blockTargets_normal ss, blockTargets]

end

theorem blockTargets_append (as bs : List Statement) :
    blockTargets (as ++ bs) = blockTargets as ++ blockTargets bs := by
  induction as with
  | nil => rfl
  | cons s as ih => rw [List.cons_append, blockTargets, ih, blockTargets, List.append_assoc]

theorem blockTargets_markAt (labels : List UInt32) (address : Nat) :
    blockTargets (markAt labels address) = [] := by
  rw [markAt]
  split <;> rfl

mutual

theorem Statement.targets_marked (labels : List UInt32) : ∀ (s : Statement) (address : Nat),
    blockTargets (s.marked labels address) = s.targets
  | .action a, address => by
    rw [Statement.marked, blockTargets_append, blockTargets_markAt, Statement.targets]
    exact List.append_nil _
  | .block guard body, address => by
    rw [Statement.marked, blockTargets_append, blockTargets_markAt, Statement.targets,
      ← blockTargets_marked labels body (address + guard.size)]
    exact List.append_nil _
  | .mark _, _ => rfl

@[simp] theorem blockTargets_marked (labels : List UInt32) : ∀ (ss : List Statement) (address : Nat),
    blockTargets (markedBlock labels address ss) = blockTargets ss
  | [], _ => rfl
  | s :: ss, address => by
    rw [markedBlock, blockTargets_append, s.targets_marked labels, blockTargets_marked labels ss,
      blockTargets]

end

/-! ### Code -/

theorem encodeTarget_congr {f g : UInt32 → UInt32} {target : Option UInt32}
    (h : ∀ l ∈ target, f l = g l) : encodeTarget f target = encodeTarget g target := by
  cases target with
  | none => rfl
  | some l => rw [encodeTarget, encodeTarget, h l rfl]

theorem Action.encode_congr {f g : UInt32 → UInt32} {a : Action} (h : ∀ l ∈ a.target?, f l = g l) :
    a.encode f = a.encode g := by
  cases a with
  | goto target => exact congrArg _ (encodeTarget_congr h)
  | stop target => exact congrArg _ (encodeTarget_congr h)
  | gosub target => exact congrArg _ (encodeTarget_congr h)
  | pause target => exact congrArg _ (encodeTarget_congr h)
  | _ => rfl

mutual

/-- Only the addresses of the targets count. -/
theorem Statement.encode_congr {f g : UInt32 → UInt32} : ∀ s : Statement,
    (∀ l ∈ s.targets, f l = g l) → s.encode f = s.encode g
  | .action a, h => by
    rw [Statement.encode, Statement.encode]
    refine Action.encode_congr fun l hl => h l ?_
    rwa [Statement.targets, Option.mem_toList]
  | .block guard body, h => by rw [Statement.encode, Statement.encode, encodeBlock_congr body h]
  | .mark _, _ => rfl

theorem encodeBlock_congr {f g : UInt32 → UInt32} : ∀ ss : List Statement,
    (∀ l ∈ blockTargets ss, f l = g l) → encodeBlock f ss = encodeBlock g ss
  | [], _ => rfl
  | s :: ss, h => by
    rw [blockTargets, List.forall_mem_append] at h
    rw [encodeBlock, encodeBlock, s.encode_congr h.1, encodeBlock_congr ss h.2]

end

theorem encodeBlock_append (f : UInt32 → UInt32) (as bs : List Statement) :
    encodeBlock f (as ++ bs) = encodeBlock f as ++ encodeBlock f bs := by
  induction as with
  | nil => rfl
  | cons s as ih => rw [List.cons_append, encodeBlock, ih, encodeBlock, List.append_assoc]

theorem encodeBlock_markAt (f : UInt32 → UInt32) (labels : List UInt32) (address : Nat) :
    encodeBlock f (markAt labels address) = [] := by
  rw [markAt]
  split <;> rfl

mutual

theorem Statement.encode_marked (f : UInt32 → UInt32) (labels : List UInt32) :
    ∀ (s : Statement) (address : Nat), encodeBlock f (s.marked labels address) = s.encode f
  | .action a, address => by
    rw [Statement.marked, encodeBlock_append, encodeBlock_markAt]
    exact List.append_nil _
  | .block guard body, address => by
    rw [Statement.marked, encodeBlock_append, encodeBlock_markAt, List.nil_append, encodeBlock,
      encodeBlock, List.append_nil, Statement.encode, Statement.encode,
      encodeBlock_markedBlock f labels body]
  | .mark _, _ => rfl

/-- Labels take no room. -/
theorem encodeBlock_markedBlock (f : UInt32 → UInt32) (labels : List UInt32) :
    ∀ (ss : List Statement) (address : Nat),
      encodeBlock f (markedBlock labels address ss) = encodeBlock f ss
  | [], _ => rfl
  | s :: ss, address => by
    rw [markedBlock, encodeBlock_append, s.encode_marked f labels, encodeBlock_markedBlock f labels ss,
      encodeBlock]

end

/-! ### Marks -/

theorem blockMarks_append (as bs : List Statement) : ∀ address : Nat,
    blockMarks address (as ++ bs) = blockMarks address as ++ blockMarks (address + blockSize as) bs := by
  induction as with
  | nil => exact fun _ => rfl
  | cons s as ih =>
    intro address
    rw [List.cons_append, blockMarks, ih, blockMarks, blockSize, List.append_assoc, Nat.add_assoc]

theorem blockSize_marked (labels : List UInt32) (address : Nat) (ss : List Statement) :
    blockSize (markedBlock labels address ss) = blockSize ss := by
  rw [← length_encodeBlock id, encodeBlock_markedBlock, length_encodeBlock]

theorem Statement.size_marked (labels : List UInt32) (address : Nat) (s : Statement) :
    blockSize (s.marked labels address) = s.size := by
  rw [← length_encodeBlock id, s.encode_marked, s.length_encode]

theorem mem_marks_markAt {labels : List UInt32} {address : Nat} {p : UInt32 × Nat} :
    p ∈ blockMarks address (markAt labels address) ↔
      p.2 = address ∧ p.1.toNat = p.2 ∧ p.1 ∈ labels := by
  obtain ⟨l, a⟩ := p
  rw [markAt]
  split
  · next found =>
    obtain ⟨label, mem, same⟩ := List.any_eq_true.mp found
    obtain rfl : label.toNat = address := beq_iff_eq.mp same
    rw [UInt32.ofNat_toNat, blockMarks, Statement.marks, blockMarks, List.append_nil, List.mem_singleton]
    constructor
    · rintro ⟨⟩
      exact ⟨rfl, rfl, mem⟩
    · rintro ⟨rfl, same, -⟩
      have equal : l = label := UInt32.toNat_inj.mp same
      rw [equal]
  · next absent =>
    constructor
    · rintro ⟨⟩
    · rintro ⟨rfl, same, mem⟩
      refine absurd (List.any_eq_true.mpr ⟨l, mem, ?_⟩) absent
      exact beq_iff_eq.mpr same

mutual

theorem Statement.mem_marks_marked {labels : List UInt32} {p : UInt32 × Nat} :
    ∀ (s : Statement) (address : Nat), p ∈ blockMarks address (s.marked labels address) ↔
      p.2 ∈ s.starts address ∧ p.1.toNat = p.2 ∧ p.1 ∈ labels
  | .action a, address => by
    rw [Statement.marked, blockMarks_append, List.mem_append, mem_marks_markAt, Statement.starts,
      List.mem_singleton, or_iff_left]
    rintro ⟨⟩
  | .block guard body, address => by
    rw [Statement.marked, blockMarks_append, List.mem_append, mem_marks_markAt, blockSize_markAt,
      Nat.add_zero, Statement.starts, List.mem_cons, blockMarks, Statement.marks, blockMarks,
      List.append_nil, mem_marks_markedBlock body, or_and_right]
  | .mark _, _ => by
    rw [Statement.marked, Statement.starts]
    constructor
    · rintro ⟨⟩
    · rintro ⟨⟨⟩, -⟩

/-- The marks of a listing are the labels at which statements begin. -/
theorem mem_marks_markedBlock {labels : List UInt32} {p : UInt32 × Nat} :
    ∀ (ss : List Statement) (address : Nat), p ∈ blockMarks address (markedBlock labels address ss) ↔
      p.2 ∈ blockStarts address ss ∧ p.1.toNat = p.2 ∧ p.1 ∈ labels
  | [], _ => by
    rw [markedBlock, blockStarts]
    constructor
    · rintro ⟨⟩
    · rintro ⟨⟨⟩, -⟩
  | s :: ss, address => by
    rw [markedBlock, blockMarks_append, List.mem_append, s.mem_marks_marked, s.size_marked,
      mem_marks_markedBlock ss, blockStarts, List.mem_append, or_and_right]

end

/-- Where every mark is at the address that it names, so is a label with a mark. -/
theorem address?_of_marked {marks : List (UInt32 × Nat)} (h : ∀ p ∈ marks, p.1.toNat = p.2)
    {label : UInt32} (mem : ∃ a, (label, a) ∈ marks) :
    Assembly.address? marks label = some label.toNat := by
  rw [Assembly.address?]
  induction marks with
  | nil => exact absurd mem (by simp)
  | cons p marks ih =>
    obtain ⟨l, a⟩ := p
    by_cases same : label = l
    · subst same
      have here : label.toNat = a := h _ (List.mem_cons_self ..)
      rw [List.lookup_cons_self, here]
    · have other : (label == l) = false := beq_eq_false_iff_ne.mpr same
      rw [List.lookup_cons, other]
      refine ih (fun p hp => h p (List.mem_cons_of_mem _ hp)) ?_
      obtain ⟨b, hb⟩ := mem
      rcases List.mem_cons.mp hb with e | hb
      · exact absurd (congrArg Prod.fst e) same
      · exact ⟨b, hb⟩

end EventScript.Code
