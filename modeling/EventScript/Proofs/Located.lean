import EventScript.Proofs.Labels
import EventScript.Proofs.Origin
import EventScript.Proofs.Reassembly

/-!
# Labels that have become addresses

Where labels have addresses, code with labels has the bytes of code that jumps to the addresses
(`encodeBlock_located`). A jump with an optional target that goes to the address zero has none there: this is
what its bytes mean. So the code of a unit that assembly made is read back as the statements it was made from
(`Compiled.decode`).
-/

namespace EventScript

namespace Code

/-- A statement with addresses for labels. -/
def Action.located (f : UInt32 → UInt32) : Action → Action
  | .goto target => .goto (target.bind fun l => targetOf (f l))
  | .stop target => .stop (target.bind fun l => targetOf (f l))
  | .gosub target => .gosub (f target)
  | .pause target => .pause (f target)
  | .call mode routine arguments => .call mode routine arguments
  | .objectCall object mode routine arguments => .objectCall object mode routine arguments
  | .assign place formula => .assign place formula
  | .anchor value => .anchor value
  | .leave => .leave
  | .leaveInterrupt => .leaveInterrupt

mutual

/-- A statement with addresses for labels, and without marks. -/
def Statement.located (f : UInt32 → UInt32) : Statement → List Statement
  | .action a => [.action (a.located f)]
  | .block guard body => [.block guard (locatedBlock f body)]
  | .mark _ => []

/-- A block with addresses for labels, and without marks. -/
def locatedBlock (f : UInt32 → UInt32) : List Statement → List Statement
  | [] => []
  | s :: ss => s.located f ++ locatedBlock f ss

end

variable {f : UInt32 → UInt32}

theorem encodeTarget_located (target : Option UInt32) :
    encodeTarget id (target.bind fun l => targetOf (f l)) = encodeTarget f target := by
  cases target with
  | none => rfl
  | some l =>
    rw [Option.bind_some, targetOf, encodeTarget]
    split
    · next zero =>
      rw [zero]
      rfl
    · rfl

theorem Action.encode_located (a : Action) : (a.located f).encode id = a.encode f := by
  cases a with
  | goto target => exact congrArg _ (encodeTarget_located target)
  | stop target => exact congrArg _ (encodeTarget_located target)
  | _ => rfl

mutual

theorem Statement.encode_located : ∀ s : Statement, encodeBlock id (s.located f) = s.encode f
  | .action a => by
    rw [Statement.located, encodeBlock, encodeBlock, List.append_nil, Statement.encode, Statement.encode,
      a.encode_located]
  | .block guard body => by
    rw [Statement.located, encodeBlock, encodeBlock, List.append_nil, Statement.encode, Statement.encode,
      encodeBlock_located body]
  | .mark _ => rfl

/-- Addresses for labels do not change the bytes. -/
theorem encodeBlock_located : ∀ ss : List Statement, encodeBlock id (locatedBlock f ss) = encodeBlock f ss
  | [] => rfl
  | s :: ss => by
    rw [locatedBlock, encodeBlock_append, s.encode_located, encodeBlock_located ss, encodeBlock]

end

theorem blockSize_located (ss : List Statement) : blockSize (locatedBlock f ss) = blockSize ss := by
  rw [← length_encodeBlock id, encodeBlock_located, length_encodeBlock]

theorem Statement.size_located (s : Statement) : blockSize (s.located f) = s.size := by
  rw [← length_encodeBlock id, s.encode_located, s.length_encode]

theorem blockStarts_append (as bs : List Statement) : ∀ address : Nat,
    blockStarts address (as ++ bs) = blockStarts address as ++ blockStarts (address + blockSize as) bs := by
  induction as with
  | nil => exact fun _ => rfl
  | cons s as ih =>
    intro address
    rw [List.cons_append, blockStarts, ih, blockStarts, blockSize, List.append_assoc, Nat.add_assoc]

mutual

theorem Statement.starts_located : ∀ (s : Statement) (address : Nat),
    blockStarts address (s.located f) = s.starts address
  | .action a, address => rfl
  | .block guard body, address => by
    rw [Statement.located, blockStarts, blockStarts, List.append_nil, Statement.starts, Statement.starts,
      blockStarts_located body]
  | .mark _, _ => rfl

theorem blockStarts_located : ∀ (ss : List Statement) (address : Nat),
    blockStarts address (locatedBlock f ss) = blockStarts address ss
  | [], _ => rfl
  | s :: ss, address => by
    rw [locatedBlock, blockStarts_append, s.starts_located, s.size_located, blockStarts_located ss, blockStarts]

end

theorem Action.target?_located {a : Action} {t : UInt32} (h : t ∈ (a.located f).target?) :
    ∃ l ∈ a.target?, f l = t := by
  have optional : ∀ target : Option UInt32, t ∈ target.bind (fun l => targetOf (f l)) →
      ∃ l ∈ target, f l = t := by
    intro target mem
    obtain ⟨l, hl, found⟩ := Option.bind_eq_some_iff.mp mem
    rw [targetOf] at found
    split at found
    · cases found
    · cases found
      exact ⟨l, hl, rfl⟩
  cases a with
  | goto target => exact optional target h
  | stop target => exact optional target h
  | gosub target =>
    cases h
    exact ⟨target, rfl, rfl⟩
  | pause target =>
    cases h
    exact ⟨target, rfl, rfl⟩
  | _ => cases h

mutual

theorem Statement.targets_located {t : UInt32} : ∀ s : Statement, t ∈ blockTargets (s.located f) →
    ∃ l ∈ s.targets, f l = t
  | .action a, h => by
    rw [Statement.located, blockTargets, blockTargets, List.append_nil, Statement.targets,
      Option.mem_toList] at h
    obtain ⟨l, mem, same⟩ := Action.target?_located h
    exact ⟨l, by rwa [Statement.targets, Option.mem_toList], same⟩
  | .block guard body, h => by
    rw [Statement.located, blockTargets, blockTargets, List.append_nil, Statement.targets] at h
    exact blockTargets_located body h
  | .mark _, h => by cases h

theorem blockTargets_located {t : UInt32} : ∀ ss : List Statement, t ∈ blockTargets (locatedBlock f ss) →
    ∃ l ∈ blockTargets ss, f l = t
  | [], h => by cases h
  | s :: ss, h => by
    rw [locatedBlock, blockTargets_append, List.mem_append] at h
    rw [blockTargets]
    rcases h with h | h
    · obtain ⟨l, mem, same⟩ := s.targets_located h
      exact ⟨l, List.mem_append_left _ mem, same⟩
    · obtain ⟨l, mem, same⟩ := blockTargets_located ss h
      exact ⟨l, List.mem_append_right _ mem, same⟩

end

/-- A block begins with a statement or is empty. -/
theorem start_or_end : ∀ (ss : List Statement) (address : Nat),
    address ∈ blockStarts address ss ∨ address = address + blockSize ss
  | [], _ => .inr rfl
  | .action _ :: _, _ => .inl (List.mem_cons_self ..)
  | .block _ _ :: _, _ => .inl (List.mem_cons_self ..)
  | .mark _ :: ss, address => by
    rw [blockStarts, blockSize, Statement.starts, Statement.size, Nat.zero_add]
    exact start_or_end ss address

mutual

theorem Statement.marks_starts {p : UInt32 × Nat} : ∀ (s : Statement) (address : Nat), p ∈ s.marks address →
    p.2 ∈ s.starts address ∨ p.2 = address + s.size
  | .action a, _, h => by cases h
  | .block guard body, address, h => by
    rw [Statement.marks] at h
    rw [Statement.starts, Statement.size, ← Nat.add_assoc]
    exact (blockMarks_starts body _ h).imp (List.mem_cons_of_mem _) id
  | .mark _, address, h => by
    rw [Statement.marks, List.mem_singleton] at h
    rw [h, Statement.size]
    exact .inr rfl

/-- A mark stands in front of a statement or at the end. -/
theorem blockMarks_starts {p : UInt32 × Nat} : ∀ (ss : List Statement) (address : Nat),
    p ∈ blockMarks address ss → p.2 ∈ blockStarts address ss ∨ p.2 = address + blockSize ss
  | [], _, h => by cases h
  | s :: ss, address, h => by
    rw [blockMarks, List.mem_append] at h
    rw [blockStarts, blockSize, List.mem_append, ← Nat.add_assoc]
    rcases h with h | h
    · rcases s.marks_starts address h with start | last
      · exact .inl (.inl start)
      · -- The end of a statement is the beginning of the next one.
        rw [last]
        exact (start_or_end ss (address + s.size)).imp .inr id
    · exact (blockMarks_starts ss (address + s.size) h).imp .inr id

end

/-! ### What holds of every statement -/

theorem Action.fits_located {strings : Nat} {a : Action} (h : a.Holdable strings) :
    (a.located f).Fits strings := by
  have nonzero : ∀ target : Option UInt32, (target.bind fun l => targetOf (f l)) ≠ some 0 := by
    intro target zero
    obtain ⟨l, -, found⟩ := Option.bind_eq_some_iff.mp zero
    rw [targetOf] at found
    split at found
    · cases found
    · next ne => exact ne (Option.some.inj found)
  cases a with
  | call mode routine arguments => exact h
  | objectCall object mode routine arguments => exact h
  | assign place formula => exact h
  | goto target => exact nonzero target
  | stop target => exact nonzero target
  | _ => trivial

theorem blockFits_append {strings : Nat} {as bs : List Statement} (h : blockFits strings as)
    (h' : blockFits strings bs) : blockFits strings (as ++ bs) := by
  induction as with
  | nil => exact h'
  | cons s as ih => exact ⟨h.1, ih h.2⟩

mutual

theorem Statement.fits_located {strings : Nat} : ∀ {s : Statement},
    s.All (Action.Holdable strings) (Guard.Fits strings) → s.size < 4294967296 →
      blockFits strings (s.located f)
  | .action _, h, _ => ⟨Action.fits_located h, trivial⟩
  | .block guard body, h, small => by
    rw [Statement.size] at small
    refine ⟨⟨h.1, blockFits_located h.2 (by omega), ?_⟩, trivial⟩
    rw [blockSize_located]
    omega
  | .mark _, _, _ => trivial

/-- Bytes can hold code with addresses for labels. -/
theorem blockFits_located {strings : Nat} : ∀ {ss : List Statement},
    blockAll (Action.Holdable strings) (Guard.Fits strings) ss → blockSize ss < 4294967296 →
      blockFits strings (locatedBlock f ss)
  | [], _, _ => trivial
  | s :: ss, h, small => by
    rw [blockSize] at small
    exact blockFits_append (Statement.fits_located h.1 (by omega)) (blockFits_located h.2 (by omega))

end

theorem blockTextual_append {as bs : List Statement} (h : blockTextual as) (h' : blockTextual bs) :
    blockTextual (as ++ bs) := by
  induction as with
  | nil => exact h'
  | cons s as ih => exact ⟨h.1, ih h.2⟩

theorem Action.textual_located {a : Action} (h : a.Textual) : (a.located f).Textual := by
  cases a with
  | call mode routine arguments => exact h
  | objectCall object mode routine arguments => exact h
  | assign place formula => exact h
  | _ => trivial

mutual

theorem Statement.textual_located : ∀ {s : Statement}, s.All Action.Textual Guard.Textual →
    blockTextual (s.located f)
  | .action _, h => ⟨Action.textual_located h, trivial⟩
  | .block _ _, h => ⟨⟨h.1, blockTextual_located h.2⟩, trivial⟩
  | .mark _, _ => trivial

theorem blockTextual_located : ∀ {ss : List Statement}, blockAll Action.Textual Guard.Textual ss →
    blockTextual (locatedBlock f ss)
  | [], _ => trivial
  | _ :: _, h => blockTextual_append (Statement.textual_located h.1) (blockTextual_located h.2)

end

variable {names : Names}

theorem blockParts_append (as bs : List Statement) :
    blockParts names (as ++ bs) = blockParts names as ++ blockParts names bs := by
  induction as with
  | nil => rfl
  | cons s as ih => rw [List.cons_append, blockParts, ih, blockParts, List.append_assoc]

theorem Action.parts_located (a : Action) : (a.located f).parts names = a.parts names := by
  cases a <;> rfl

mutual

theorem Statement.parts_located : ∀ s : Statement, blockParts names (s.located f) = s.parts names
  | .action a => by
    rw [Statement.located, blockParts, blockParts, List.append_nil, Statement.parts, Statement.parts,
      a.parts_located]
  | .block guard body => by
    rw [Statement.located, blockParts, blockParts, List.append_nil, Statement.parts, Statement.parts,
      blockParts_located body]
  | .mark _ => rfl

theorem blockParts_located : ∀ ss : List Statement,
    blockParts names (locatedBlock f ss) = blockParts names ss
  | [] => rfl
  | s :: ss => by
    rw [locatedBlock, blockParts_append, s.parts_located, blockParts_located ss, blockParts]

end

mutual

theorem Statement.forall_parts {Q : Option ArgumentKind × Operand → Prop} : ∀ {s : Statement},
    s.All (fun a => ∀ part ∈ a.parts names, Q part) (fun g => ∀ part ∈ g.parts names, Q part) →
      ∀ part ∈ s.parts names, Q part
  | .action _, h => h
  | .block _ _, h => List.forall_mem_append.mpr ⟨h.1, forall_blockParts h.2⟩
  | .mark _, _ => by rintro part ⟨⟩

theorem forall_blockParts {Q : Option ArgumentKind × Operand → Prop} : ∀ {ss : List Statement},
    blockAll (fun a => ∀ part ∈ a.parts names, Q part) (fun g => ∀ part ∈ g.parts names, Q part) ss →
      ∀ part ∈ blockParts names ss, Q part
  | [], _ => by rintro part ⟨⟩
  | _ :: _, h => List.forall_mem_append.mpr ⟨Statement.forall_parts h.1, forall_blockParts h.2⟩

end

end Code

/-- The names that routines are called by in a text. -/
def Source.calledNames (catalog : Catalog) (lines : List String) : List String :=
  match preparedFrom catalog 1 lines with
  | .ok ls => ls.flatMap fun l => callNames (tokensOf l.text)
  | .error _ => []

namespace Assembly

open Code

/-! ### Units -/

/-- The code of the unit is that of a body with labels, which all have addresses. -/
structure Compiled (catalog : Catalog) (P : String → Prop) (body : List Statement) (u : ScriptUnit) :
    Prop where
  labels : ∀ l ∈ blockTargets body, (address? (blockMarks 0 body) l).isSome = true
  made : blockAll (MadeAction catalog P u.strings.length) (MadeGuard catalog P u.strings.length) body
  code : u.code = encodeBlock (lowAddress (blockMarks 0 body)) body
  vars : u.vars.length ≤ Source.maxInteger
  attributes : u.attributes.length = attributeCount
  header : u.header = {
    name := u.header.name
    instances := u.header.instances
    scriptLength := UInt32.ofNat u.code.length
    scriptOffset := u.header.scriptOffset
    entry := u.header.entry
    kind := u.header.kind }

/-- The body of a unit with addresses for labels. -/
def locatedBody (body : List Statement) : List Statement :=
  locatedBlock (lowAddress (blockMarks 0 body)) body

variable {catalog : Catalog} {P : String → Prop} {map : String} {es : List Source.BodyLine} {u : ScriptUnit}
  {body : List Statement}

theorem MadeFrom.compiled (h : MadeFrom catalog P map es u) : ∃ body, Compiled catalog P body u ∧
    blockOutline body = Source.unbraced es ∧ (Source.labelsOf (blockOutline body)).Nodup := by
  obtain ⟨name, p, body, sound, made, unit, outline, nodup⟩ := h
  obtain ⟨_, labels, h₁⟩ := Traced.result_bind_eq_ok.mp unit
  obtain ⟨entry, -, h₂⟩ := Traced.result_bind_eq_ok.mp h₁
  obtain ⟨_, -, h₃⟩ := Traced.result_bind_eq_ok.mp h₂
  refine ⟨body, ⟨?_, made, ?_, ?_, ?_, ?_⟩, outline, nodup⟩
  · intro l hl
    exact checkLabels_eq_ok.mp labels l (mem_ascending.mpr (List.mem_append_left _ hl))
  all_goals
    obtain ⟨header, strings, vars, code, attributes⟩ := u
    cases header
    cases h₃
  · rfl
  · exact sound.vars
  · exact sound.attributes
  · rfl

theorem mem_of_address? {marks : List (UInt32 × Nat)} {l : UInt32} {a : Nat}
    (found : address? marks l = some a) : (l, a) ∈ marks := by
  obtain ⟨before, after, rfl, -⟩ := List.lookup_eq_some_iff.mp found
  exact List.mem_append_right _ (List.mem_cons_self ..)

namespace Compiled

/-- The code is read as the body it was made from. -/
theorem decode (h : Compiled catalog P body u) (small : u.code.length ≤ 65535) :
    (Code.decode u.strings.length u.code).result = .ok (locatedBody body) := by
  have size : blockSize body < 4294967296 := by
    rw [h.code, length_encodeBlock] at small
    omega
  have holdable : blockAll (Action.Holdable u.strings.length) (Guard.Fits u.strings.length) body :=
    blockAll_imp (fun _ made => (made []).fits) (fun _ made => (made []).fits) h.made
  rw [h.code, ← encodeBlock_located]
  exact decode_encodeBlock (blockFits_located holdable size)

theorem size (h : Compiled catalog P body u) : blockSize (locatedBody body) = u.code.length := by
  rw [locatedBody, blockSize_located, h.code, length_encodeBlock]

theorem mark_start (h : Compiled catalog P body u) {l : UInt32} {a : Nat} (marked : (l, a) ∈ blockMarks 0 body) :
    a ∈ blockStarts 0 (locatedBody body) ∨ a = u.code.length := by
  have place := blockMarks_starts body 0 marked
  rwa [← blockStarts_located (f := lowAddress (blockMarks 0 body)) body, Nat.zero_add,
    ← blockSize_located (f := lowAddress (blockMarks 0 body)) body, ← locatedBody, h.size] at place

/-- The address of a label is small enough to be written. -/
theorem toNat_lowAddress (h : Compiled catalog P body u) (small : u.code.length ≤ 65535) {l : UInt32} {a : Nat}
    (found : address? (blockMarks 0 body) l = some a) : (lowAddress (blockMarks 0 body) l).toNat = a := by
  have bound : a ≤ u.code.length := by
    rcases h.mark_start (mem_of_address? found) with start | last
    · have := blockStarts_bound _ 0 start
      rw [h.size] at this
      omega
    · exact Nat.le_of_eq last
  rw [lowAddress, found, Option.getD_some, UInt32.toNat_ofNat', Nat.mod_eq_of_lt (a := a) (by omega),
    Nat.mod_eq_of_lt (by omega)]

/-- A jump goes to a statement or to the end. -/
theorem target (h : Compiled catalog P body u) (small : u.code.length ≤ 65535) {t : UInt32}
    (mem : t ∈ blockTargets (locatedBody body)) :
    t.toNat ∈ blockStarts 0 (locatedBody body) ∨ t.toNat = u.code.length := by
  obtain ⟨l, hl, rfl⟩ := blockTargets_located body mem
  obtain ⟨a, found⟩ := Option.isSome_iff_exists.mp (h.labels l hl)
  rw [h.toNat_lowAddress small found]
  exact h.mark_start (mem_of_address? found)

theorem statements (h : Compiled catalog P body u) (small : u.code.length ≤ 65535)
    (entry : u.header.entry = 0 ∨ u.header.entry.toNat = u.code.length ∨
      u.header.entry.toNat ∈ blockStarts 0 (locatedBody body)) :
    (u.statements catalog).result = .ok (locatedBody body) := by
  refine statements_eq_ok.mpr ⟨h.decode small, fun l hl => ?_⟩
  rcases List.mem_append.mp (mem_ascending.mp hl) with target | start
  · exact h.target small target
  · rw [targetOf] at start
    split at start
    · cases start
    · next nonzero =>
      obtain rfl : l = u.header.entry := List.mem_singleton.mp start
      rcases entry with zero | last | start
      · exact absurd zero nonzero
      · exact .inr last
      · exact .inl start

theorem eq_locatedBody (h : Compiled catalog P body u) (small : u.code.length ≤ 65535) {body' : List Statement}
    (statements : (u.statements catalog).result = .ok body') : body' = locatedBody body := by
  have decoded := (statements_eq_ok.mp statements).1
  rw [h.decode small] at decoded
  exact (Except.ok.inj decoded).symm

/-- The listing of a unit that assembly made gives the unit back. -/
theorem restorable (h : Compiled catalog P body u) (small : u.code.length ≤ 65535)
    (statements : (u.statements catalog).result = .ok (locatedBody body))
    (short : ∀ part ∈ blockParts (u.names catalog) (locatedBody body), (u.names catalog).Short part) :
    u.Restorable catalog (locatedBody body) where
  statements := statements
  size := h.size
  block := by
    refine ⟨?_, ?_, short⟩
    · refine blockFits_located ?_ ?_
      · exact blockAll_imp (fun _ made => (made []).fits) (fun _ made => (made []).fits) h.made
      · rw [h.code, length_encodeBlock] at small
        omega
    · refine blockTextual_located ?_
      exact blockAll_imp (fun _ made => (made []).textual) (fun _ made => (made []).textual) h.made
  vars := h.vars
  attributes := h.attributes
  small := small

/-- If the names of routines keep the kinds of arguments, the operands are settled. -/
theorem settled (h : Compiled catalog P body u) (keeps : ∀ name, P name → catalog.KeepsKinds name) :
    ∀ part ∈ blockParts (u.names catalog) (locatedBody body), Settled part := by
  rw [locatedBody, blockParts_located]
  exact forall_blockParts (blockAll_imp (fun _ made => (made u.strings).settled keeps)
    (fun _ made => (made u.strings).settled keeps) h.made)

theorem toNat_scriptLength (h : Compiled catalog P body u) (small : u.code.length ≤ 65535) :
    u.header.scriptLength.toNat = u.code.length := by
  rw [h.header, UInt32.toNat_ofNat', Nat.mod_eq_of_lt (by omega)]

end Compiled

/-- Assembly compiles each unit, and the code of small units can be addressed. -/
theorem assemble_compiled {lines : List String} {us : List ScriptUnit}
    (h : (assemble catalog map lines).result = .ok us)
    (called : ∀ name ∈ Source.calledNames catalog lines, P name) :
    (∀ u ∈ us, ∃ body, Compiled catalog P body u) ∧ Chained 0 us ∧
      ((∀ u ∈ us, u.code.length ≤ 65535) → codeLength us ≤ 4294967295) := by
  obtain ⟨ls, prepared, -⟩ := Traced.result_bind_eq_ok.mp h
  replace prepared := mapError_eq_ok.mp prepared
  obtain ⟨s, rfl, made⟩ := assemble_made h prepared (P := P) fun l hl name mem =>
    called name (by rw [Source.calledNames, prepared]; exact List.mem_flatMap.mpr ⟨l, hl, mem⟩)
  have compiled : ∀ u ∈ s.units, ∃ body, Compiled catalog P body u := by
    intro u hu
    obtain ⟨i, bound, found⟩ := List.mem_iff_getElem.mp hu
    have outline := List.getElem?_eq_getElem (made.count ▸ bound)
    obtain ⟨body, compiled, -⟩ := (made.units i _ u outline
      (by rw [List.getElem?_eq_getElem bound, found])).compiled
    exact ⟨body, compiled⟩
  refine ⟨compiled, made.chained, fun small => ?_⟩
  have same : codeLength s.units = sumBy (fun u => u.header.scriptLength.toNat) s.units := by
    refine sumBy_congr fun u hu => ?_
    obtain ⟨body, unit⟩ := compiled u hu
    rw [unit.toNat_scriptLength (small u hu)]
  rw [same, ← made.offset]
  exact made.room

end Assembly

end EventScript
