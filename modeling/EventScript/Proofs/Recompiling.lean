import EventScript.Proofs.Decoded
import EventScript.Proofs.RoundTrip

/-!
# Bytecode listed and assembled again

Any bytecode that can be listed, and for which the text has words, assembles from its listing to bytecode of
the same length. Only bytes whose `Role` allows it differ (`assemble_listing_becomes`).
-/

namespace EventScript

namespace Code

/-- What becomes of code with some roles. -/
abbrev Recoded (roles : List Role) (code code' : Bytes) : Prop := Bytewise Role.Becomes roles code code'

theorem recoded_kept (code : Bytes) : Recoded (List.replicate code.length .kept) code code :=
  bytewise_kept (fun _ => rfl) code

theorem recoded_zeros (n : Nat) :
    Recoded (List.replicate n .spare) (List.replicate n 0) (List.replicate n 0) := by
  have zeros := bytewise_spare (R := Role.Becomes) (fun _ => rfl) (List.replicate n 0)
  rwa [List.length_replicate] at zeros

theorem recoded_constant (op op' : Opcode) (h : op.code ∈ constantOpcodes) (h' : op'.code ∈ constantOpcodes)
    (w : UInt32) :
    Recoded (.constant :: List.replicate 4 .kept) (op.code :: bytes32 w) (op'.code :: bytes32 w) :=
  .cons ⟨h, h'⟩ (recoded_kept (bytes32 w))

theorem recoded_reference (reference : UInt8) : Recoded [.spare, .kept] [0, reference] [0, reference] :=
  .cons rfl (.cons rfl .nil)

variable {names : Names}

/-- A number is stored as the same number. -/
theorem recoded_number (op : Opcode) (h : op.code ∈ constantOpcodes) (kind : Option ArgumentKind) (value : Int32)
    (layout : Layout) :
    Recoded (.constant :: List.replicate 4 .kept) (op.code :: bytes32 value.toUInt32)
      ((numberOf kind value).encode layout) := by
  rw [numberOf]
  split
  · exact recoded_constant op .flexible h (by decide) value.toUInt32
  · exact recoded_constant op .literal h (by decide) value.toUInt32

theorem toUInt32_ofInt_natCast (n : Nat) : (Int32.ofInt n).toUInt32 = UInt32.ofNat n := by
  rw [Int32.toUInt32, Int32.ofInt, BitVec.ofInt_natCast]
  rfl

/-- A string is stored with the same index, as a string or as a number. -/
theorem recoded_string (distinct : names.strings.Nodup) {kind : Option ArgumentKind} {index : UInt32}
    (h : index.toNat < names.strings.length) (layout : Layout) :
    Recoded (.constant :: List.replicate 4 .kept) ((Operand.string index).encode layout)
      ((names.stringOf kind (names.string index)).encode layout) := by
  have same := Names.index_string distinct h
  rw [Names.stringOf]
  split
  · rw [Operand.encode, Operand.encode, toUInt32_ofInt_natCast, same]
    exact recoded_constant .string .flexible (by decide) (by decide) index
  · rw [Operand.encode, Operand.encode, same]
    exact recoded_constant .string .string (by decide) (by decide) index

theorem recoded_flexible (distinct : names.strings.Nodup) (kind : Option ArgumentKind) (value : Int32)
    (layout : Layout) :
    Recoded (.constant :: List.replicate 4 .kept) ((Operand.flexible value).encode layout)
      (((Operand.flexible value).normal names kind).encode layout) := by
  have number := recoded_number .flexible (by decide) kind value layout
  unfold Operand.normal
  split
  · next text found =>
    rw [Names.stringOf, if_pos rfl, Names.index_label distinct found]
    exact recoded_constant .flexible .flexible (by decide) (by decide) value.toUInt32
  · exact number

mutual

/-- The bytes of an operand become those of its normal form. -/
theorem Operand.recoded (distinct : names.strings.Nodup) : ∀ (o : Operand) (kind : Option ArgumentKind),
    o.Fits names.strings.length → ∀ layout : Layout,
      Recoded (o.roles layout) (o.encode layout) ((o.normal names kind).encode layout)
  | .flag ordinal, _, _, layout => by
    rw [Operand.normal]
    exact (recoded_kept (Opcode.flag.code :: bytes16 ordinal)).append (recoded_zeros (layout.padding 2))
  | .var slot, _, _, layout => by
    rw [Operand.normal]
    exact (recoded_kept [Opcode.var.code, slot]).append (recoded_zeros (layout.padding 3))
  | .field object reference, _, h, _ => by
    rw [Operand.normal]
    exact .cons rfl ((object.recoded distinct h).append (recoded_reference reference))
  | .literal value, kind, _, layout => by
    rw [Operand.normal]
    exact recoded_number .literal (by decide) kind value layout
  | .flexible value, kind, _, layout => recoded_flexible distinct kind value layout
  | .string index, kind, h, layout => by
    rw [Operand.normal]
    exact recoded_string distinct h layout
  | .call routine arguments, _, h, _ => by
    rw [Operand.normal, Operand.encode, Operand.encode, length_argumentsNormal]
    exact .cons rfl ((recoded_kept _).append (arguments_recoded distinct routine arguments 0 h.2))
  | .objectCall object mode routine arguments, _, h, _ => by
    rw [Operand.normal, Operand.encode, Operand.encode, Operand.roles, length_argumentsNormal, List.append_assoc,
      List.append_assoc, List.append_assoc]
    have called : (CallMode.ofCode? (Opcode.call mode).code).isSome = true := by cases mode <;> rfl
    exact .cons rfl ((object.recoded distinct h.1).append (.cons ⟨called, rfl⟩
      ((recoded_kept _).append (arguments_recoded distinct routine arguments 0 h.2.2))))

theorem Object.recoded (distinct : names.strings.Nodup) : ∀ o : Object, o.Fits names.strings.length →
    Recoded o.roles o.encode (o.normal names).encode
  | .builtin which, _ => .cons rfl (.cons rfl (.cons rfl .nil))
  | .named index, h => by
    rw [Object.normal, Object.encode, Object.encode, Names.index_string distinct h]
    exact recoded_kept (1 :: bytes32 index)
  | .dynamic value, h => .cons rfl (value.recoded distinct none h .packed)

theorem arguments_recoded (distinct : names.strings.Nodup) (routine : UInt16) :
    ∀ (as : List Operand) (index : Nat), argumentsFit names.strings.length as →
      Recoded (argumentRoles as) (encodeArguments as) (encodeArguments (argumentsNormal names routine index as))
  | [], _, _ => .nil
  | a :: as, index, h =>
    (a.recoded distinct (names.kind? routine index) h.1 .padded).append
      (arguments_recoded distinct routine as (index + 1) h.2)

end

theorem Formula.recoded (distinct : names.strings.Nodup) : ∀ f : Formula, f.Fits names.strings.length →
    Recoded f.roles f.encode (f.normal names).encode
  | .last operand, h => operand.recoded distinct none h .packed
  | .more operand _ rest, h => (operand.recoded distinct none h.1 .packed).append (.cons rfl (rest.recoded distinct h.2))

theorem Comparison.recoded (distinct : names.strings.Nodup) (c : Comparison) (h : c.Fits names.strings.length) :
    Recoded c.roles c.encode (c.normal names).encode :=
  (c.left.recoded distinct h.1).append (.cons rfl (c.right.recoded distinct h.2))

theorem Condition.recoded (distinct : names.strings.Nodup) : ∀ c : Condition, c.Fits names.strings.length →
    Recoded c.roles c.encode (c.normal names).encode
  | .last comparison, h => (comparison.recoded distinct h).append (.cons rfl .nil)
  | .more comparison _ rest, h => (comparison.recoded distinct h.1).append (.cons rfl (rest.recoded distinct h.2))

theorem Guard.recoded (distinct : names.strings.Nodup) (g : Guard) (h : g.Fits names.strings.length) :
    Recoded g.roles g.encode (g.normal names).encode := by
  cases g with
  | condition c => exact .cons rfl (c.recoded distinct h)
  | result value => exact recoded_kept [Opcode.result.code, value]

theorem recoded_target (op : Opcode) (target : Option UInt32) :
    Recoded (List.replicate 5 .kept) (op.code :: encodeTarget id target) (op.code :: encodeTarget id target) := by
  cases target with
  | none => exact recoded_kept (op.code :: bytes32 0)
  | some label => exact recoded_kept (op.code :: bytes32 label)

theorem Action.recoded (distinct : names.strings.Nodup) (a : Action) (h : a.Fits names.strings.length) :
    Recoded a.roles (a.encode id) ((a.normal names).encode id) := by
  cases a with
  | call mode routine arguments =>
    rw [Action.normal, Action.encode, Action.encode, length_argumentsNormal]
    exact .cons rfl ((recoded_kept _).append (arguments_recoded distinct routine arguments 0 h.2))
  | objectCall object mode routine arguments =>
    rw [Action.normal, Action.encode, Action.encode, Operand.encode, Operand.encode, Action.roles,
      length_argumentsNormal, List.append_assoc, List.append_assoc, List.append_assoc]
    exact .cons rfl ((object.recoded distinct h.1).append (.cons rfl
      ((recoded_kept _).append (arguments_recoded distinct routine arguments 0 h.2.2))))
  | assign place formula =>
    rw [Action.normal, Action.encode, Action.encode, Place.operand_normal]
    exact (place.operand.recoded distinct none h.1 .packed).append (formula.recoded distinct h.2)
  | goto target => exact recoded_target .goto target
  | stop target => exact recoded_target .stop target
  | gosub target => exact recoded_target .gosub (some target)
  | pause target => exact recoded_target .pause (some target)
  | anchor value => exact recoded_kept [Opcode.anchor.code, value]
  | leave => exact recoded_kept [Opcode.leave.code]
  | leaveInterrupt => exact recoded_kept [Opcode.leaveInterrupt.code]

mutual

theorem Statement.recoded (distinct : names.strings.Nodup) : ∀ s : Statement, s.Fits names.strings.length →
    Recoded s.roles (s.encode id) ((s.normal names).encode id)
  | .action a, h => a.recoded distinct h
  | .block guard body, h => by
    have size : (encodeBlock id (normalBlock names body)).length = (encodeBlock id body).length := by
      rw [length_encodeBlock, length_encodeBlock, blockSize_normal]
    rw [Statement.normal, Statement.encode, Statement.encode, size]
    exact ((guard.recoded distinct h.1).append
      (recoded_kept (bytes32 (UInt32.ofNat (encodeBlock id body).length)))).append
        (block_recoded distinct body h.2.1)
  | .mark _, _ => .nil

/-- The bytes of a block become those of its normal form. -/
theorem block_recoded (distinct : names.strings.Nodup) : ∀ ss : List Statement,
    blockFits names.strings.length ss →
      Recoded (blockRoles ss) (encodeBlock id ss) (encodeBlock id (normalBlock names ss))
  | [], _ => .nil
  | s :: ss, h => (s.recoded distinct h.1).append (block_recoded distinct ss h.2)

end

end Code

open Assembly

variable {catalog : Catalog}

/-- Bytecode whose listing has words for everything assembles from the listing to the same bytecode, except
where the roles of its bytes allow a change. -/
theorem assemble_listing_becomes {sources : Catalog.Sources}
    (accepted : (Catalog.ofSources sources).result = .ok catalog) (clean : catalog.Clean) {u : ScriptUnit}
    (small : u.code.length ≤ 65535) (distinct : u.strings.Nodup) (few : u.strings.length ≤ 2147483648)
    (vars : u.vars.length ≤ Source.maxInteger) (attributes : u.attributes.length = attributeCount)
    {text : List String} (listed : (u.listing catalog).result = .ok text)
    (textual : Code.blockTextual (u.body catalog)) (map : String) :
    ∃ u', (assemble catalog map text).result = .ok [u'] ∧ u'.header.name = u.header.name ∧
      u'.header.instances = u.header.instances ∧ u'.header.kind = u.header.kind ∧
      u'.header.entry = u.header.entry ∧ u'.strings = u.strings ∧ u'.vars = u.vars ∧
      u'.attributes = u.attributes ∧ u'.code.length = u.code.length ∧
      Code.Bytewise Code.Role.Becomes (Code.blockRoles (u.body catalog)) u.code u'.code := by
  have sound := Catalog.sound_ofSources accepted
  have listings : (ScriptUnit.listings catalog [u]).result = .ok text := listed
  have statements := statements_of_listings listings u (List.mem_singleton_self u)
  obtain ⟨fits, rewritten⟩ := Code.decode_spec (statements_eq_ok.mp statements).1
  have restorable : u.Restorable catalog (u.body catalog) := by
    refine ⟨statements, ?_, ⟨fits, textual, ?_⟩, vars, attributes, small⟩
    · rw [← Code.length_encodeBlock id, rewritten.length_eq]
    · exact fun part _ => Code.Names.short_of_length few part
  have room : codeLength [u] ≤ 4294967295 := by
    rw [codeLength_cons]
    show u.code.length + 0 ≤ _
    omega
  have assembled := assemble_listings sound clean (List.forall_mem_singleton.mpr restorable) listings room map
  have nodup : (u.names catalog).strings.Nodup := distinct
  have becomes := rewritten.becomes (Code.block_recoded nodup _ fits)
  exact ⟨_, assembled, rfl, rfl, rfl, rfl, rfl, rfl, rfl, becomes.length_eq, becomes⟩

/-- A unit whose code has all kinds of bytes that change. -/
def oddUnit : ScriptUnit where
  header := { name := "Odd", instances := 2, scriptLength := 54, entry := 9, kind := 3 }
  strings := ["hi", "Bo"]
  vars := [4]
  code := [0, 0, 2, 1, 10, 0, 0, 0, 0,
    9, 1, 11, 0, 1, 119, 5, 1,
    0, 0, 5, 2, 6, 0, 3, 170, 187, 9, 2, 1, 2, 3,
    6, 0, 3, 12, 1, 0, 0, 0, 1, 0, 0, 4, 1, 7, 0, 0, 0, 7,
    5, 0, 0, 0, 9]
  attributes := List.replicate 256 0

/-- The statements of the unit. -/
def oddBody : List Code.Statement :=
  [.action (.call .task 2 [.string 0]),
    .action (.assign (.var 1) (.last (.field (.builtin .player) 1))),
    .action (.call .task 5 [.flag 3, .var 2]),
    .action (.assign (.flag 3) (.last (.objectCall (.named 1) .task 4 [.literal 7]))),
    .action (.stop (some 9))]

/-- The listing of the unit. -/
def oddListing : List String :=
  ["unit \"Odd\"", "instances = 2", "kind = 3", "entry = #9", "strings = \"hi\", \"Bo\"", "variables(1) = 4",
    Text.leftBrace, "    Message(\"hi\")", "    #9:", "    var1 = player.Height", "    Walk(GateOpen, var2)",
    "    GateOpen = \"Bo\".HasItem(7)", "    end #9", Text.rightBrace]

theorem statements_oddUnit : (oddUnit.statements .village).result = .ok oddBody := by rfl

theorem assemble_oddListing : ∃ u', (assemble .village "field" oddListing).result = .ok [u'] ∧
    u'.header.name = "Odd" ∧ u'.header.instances = 2 ∧ u'.header.kind = 3 ∧ u'.header.entry = 9 ∧
    u'.strings = ["hi", "Bo"] ∧ u'.vars = [4] ∧ u'.attributes = List.replicate 256 0 ∧ u'.code.length = 54 ∧
    Code.Bytewise Code.Role.Becomes (Code.blockRoles oddBody) oddUnit.code u'.code := by
  have body : oddUnit.body .village = oddBody := body_of_statements statements_oddUnit
  have textual : Code.blockTextual (oddUnit.body .village) := by
    rw [body]
    simp [oddBody, Code.blockTextual, Code.Statement.Textual, Code.Action.Textual, Code.argumentsTextual,
      Code.Operand.Textual, Code.Object.Textual, Code.Formula.Textual, Code.Place.operand]
  rw [← body]
  exact assemble_listing_becomes Catalog.village_accepted Catalog.village_clean (by decide) (by decide) (by decide)
    (by decide) List.length_replicate (eq_ok_of_toOption (by decide +kernel)) textual "field"

end EventScript
