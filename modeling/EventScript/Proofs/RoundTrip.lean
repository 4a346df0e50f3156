import EventScript.Proofs.Located

/-!
# Units that listings give back

A text that assembles to units with distinct strings, and that calls every routine by the name a listing
shows or by a name without meaning for arguments, has a listing that assembles to the same units
(`assemble_listings_eq_self`). The code of such units is already `normal`: assembly stores each argument
the way its position asks for, whether it reads the text or the listing.
-/

namespace EventScript

namespace Code

variable {names : Names}

/-- Where strings are distinct, each has one index. -/
theorem Names.index_of_nodup (distinct : names.strings.Nodup) {i : Nat} {text : String}
    (h : names.strings[i]? = some text) : names.index text = i := by
  have mem : text ∈ names.strings := List.mem_of_getElem? h
  refine (List.getElem?_inj (Names.index_lt mem) distinct).mp ?_
  rw [Names.index_spec mem, h]

theorem Names.index_string (distinct : names.strings.Nodup) {index : UInt32}
    (h : index.toNat < names.strings.length) :
    UInt32.ofNat (names.index (names.string index)) = index := by
  have found : names.strings[index.toNat]? = some (names.string index) := by
    rw [Names.string, List.getElem?_eq_getElem h]
    rfl
  rw [Names.index_of_nodup distinct found, UInt32.ofNat_toNat]

theorem Names.index_label (distinct : names.strings.Nodup) {value : Int32} {text : String}
    (h : names.label? value = some text) : Int32.ofInt (names.index text) = value := by
  have nonneg : 0 ≤ value := by
    rw [Names.label?] at h
    split at h
    · assumption
    · cases h
  rw [Names.index_of_nodup distinct (Names.label?_eq_some h), toNat_toInt_of_nonneg nonneg,
    Int32.ofInt_toInt]

/-- A number that is stored as an argument of its kind is stored in the same way again. -/
theorem flexible_normal_self (distinct : names.strings.Nodup) {kind : Option ArgumentKind}
    (h : kind.isSome = true) (value : Int32) :
    (Operand.flexible value).normal names kind = .flexible value := by
  unfold Operand.normal
  split
  · next text found => rw [Names.stringOf, if_pos rfl, Names.index_label distinct found]
  · rw [numberOf, if_pos h]

mutual

/-- Settled operands do not change when they are listed and assembled again. -/
theorem Operand.normal_self (distinct : names.strings.Nodup) : ∀ (o : Operand) (kind : Option ArgumentKind),
    o.Fits names.strings.length → (∀ part ∈ o.parts names kind, Settled part) → o.normal names kind = o
  | .flag _, _, _, _ => by rw [Operand.normal]
  | .var _, _, _, _ => by rw [Operand.normal]
  | .field object _, _, h, settled => by
    rw [Operand.normal, object.normal_self distinct h (List.forall_mem_cons.mp settled).2]
  | .literal value, kind, _, settled => by
    have none_ : kind = none := settled _ (List.mem_singleton_self _)
    rw [Operand.normal, numberOf, none_]
    rfl
  | .flexible value, kind, _, settled =>
    flexible_normal_self distinct (settled _ (List.mem_singleton_self _)) value
  | .string index, kind, h, settled => by
    have other : kind ≠ some .dialogue := settled _ (List.mem_singleton_self _)
    rw [Operand.normal, Names.stringOf, if_neg other, Names.index_string distinct h]
  | .call routine arguments, _, h, settled => by
    rw [Operand.normal, argumentsNormal_self distinct routine arguments 0 h.2 (List.forall_mem_cons.mp settled).2]
  | .objectCall object mode routine arguments, _, h, settled => by
    obtain ⟨mode_, inner⟩ := List.forall_mem_cons.mp settled
    obtain ⟨ofObject, ofArguments⟩ := List.forall_mem_append.mp inner
    have function : mode = .function := mode_
    rw [Operand.normal, object.normal_self distinct h.1 ofObject,
      argumentsNormal_self distinct routine arguments 0 h.2.2 ofArguments, function]

theorem Object.normal_self (distinct : names.strings.Nodup) : ∀ o : Object, o.Fits names.strings.length →
    (∀ part ∈ o.parts names, Settled part) → o.normal names = o
  | .builtin _, _, _ => rfl
  | .named index, h, _ => by rw [Object.normal, Names.index_string distinct h]
  | .dynamic value, h, settled => by rw [Object.normal, value.normal_self distinct none h settled]

theorem argumentsNormal_self (distinct : names.strings.Nodup) (routine : UInt16) :
    ∀ (as : List Operand) (index : Nat), argumentsFit names.strings.length as →
      (∀ part ∈ argumentParts names routine index as, Settled part) →
        argumentsNormal names routine index as = as
  | [], _, _, _ => rfl
  | a :: as, index, h, settled => by
    obtain ⟨first, rest⟩ := List.forall_mem_append.mp settled
    rw [argumentsNormal, a.normal_self distinct _ h.1 first,
      argumentsNormal_self distinct routine as (index + 1) h.2 rest]

end

theorem Formula.normal_self (distinct : names.strings.Nodup) : ∀ f : Formula, f.Fits names.strings.length →
    (∀ part ∈ f.parts names, Settled part) → f.normal names = f
  | .last operand, h, settled => by rw [Formula.normal, operand.normal_self distinct none h settled]
  | .more operand operator rest, h, settled => by
    obtain ⟨first, more⟩ := List.forall_mem_append.mp settled
    rw [Formula.normal, operand.normal_self distinct none h.1 first, rest.normal_self distinct h.2 more]

theorem Comparison.normal_self (distinct : names.strings.Nodup) (c : Comparison)
    (h : c.Fits names.strings.length) (settled : ∀ part ∈ c.parts names, Settled part) :
    c.normal names = c := by
  obtain ⟨left, right⟩ := List.forall_mem_append.mp settled
  rw [Comparison.normal, c.left.normal_self distinct h.1 left, c.right.normal_self distinct h.2 right]

theorem Condition.normal_self (distinct : names.strings.Nodup) : ∀ c : Condition,
    c.Fits names.strings.length → (∀ part ∈ c.parts names, Settled part) → c.normal names = c
  | .last comparison, h, settled => by rw [Condition.normal, comparison.normal_self distinct h settled]
  | .more comparison conjunction rest, h, settled => by
    obtain ⟨first, more⟩ := List.forall_mem_append.mp settled
    rw [Condition.normal, comparison.normal_self distinct h.1 first, rest.normal_self distinct h.2 more]

theorem Guard.normal_self (distinct : names.strings.Nodup) (g : Guard) (h : g.Fits names.strings.length)
    (settled : ∀ part ∈ g.parts names, Settled part) : g.normal names = g := by
  cases g with
  | condition c => rw [Guard.normal, c.normal_self distinct h settled]
  | result value => rfl

theorem Place.normal_self (distinct : names.strings.Nodup) (p : Place)
    (h : p.operand.Fits names.strings.length) (settled : ∀ part ∈ p.operand.parts names none, Settled part) :
    p.normal names = p := by
  cases p with
  | field object reference =>
    rw [Place.normal, object.normal_self distinct h (List.forall_mem_cons.mp settled).2]
  | _ => rfl

theorem Action.normal_self (distinct : names.strings.Nodup) (a : Action) (h : a.Fits names.strings.length)
    (settled : ∀ part ∈ a.parts names, Settled part) : a.normal names = a := by
  cases a with
  | call mode routine arguments =>
    rw [Action.normal, argumentsNormal_self distinct routine arguments 0 h.2 settled]
  | objectCall object mode routine arguments =>
    obtain ⟨ofObject, ofArguments⟩ := List.forall_mem_append.mp settled
    rw [Action.normal, object.normal_self distinct h.1 ofObject,
      argumentsNormal_self distinct routine arguments 0 h.2.2 ofArguments]
  | assign place formula =>
    obtain ⟨left, right⟩ := List.forall_mem_append.mp settled
    rw [Action.normal, place.normal_self distinct h.1 left, formula.normal_self distinct h.2 right]
  | _ => rfl

mutual

theorem Statement.normal_self (distinct : names.strings.Nodup) : ∀ s : Statement,
    s.Fits names.strings.length → (∀ part ∈ s.parts names, Settled part) → s.normal names = s
  | .action a, h, settled => by rw [Statement.normal, a.normal_self distinct h settled]
  | .block guard body, h, settled => by
    obtain ⟨first, rest⟩ := List.forall_mem_append.mp settled
    rw [Statement.normal, guard.normal_self distinct h.1 first, normalBlock_self distinct body h.2.1 rest]
  | .mark _, _, _ => rfl

/-- Settled code is normal. -/
theorem normalBlock_self (distinct : names.strings.Nodup) : ∀ ss : List Statement,
    blockFits names.strings.length ss → (∀ part ∈ blockParts names ss, Settled part) →
      normalBlock names ss = ss
  | [], _, _ => rfl
  | s :: ss, h, settled => by
    obtain ⟨first, rest⟩ := List.forall_mem_append.mp settled
    rw [normalBlock, s.normal_self distinct h.1 first, normalBlock_self distinct ss h.2 rest]

end

/-- A string that assembly stored as a string is no dialogue label. -/
theorem Settled.short {part : Option ArgumentKind × Operand} (h : Settled part) : names.Short part := by
  rintro index rfl
  exact absurd rfl h

end Code

namespace Catalog

/-- The name is made of the number of a routine that has a name. -/
def Aliases (c : Catalog) (name : String) : Prop :=
  c.ordinal? .routines name = none ∧
    ((Name.number? "routine" name).bind fun n => c.name? .routines n).isSome = true

instance (c : Catalog) (name : String) : Decidable (c.Aliases name) := inferInstanceAs (Decidable (_ ∧ _))

/-- Only such names hide what arguments stand for. -/
theorem Sound.keepsKinds {c : Catalog} (sound : c.Sound) {name : String} (h : ¬ c.Aliases name) :
    c.KeepsKinds name := by
  intro ordinal found index
  have meaning : c.meaning? .routine name = some ordinal := by
    rw [resolve] at found
    split at found
    · cases found
    · next other =>
      split at found
      · cases found
        exact other
      · cases found
  rw [meaning?] at meaning
  cases defined : c.ordinal? NameClass.routine.table name with
  | some n =>
    rw [defined] at meaning
    cases meaning
    have named : c.name? .routines ordinal = some name := sound.name?_of_ordinal? defined
    rw [named]
    rfl
  | none =>
    rw [defined] at meaning
    have number : Name.number? "routine" name = some ordinal := (Option.filter_eq_some_iff.mp meaning).1
    have unnamed : c.name? .routines ordinal = none := by
      rw [← Option.not_isSome_iff_eq_none]
      exact fun named => h ⟨defined, by rwa [number]⟩
    rw [ArgumentKind.of?_eq_none number, unnamed]
    rfl

end Catalog

/-- The unit starts at a statement, at the end of its code or at the address zero. -/
def ScriptUnit.StartsAtStatement (u : ScriptUnit) : Prop :=
  u.header.entry = 0 ∨ u.header.entry.toNat = u.code.length ∨
    ∃ body, (Code.decode u.strings.length u.code).result = .ok body ∧
      u.header.entry.toNat ∈ Code.blockStarts 0 body

namespace Assembly

variable {catalog : Catalog} {map : String}

/-- The listing of a unit that assembly made from good names gives the same unit. -/
theorem Compiled.restored_eq {u : ScriptUnit} {body : List Code.Statement} {offset : Nat}
    (h : Compiled catalog catalog.KeepsKinds body u) (small : u.code.length ≤ 65535)
    (distinct : u.strings.Nodup) (start : u.StartsAtStatement)
    (place : u.header.scriptOffset = UInt32.ofNat offset) :
    u.Restorable catalog (locatedBody body) ∧ u.restored catalog (locatedBody body) offset = u := by
  have statements : (u.statements catalog).result = .ok (locatedBody body) := by
    refine h.statements small (start.imp_right (.imp_right ?_))
    rintro ⟨body', decoded, mem⟩
    rw [h.decode small] at decoded
    cases decoded
    exact mem
  have settled := h.settled fun _ keeps => keeps
  have restorable := h.restorable small statements fun part mem => (settled part mem).short
  refine ⟨restorable, ?_⟩
  have code : Code.encodeBlock id (Code.normalBlock (u.names catalog) (locatedBody body)) = u.code := by
    rw [Code.normalBlock_self distinct _ restorable.block.fits settled, locatedBody,
      Code.encodeBlock_located, h.code]
  rw [ScriptUnit.restored, code, ← place, ← h.header]

/-- Units whose code lies one after another are given back as they lie. -/
theorem restoredUnits_eq {us : List ScriptUnit} : ∀ {offset : Nat}, Chained offset us →
    (∀ u ∈ us, ∃ body, Compiled catalog catalog.KeepsKinds body u) → (∀ u ∈ us, u.code.length ≤ 65535) →
    (∀ u ∈ us, u.strings.Nodup) → (∀ u ∈ us, u.StartsAtStatement) →
      (∀ u ∈ us, u.Restorable catalog (u.body catalog)) ∧ restoredUnits catalog offset us = us := by
  induction us with
  | nil => exact fun _ _ _ _ _ => ⟨by simp, rfl⟩
  | cons u us ih =>
    intro offset chained compiled small distinct start
    obtain ⟨⟨body, h⟩, compiled⟩ := List.forall_mem_cons.mp compiled
    obtain ⟨little, small⟩ := List.forall_mem_cons.mp small
    obtain ⟨nodup, distinct⟩ := List.forall_mem_cons.mp distinct
    obtain ⟨first, start⟩ := List.forall_mem_cons.mp start
    obtain ⟨restorable, same⟩ := h.restored_eq little nodup first chained.1
    have body_ := body_of_statements restorable.statements
    rw [← body_] at restorable same
    have rest := chained.2
    rw [h.toNat_scriptLength little] at rest
    obtain ⟨others, later⟩ := ih rest compiled small distinct start
    exact ⟨List.forall_mem_cons.mpr ⟨restorable, others⟩, by rw [restoredUnits, same, later]⟩

/-- Units with statements have listings. -/
theorem exists_listings : ∀ {us : List ScriptUnit}, (∀ u ∈ us, ∃ body, (u.statements catalog).result = .ok body) →
    ∃ text, (ScriptUnit.listings catalog us).result = .ok text
  | [], _ => ⟨[], rfl⟩
  | [u], h => by
    obtain ⟨body, statements⟩ := h u (List.mem_singleton_self u)
    exact ⟨_, listing_eq_ok.mpr ⟨body, statements, rfl⟩⟩
  | u :: v :: us, h => by
    obtain ⟨⟨body, statements⟩, others⟩ := List.forall_mem_cons.mp h
    obtain ⟨rest, there⟩ := exists_listings others
    exact ⟨_, Traced.result_bind_eq_ok.mpr ⟨_, listing_eq_ok.mpr ⟨body, statements, rfl⟩,
      Traced.result_bind_eq_ok.mpr ⟨rest, there, rfl⟩⟩⟩

/-- The listing of a text's units assembles to the same units, if no routine with a name is called by
another, strings are distinct and units start at statements. -/
theorem assemble_listings_eq_self {sources : Catalog.Sources}
    (accepted : (Catalog.ofSources sources).result = .ok catalog) (clean : catalog.Clean)
    {lines : List String} {us : List ScriptUnit} (assembled : (assemble catalog map lines).result = .ok us)
    (small : ∀ u ∈ us, u.code.length ≤ 65535) (distinct : ∀ u ∈ us, u.strings.Nodup)
    (start : ∀ u ∈ us, u.StartsAtStatement)
    (called : ∀ name ∈ Source.calledNames catalog lines, ¬ catalog.Aliases name) :
    ∃ text, (ScriptUnit.listings catalog us).result = .ok text ∧
      ∀ map', (assemble catalog map' text).result = .ok us := by
  have sound := Catalog.sound_ofSources accepted
  obtain ⟨compiled, chained, room⟩ := assemble_compiled (P := catalog.KeepsKinds) assembled
    fun name mem => sound.keepsKinds (called name mem)
  obtain ⟨restorable, same⟩ := restoredUnits_eq chained compiled small distinct start
  obtain ⟨text, listed⟩ := exists_listings fun u hu => ⟨_, (restorable u hu).statements⟩
  refine ⟨text, listed, fun map' => ?_⟩
  rw [assemble_listings sound clean restorable listed (room small) map', same]

/-- A script with a block, labels in front of it and at the end, and most kinds of values. -/
def guardText : List String :=
  ["unit \"Guard\"", "entry = #2", "strings = \"hi\", \"Bo\"", "variables(3) = 0, -5", "Solid = 1", Text.leftBrace,
    "#1: // on arrival", "Message(\"hi\")", "if GateOpen = 0 and HasItem(<Potion>) > var1 + 2", Text.leftBrace,
    "GiveItem(<Potion>, flag9)", "async \"Bo\".Walk(var2.Height, routine9())", "goto #2", Text.rightBrace, "end #1",
    "#2:", Text.rightBrace]

/-- The unit of the script. -/
def guardUnit : ScriptUnit where
  header := { name := "Guard", instances := 1, scriptLength := 87, entry := 87 }
  strings := ["hi", "Bo"]
  vars := [0, -5, 0]
  code := [0, 0, 2, 1, 8, 0, 0, 0, 0, 3, 6, 0, 3, 0, 7, 0, 0, 0, 0, 1, 2, 0, 4, 1, 8, 0, 0, 0, 7, 3, 9, 1, 32,
    7, 0, 0, 0, 2, 0, 0, 0, 0, 39, 0, 0, 3, 2, 8, 0, 0, 0, 7, 6, 0, 9, 0, 0, 12, 1, 0, 0, 0, 1, 1, 0, 5, 2, 11,
    2, 9, 2, 0, 1, 2, 0, 9, 0, 4, 0, 0, 0, 87, 5, 0, 0, 0, 0]
  attributes := 1 :: List.replicate 255 0

theorem assemble_guardText : (assemble .village "field" guardText).result = .ok [guardUnit] :=
  eq_ok_of_toOption (by decide +kernel)

theorem assemble_listings_guardUnit : ∃ text, (ScriptUnit.listings .village [guardUnit]).result = .ok text ∧
    ∀ map, (assemble .village map text).result = .ok [guardUnit] :=
  assemble_listings_eq_self Catalog.village_accepted Catalog.village_clean assemble_guardText (by decide)
    (by decide) (List.forall_mem_singleton.mpr (.inr (.inl (by decide)))) (by decide +kernel)

end Assembly

end EventScript
