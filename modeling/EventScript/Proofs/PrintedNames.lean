import EventScript.Proofs.Normal

/-!
# Names that are read as what they are shown for

A listing shows an ordinal by the name that its table has for it, by a stem with the number if it has none, and
items and maps by their names in angle brackets. Where no name is defined twice, `printedName_resolves` says which
of these are read as the ordinal again: all of them but two kinds. A table may give the name `flag3` to another flag
than the third; if the third flag has no name, its stem with the number is taken for the other one. An item or a map
may be called like the marker `<ScriptRv>`, which is left alone.
-/

namespace EventScript

namespace Catalog

variable {c : Catalog} {t : Table} {n m : Nat} {name : String}

/-- No table defines a name twice. -/
def DefinesOnce (c : Catalog) : Prop :=
  ∀ (t : Table) (m n : Nat) (name : String), c.name? t m = some name → c.name? t n = some name → m = n

theorem definesOnce_of_entries
    (single : ∀ t, ∀ e ∈ (c.names t).entries, ∀ f ∈ (c.names t).entries, e.2 = f.2 → e.1 = f.1) :
    c.DefinesOnce := by
  intro t m n name first second
  rw [name?_eq] at first second
  exact single t _ (NameTable.mem_of_name? first) _ (NameTable.mem_of_name? second) rfl

theorem exists_ordinal?_of_name? (named : c.name? t n = some name) : ∃ m, c.ordinal? t name = some m := by
  cases found : c.ordinal? t name with
  | some m => exact ⟨m, rfl⟩
  | none =>
    rw [ordinal?_eq, NameTable.ordinal?, Option.map_eq_none_iff, List.find?_eq_none] at found
    rw [name?_eq] at named
    exact absurd (beq_self_eq_true name) (found (n, name) (NameTable.mem_of_name? named))

/-- A name that is defined once stands for its ordinal. -/
theorem DefinesOnce.ordinal?_of_name? (once : c.DefinesOnce) (sound : c.Sound) (named : c.name? t n = some name) :
    c.ordinal? t name = some n := by
  obtain ⟨m, found⟩ := exists_ordinal?_of_name? named
  rw [found, once t m n name (sound.name?_of_ordinal? found) named]

theorem mem_sharedNames (isMap : c.ordinal? .maps name = some m) (isItem : c.ordinal? .items name ≠ none) :
    name ∈ c.sharedNames := by
  have mem := List.mem_map_of_mem (f := Prod.snd) (NameTable.mem_of_ordinal? (t := c.maps) isMap)
  rw [sharedNames, List.mem_mergeSort, List.mem_eraseDups, List.mem_filter]
  exact ⟨mem, Option.isSome_iff_ne_none.mpr isItem⟩

/-- No name stands for a map and for an item. -/
theorem ordinal?_items_of_maps {s : Sources} (accepted : (ofSources s).result = .ok c)
    (isMap : c.ordinal? .maps name = some m) : c.ordinal? .items name = none := by
  obtain ⟨-, -, none_⟩ := ofSources_eq_ok accepted
  refine Classical.byContradiction fun isItem => ?_
  have shared := mem_sharedNames isMap isItem
  rw [none_] at shared
  cases shared

theorem bracketed?_of_name? {s : Sources} (accepted : (ofSources s).result = .ok c) (once : c.DefinesOnce)
    (table : t = .items ∨ t = .maps) (named : c.name? t n = some name) : c.bracketed? name = some n := by
  have known := once.ordinal?_of_name? (sound_ofSources accepted) named
  rw [bracketed?]
  rcases table with rfl | rfl
  · have other : c.ordinal? .maps name = none := by
      cases found : c.ordinal? .maps name with
      | none => rfl
      | some m =>
        rw [ordinal?_items_of_maps accepted found] at known
        cases known
    rw [other, known]
    rfl
  · rw [known]
    rfl

/-- An ordinal with a name, or for whose stem with the number no other use has been made, is read back. -/
theorem meaning?_printedName (once : c.DefinesOnce) (sound : c.Sound) {k : NameClass} (small : n ≤ k.most)
    (free : (c.name? k.table n).isSome = true ∨ ∀ m, c.name? k.table m ≠ some (Name.withNumber k.stem n)) :
    c.meaning? k (c.printedName k n) = some n := by
  rw [printedName, meaning?]
  cases named : c.name? k.table n with
  | some name =>
    rw [Option.getD_some, once.ordinal?_of_name? sound named]
    rfl
  | none =>
    have unused : c.ordinal? k.table (Name.withNumber k.stem n) = none := by
      have free := free.resolve_left (by simp [named])
      cases found : c.ordinal? k.table (Name.withNumber k.stem n) with
      | none => rfl
      | some m => exact absurd (sound.name?_of_ordinal? found) (free m)
    have word : n ≤ Text.maxWord64 := by
      refine Nat.le_trans small ?_
      cases k <;> decide
    rw [Option.getD_none, unused, Name.number?_withNumber, Option.filter_some, if_pos (decide_eq_true word)]
    rfl

/-- An ordinal without a name is taken for the one that has been given the stem with its number as a name. -/
theorem meaning?_printedName_of_taken (once : c.DefinesOnce) (sound : c.Sound) {k : NameClass}
    (unnamed : c.name? k.table n = none) (taken : c.name? k.table m = some (Name.withNumber k.stem n)) :
    c.meaning? k (c.printedName k n) = some m := by
  rw [printedName, unnamed, Option.getD_none, meaning?, once.ordinal?_of_name? sound taken]
  rfl

end Catalog

/-- A name in angle brackets, alone on a line, is replaced by what stands for it. -/
theorem Source.substituteBrackets_name {catalog : Catalog} {name : String}
    (identifier : Name.isIdentifier name.toList = true) :
    substituteBrackets catalog ("<" ++ name ++ ">").toList = bracketText catalog name.toList := by
  have text : ("<" ++ name ++ ">").toList = '<' :: (name.toList ++ ['>']) := by
    simp [String.toList_append]
  have rest : substitute catalog .outside (name.toList.length + 1) (name.toList ++ ['>']) = .ok [] := by
    rw [← List.append_nil (name.toList ++ ['>']), ← List.length_singleton (a := '>'), ← List.length_append,
      substitute_skip]
    rfl
  rw [substituteBrackets, text, substitute, if_pos rfl, bracketName?_name identifier []]
  dsimp only
  rw [rest]
  cases bracketText catalog name.toList with
  | error e => rfl
  | ok shown => exact congrArg Except.ok (List.append_nil shown)

namespace Catalog

/-- Where no name is defined twice, an ordinal is read back from the name that it is shown by, with two exceptions.
An ordinal without a name is taken for one that has been given the stem with its number as a name. An item or a map
with the name of the marker `<ScriptRv>` is not read as an ordinal at all. -/
theorem printedName_resolves {sources : Sources} {c : Catalog} (accepted : (ofSources sources).result = .ok c)
    (once : c.DefinesOnce) :
    (∀ (k : NameClass) (n : Nat), n ≤ k.most →
      (c.resolve k (c.printedName k n) = .ok n ↔
        (c.name? k.table n).isSome = true ∨ ∀ m, c.name? k.table m ≠ some (Name.withNumber k.stem n)) ∧
      ∀ m, c.name? k.table n = none → c.name? k.table m = some (Name.withNumber k.stem n) →
        c.resolve k (c.printedName k n) =
          if m ≤ k.most then .ok m else .error (.ordinalRange m (Name.withNumber k.stem n) k.most)) ∧
    ∀ (t : Table) (n : Nat) (name : String), t = .items ∨ t = .maps → c.name? t n = some name →
      Source.substituteBrackets c ("<" ++ name ++ ">").toList =
        .ok (if name = Source.resultMarker then ("<" ++ name ++ ">").toList else (Text.decimal n).toList) := by
  have sound := sound_ofSources accepted
  refine ⟨fun k n small => ?_, fun t n name table named => ?_⟩
  · have redirected : ∀ m, c.name? k.table n = none → c.name? k.table m = some (Name.withNumber k.stem n) →
        c.resolve k (c.printedName k n) =
          if m ≤ k.most then .ok m else .error (.ordinalRange m (Name.withNumber k.stem n) k.most) := by
      intro m unnamed taken
      rw [resolve, meaning?_printedName_of_taken once sound unnamed taken, printedName, unnamed, Option.getD_none]
    refine ⟨⟨fun back => ?_, fun free => ?_⟩, redirected⟩
    · cases named : c.name? k.table n with
      | some name => exact .inl rfl
      | none =>
        refine .inr fun m taken => ?_
        rw [redirected m named taken] at back
        split at back
        · rw [Except.ok.inj back, named] at taken
          cases taken
        · cases back
    · rw [resolve, meaning?_printedName once sound small free]
      exact if_pos small
  · have identifier := Code.isIdentifier_of_isDefinable (sound.definable named)
    rw [Source.substituteBrackets_name identifier, Source.bracketText, String.ofList_toList]
    by_cases marker : name = Source.resultMarker
    · rw [if_pos marker, if_pos marker]
      simp [String.toList_append]
    · rw [if_neg marker, if_neg marker, bracketed?_of_name? accepted once table named]

/-- Definition files that use the names of others: the flag `flag3` is not the third one, and an item is called like
the marker. -/
def maskedFiles : Sources where
  routines := "1 = Wait 1"
  flags := "0 = flag3\nGateOpen"
  items := "4 = ScriptRv\n5 = Potion"
  maps := "5 = Cave"
  references := ""
  attributes := ""
  dialogue := none

/-- The catalog of the files. -/
def masked : Catalog where
  routines := [⟨1, "Wait", 1, .task⟩]
  flags := ⟨[(0, "flag3"), (1, "GateOpen")]⟩
  items := ⟨[(4, "ScriptRv"), (5, "Potion")]⟩
  maps := ⟨[(5, "Cave")]⟩
  references := ⟨[]⟩
  attributes := ⟨[]⟩
  dialogue := []

/-- The third flag is taken for the flag with the ordinal zero, and the item for the marker. Other names are read
back, that of a routine without a definition among them. -/
theorem printedName_resolves_masked : (ofSources maskedFiles).result = .ok masked ∧
    masked.printedName .flag 3 = "flag3" ∧ masked.resolve .flag (masked.printedName .flag 3) = .ok 0 ∧
    masked.resolve .flag (masked.printedName .flag 0) = .ok 0 ∧
    masked.resolve .routine (masked.printedName .routine 65535) = .ok 65535 ∧
    Source.substituteBrackets masked "<ScriptRv>".toList = .ok "<ScriptRv>".toList ∧
    Source.substituteBrackets masked "<Potion>".toList = .ok "5".toList := by
  have accepted : (ofSources maskedFiles).result = .ok masked := eq_ok_of_toOption (by decide +kernel)
  have once : masked.DefinesOnce := by
    refine definesOnce_of_entries fun t => ?_
    cases t <;> decide
  have fresh : ∀ m, masked.name? .routines m ≠ some (Name.withNumber "routine" 65535) := by
    intro m taken
    rw [name?_eq] at taken
    have same : Name.withNumber "routine" 65535 = "Wait" :=
      congrArg Prod.snd (List.mem_singleton.mp (NameTable.mem_of_name? taken))
    exact absurd same (by decide)
  obtain ⟨symbols, brackets⟩ := printedName_resolves accepted once
  refine ⟨accepted, rfl, ?_, ?_, ?_, ?_, ?_⟩
  · exact (symbols .flag 3 (by decide)).2 0 rfl rfl
  · exact (symbols .flag 0 (by decide)).1.mpr (.inl rfl)
  · exact (symbols .routine 65535 (by decide)).1.mpr (.inr fresh)
  · exact brackets .items 4 "ScriptRv" (.inl rfl) rfl
  · exact brackets .items 5 "Potion" (.inl rfl) rfl

end Catalog

end EventScript
