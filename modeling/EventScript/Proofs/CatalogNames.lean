import EventScript.Catalog.Definition
import EventScript.Proofs.Digits
import EventScript.Proofs.Run
import EventScript.Source.Line
import EventScript.Catalog.Symbol

/-!
# Names of a catalog

The definition files are checked when a catalog is read, so every name that a listing shows is an
identifier without another meaning (`Catalog.Sound.printedName_definable`), and a name stands for an
ordinal only if the ordinal has that name. A catalog is `Clean` if, the other way round, every name that a
listing shows stands for the ordinal it is shown for.
-/

namespace EventScript

namespace NameTable

/-- The names may be defined and no ordinal has two. -/
structure Sound (t : NameTable) : Prop where
  definable : ∀ e ∈ t.entries, Name.isDefinable e.2.toList = true
  unique : (t.entries.map Prod.fst).Nodup

theorem sound_empty : empty.Sound := ⟨by simp [empty], by simp [empty]⟩

theorem not_mem_of_name?_eq_none {t : NameTable} {n : Nat} (h : t.name? n = none) :
    n ∉ t.entries.map Prod.fst := by
  rw [name?, Option.map_eq_none_iff, List.find?_eq_none] at h
  intro mem
  obtain ⟨e, he, rfl⟩ := List.mem_map.mp mem
  exact h e he (beq_self_eq_true e.1)

/-- A table that gives one more definition to an ordinal without a name. -/
theorem Sound.add {t : NameTable} (sound : t.Sound) {n : Nat} {name : String}
    (definable : Name.isDefinable name.toList = true) (fresh : n ∉ t.entries.map Prod.fst) :
    Sound ⟨t.entries ++ [(n, name)]⟩ := by
  constructor
  · intro e he
    rcases List.mem_append.mp he with he | he
    · exact sound.definable e he
    · rw [List.mem_singleton.mp he]
      exact definable
  · rw [List.map_append, List.nodup_append]
    refine ⟨sound.unique, by simp, ?_⟩
    rintro m hm k hk rfl
    rw [List.map_singleton, List.mem_singleton] at hk
    rw [hk] at hm
    exact fresh hm

theorem checked_eq_ok {table : Table} {line : Nat} {cs : List Char} {name : String}
    (h : Name.checked table line cs = .ok name) :
    Name.isDefinable name.toList = true ∧ name = String.ofList cs := by
  rw [Name.checked] at h
  split at h
  · next ok =>
    cases h
    rw [String.toList_ofList]
    exact ⟨ok, rfl⟩
  · cases h

/-- What the addition of a definition does. -/
theorem add_eq_ok {table : Table} {state state' : NameTable × Nat} {d : Nat × Definition}
    (h : (NameTable.add table state d).result = .ok state') : ∃ n name,
    d.2.ordinal table d.1 state.2 = .ok n ∧ Name.checked table d.1 d.2.body = .ok name ∧
      state.1.name? n = none ∧ state' = (⟨state.1.entries ++ [(n, name)]⟩, n + 1) := by
  rw [NameTable.add, Traced.result_bind_eq_ok] at h
  obtain ⟨n, ordinal, h⟩ := h
  rw [Traced.result_bind_eq_ok] at h
  obtain ⟨name, checked, h⟩ := h
  dsimp only at h
  split at h
  · cases h
  · next fresh =>
    rw [Traced.result_bind_eq_ok] at h
    obtain ⟨-, -, h⟩ := h
    cases h
    rw [Option.isSome_iff_ne_none, Classical.not_not] at fresh
    exact ⟨n, name, ordinal, checked, fresh, rfl⟩

theorem sound_add {table : Table} {state state' : NameTable × Nat} {d : Nat × Definition}
    (sound : state.1.Sound) (h : (NameTable.add table state d).result = .ok state') :
    state'.1.Sound := by
  obtain ⟨n, name, -, checked, fresh, rfl⟩ := add_eq_ok h
  exact sound.add (checked_eq_ok checked).1 (not_mem_of_name?_eq_none fresh)

theorem sound_read {table : Table} {text : String} {t : NameTable}
    (h : (read table text).result = .ok t) : t.Sound := by
  rw [read, Traced.result_bind_eq_ok] at h
  obtain ⟨state, run, h⟩ := h
  cases h
  exact Traced.foldlM_keeps (P := fun state => state.1.Sound) (fun _ _ _ => sound_add) sound_empty run

theorem mem_of_ordinal? {t : NameTable} {name : String} {n : Nat} (h : t.ordinal? name = some n) :
    (n, name) ∈ t.entries := by
  obtain ⟨e, found, rfl⟩ := Option.map_eq_some_iff.mp h
  have same := List.find?_some found
  rw [beq_iff_eq] at same
  rw [← same]
  exact List.mem_of_find?_eq_some found

theorem mem_of_name? {t : NameTable} {name : String} {n : Nat} (h : t.name? n = some name) :
    (n, name) ∈ t.entries := by
  obtain ⟨e, found, rfl⟩ := Option.map_eq_some_iff.mp h
  have same := List.find?_some found
  rw [beq_iff_eq] at same
  rw [← same]
  exact List.mem_of_find?_eq_some found

theorem eq_of_nodup_fst {entries : List (Nat × String)} (unique : (entries.map Prod.fst).Nodup)
    {n : Nat} {name other : String} (h : (n, name) ∈ entries) (h' : (n, other) ∈ entries) :
    name = other := by
  induction entries with
  | nil => cases h
  | cons e entries ih =>
    rw [List.map_cons, List.nodup_cons] at unique
    rcases List.mem_cons.mp h with rfl | mem <;> rcases List.mem_cons.mp h' with same | mem'
    · cases same
      rfl
    · exact absurd (List.mem_map_of_mem mem') unique.1
    · rw [← same] at unique
      exact absurd (List.mem_map_of_mem mem) unique.1
    · exact ih unique.2 mem mem'

/-- An ordinal has the only name that is defined for it. -/
theorem Sound.name?_of_mem {t : NameTable} (sound : t.Sound) {n : Nat} {name : String}
    (h : (n, name) ∈ t.entries) : t.name? n = some name := by
  cases found : t.name? n with
  | none => exact absurd (List.mem_map_of_mem h) (not_mem_of_name?_eq_none found)
  | some other =>
    rw [eq_of_nodup_fst sound.unique h (mem_of_name? found)]

end NameTable

namespace Routine

/-- Routines as definitions of names. -/
def table (rs : List Routine) : NameTable := ⟨rs.map fun r => (r.ordinal, r.name)⟩

/-- What the addition of a definition does. -/
theorem add_eq_ok {state state' : List Routine × Nat} {d : Nat × Definition}
    (h : Routine.add state d = .ok state') : ∃ n first name parameters kind,
    d.2.ordinal .routines d.1 state.2 = .ok n ∧ (Text.words d.2.body).head? = some first ∧
      Name.checked .routines d.1 first = .ok name ∧ n ∉ state.1.map Routine.ordinal ∧
      state' = (state.1 ++ [⟨n, name, parameters, kind⟩], n + 1) := by
  rw [Routine.add, bind_eq_ok] at h
  obtain ⟨n, ordinal, h⟩ := h
  dsimp only at h
  split at h
  · cases h
  · next first rest words =>
    rw [bind_eq_ok] at h
    obtain ⟨name, checked, h⟩ := h
    rw [bind_eq_ok] at h
    obtain ⟨parameters, -, h⟩ := h
    rw [bind_eq_ok] at h
    obtain ⟨kind, -, h⟩ := h
    split at h
    · cases h
    · next fresh =>
      cases h
      refine ⟨n, first, name, parameters, kind, ordinal, by rw [words]; rfl, checked, ?_, rfl⟩
      simpa using fresh

theorem table_concat (rs : List Routine) (r : Routine) :
    table (rs ++ [r]) = ⟨(table rs).entries ++ [(r.ordinal, r.name)]⟩ := by
  rw [table, List.map_append]
  rfl

theorem sound_add {state state' : List Routine × Nat} {d : Nat × Definition}
    (sound : (table state.1).Sound) (h : Routine.add state d = .ok state') :
    (table state'.1).Sound := by
  obtain ⟨n, first, name, parameters, kind, -, -, checked, fresh, rfl⟩ := add_eq_ok h
  rw [table_concat]
  refine sound.add (NameTable.checked_eq_ok checked).1 ?_
  rwa [table, List.map_map]

theorem sound_read {text : String} {rs : List Routine} (h : read text = .ok rs) :
    (table rs).Sound := by
  rw [read, bind_eq_ok] at h
  obtain ⟨state, run, h⟩ := h
  cases h
  exact foldlM_keeps (P := fun state => (table state.1).Sound) (fun _ _ _ => sound_add)
    ⟨by simp [table], by simp [table]⟩ run

end Routine

namespace Catalog

/-- The definitions of a table. -/
def names (c : Catalog) : Table → NameTable
  | .routines => Routine.table c.routines
  | .flags => c.flags
  | .items => c.items
  | .maps => c.maps
  | .references => c.references
  | .attributes => c.attributes

theorem name?_eq (c : Catalog) (t : Table) (n : Nat) : c.name? t n = (c.names t).name? n := by
  cases t with
  | routines =>
    simp only [name?, names, NameTable.name?, routine?, Routine.table, List.find?_map, Option.map_map]
    rfl
  | _ => rfl

theorem ordinal?_eq (c : Catalog) (t : Table) (name : String) :
    c.ordinal? t name = (c.names t).ordinal? name := by
  cases t with
  | routines =>
    simp only [ordinal?, names, NameTable.ordinal?, routineByName?, Routine.table, List.find?_map,
      Option.map_map]
    rfl
  | _ => rfl

/-- The text of the file that defines a table. -/
def Sources.text (s : Sources) : Table → String
  | .routines => s.routines
  | .flags => s.flags
  | .items => s.items
  | .maps => s.maps
  | .references => s.references
  | .attributes => s.attributes

/-- A catalog is read if each of its tables is and no name stands for a map and an item. -/
theorem ofSources_eq_ok {s : Sources} {c : Catalog} (h : (ofSources s).result = .ok c) :
    Routine.read s.routines = .ok c.routines ∧
    (∀ t, t ≠ .routines → (NameTable.read t (s.text t)).result = .ok (c.names t)) ∧ c.sharedNames = [] := by
  rw [ofSources, Traced.result_bind_eq_ok] at h
  obtain ⟨routines, hr, h⟩ := h
  simp only [Traced.result_bind_eq_ok] at h
  obtain ⟨flags, hf, items, hi, maps, hm, references, hrf, attributes, ha, h⟩ := h
  split at h
  · next none_ =>
    cases h
    refine ⟨hr, fun t other => ?_, List.isEmpty_iff.mp none_⟩
    cases t with
    | routines => exact absurd rfl other
    | flags => exact hf
    | items => exact hi
    | maps => exact hm
    | references => exact hrf
    | attributes => exact ha
  · cases h

/-- What the definition files are checked for. -/
def Sound (c : Catalog) : Prop := ∀ t, (c.names t).Sound

theorem sound_ofSources {s : Sources} {c : Catalog} (h : (ofSources s).result = .ok c) : c.Sound := by
  obtain ⟨routines, others, -⟩ := ofSources_eq_ok h
  intro t
  by_cases table : t = .routines
  · rw [table]
    exact Routine.sound_read routines
  · exact NameTable.sound_read (others t table)

/-- A name stands for an ordinal only if the ordinal has that name. -/
theorem Sound.name?_of_ordinal? {c : Catalog} (sound : c.Sound) {t : Table} {name : String} {n : Nat}
    (h : c.ordinal? t name = some n) : c.name? t n = some name := by
  rw [ordinal?_eq] at h
  rw [name?_eq]
  exact (sound t).name?_of_mem (NameTable.mem_of_ordinal? h)

theorem Sound.definable {c : Catalog} (sound : c.Sound) {t : Table} {name : String} {n : Nat}
    (h : c.name? t n = some name) : Name.isDefinable name.toList = true := by
  rw [name?_eq] at h
  exact (sound t).definable (n, name) (NameTable.mem_of_name? h)

end Catalog

/-! ### Names for ordinals without one -/

theorem NameClass.number?_reserved (k : NameClass) :
    ∀ word ∈ Name.reserved, Name.number? k.stem word = none := by
  cases k <;> decide

theorem NameClass.number?_builtin (k : NameClass) (which : Builtin) :
    Name.number? k.stem which.name = none := by
  cases k <;> cases which <;> decide

theorem Builtin.eq_name {name : String} {which : Builtin} (h : ofName? name = some which) :
    name = which.name := by
  rw [ofName?] at h
  split at h
  · next e => cases h; exact e
  · split at h
    · next e => cases h; exact e
    · split at h
      · next e => cases h; exact e
      · cases h

/-- A stem with a number says nothing about arguments. -/
theorem ArgumentKind.of?_eq_none {name : String} {n : Nat} (h : Name.number? "routine" name = some n)
    (index : Nat) : of? name index = none := by
  have other : ∀ s ∈ slots, Name.number? "routine" s.1 = none := by decide
  have none_ : slots.find? (fun s => s.1 == name && s.2.1 == index) = none := by
    rw [List.find?_eq_none]
    intro s hs same
    rw [Bool.and_eq_true, beq_iff_eq] at same
    rw [← same.1, other s hs] at h
    cases h
  rw [of?]
  exact congrArg (Option.map _) none_

/-- A name with a number has no other meaning. -/
theorem Name.isDefinable_withNumber (k : NameClass) (n : Nat) :
    isDefinable (withNumber k.stem n).toList = true := by
  have number := number?_withNumber k.stem n
  have identifier : isIdentifier (withNumber k.stem n).toList = true := by
    rw [toList_withNumber]
    exact isIdentifier_append_digits (by cases k <;> decide) (by cases k <;> decide)
      (Text.all_isDigit_toDigits n)
  have free : reserved.contains (withNumber k.stem n) = false := by
    rw [← Bool.not_eq_true, List.contains_iff_mem]
    intro mem
    rw [k.number?_reserved _ mem] at number
    cases number
  have object : Builtin.ofName? (withNumber k.stem n) = none := by
    cases h : Builtin.ofName? (withNumber k.stem n) with
    | none => rfl
    | some which =>
      rw [Builtin.eq_name h, k.number?_builtin] at number
      cases number
  have slot : slot? (withNumber k.stem n) = none := by
    have after : Text.after? "var".toList (withNumber k.stem n).toList = none := by
      rw [toList_withNumber]
      cases k <;> rfl
    rw [slot?, number?, after]
    rfl
  simp only [isDefinable, String.ofList_toList, identifier, free, object, slot]
  rfl

namespace Catalog

variable {c : Catalog}

/-- Every name that a listing shows may be defined. -/
theorem Sound.printedName_definable (sound : c.Sound) (k : NameClass) (n : Nat) :
    Name.isDefinable (c.printedName k n).toList = true := by
  rw [printedName]
  cases h : c.name? k.table n with
  | none => exact Name.isDefinable_withNumber k n
  | some name => exact sound.definable h

/-- The name of a routine says what its arguments stand for, and no other name does. -/
theorem of?_printedName (c : Catalog) (n index : Nat) :
    ArgumentKind.of? (c.printedName .routine n) index =
      (c.name? .routines n).bind fun name => ArgumentKind.of? name index := by
  rw [printedName]
  cases h : c.name? NameClass.routine.table n with
  | some name => rw [show c.name? .routines n = some name from h]; rfl
  | none =>
    rw [show c.name? .routines n = none from h]
    exact ArgumentKind.of?_eq_none (Name.number?_withNumber "routine" n) index

/-- The words that begin the lines before a body. -/
def preambleKeys : List String := ["instances", "kind", "entry", "strings", "variables"]

/-- Every name that a listing shows stands for the ordinal it is shown for, and no attribute has a
name that begins another line before a body. An argument can hold the ordinals of items and maps up
to the largest positive word. -/
structure Clean (c : Catalog) : Prop where
  resolve_printedName : ∀ (k : NameClass) (n : Nat), n ≤ k.most → c.resolve k (c.printedName k n) = .ok n
  bracketText_name : ∀ (t : Table) (n : Nat) (name : String), t = .items ∨ t = .maps → n ≤ 2147483647 →
    c.name? t n = some name → Source.bracketText c name.toList = .ok (Text.decimal n).toList
  attribute_ne_key : ∀ (n : Nat) (name : String), c.name? .attributes n = some name → name ∉ preambleKeys

/-- Every name that a listing shows stands for the ordinal it is shown for, whatever the words before a body are. -/
structure Faithful (c : Catalog) : Prop where
  resolve_printedName : ∀ (k : NameClass) (n : Nat), n ≤ k.most → c.resolve k (c.printedName k n) = .ok n
  bracketText_name : ∀ (t : Table) (n : Nat) (name : String), t = .items ∨ t = .maps → n ≤ 2147483647 →
    c.name? t n = some name → Source.bracketText c name.toList = .ok (Text.decimal n).toList

theorem Clean.faithful (clean : c.Clean) : c.Faithful := ⟨clean.resolve_printedName, clean.bracketText_name⟩

instance : Coe c.Clean c.Faithful := ⟨Clean.faithful⟩

/-- A catalog is clean if each name stands for the ordinal that has it, and is not a stem with a number. -/
theorem clean_of_entries
    (symbols : ∀ k : NameClass, ∀ e ∈ (c.names k.table).entries,
      c.ordinal? k.table e.2 = some e.1 ∧ Name.number? k.stem e.2 = none)
    (brackets : ∀ t : Table, t = .items ∨ t = .maps → ∀ e ∈ (c.names t).entries,
      e.2 ≠ Source.resultMarker ∧ c.bracketed? e.2 = some e.1)
    (keys : ∀ e ∈ (c.names .attributes).entries, e.2 ∉ preambleKeys) : c.Clean where
  resolve_printedName k n small := by
    have meaning : c.meaning? k (c.printedName k n) = some n := by
      rw [printedName, meaning?]
      cases named : c.name? k.table n with
      | some name =>
        rw [name?_eq] at named
        rw [Option.getD_some, (symbols k _ (NameTable.mem_of_name? named)).1]
        rfl
      | none =>
        have number := Name.number?_withNumber k.stem n
        have fresh : c.ordinal? k.table (Name.withNumber k.stem n) = none := by
          cases found : c.ordinal? k.table (Name.withNumber k.stem n) with
          | none => rfl
          | some m =>
            rw [ordinal?_eq] at found
            rw [(symbols k _ (NameTable.mem_of_ordinal? found)).2] at number
            cases number
        have word : n ≤ Text.maxWord64 := by
          refine Nat.le_trans small ?_
          cases k <;> decide
        rw [Option.getD_none, fresh, number, Option.filter_some, if_pos (decide_eq_true word)]
        rfl
    rw [resolve, meaning]
    exact if_pos small
  bracketText_name t n name table _ named := by
    rw [name?_eq] at named
    obtain ⟨marker, known⟩ := brackets t table _ (NameTable.mem_of_name? named)
    rw [Source.bracketText, String.ofList_toList, if_neg marker, known]
  attribute_ne_key n name named := by
    rw [name?_eq] at named
    exact keys _ (NameTable.mem_of_name? named)

/-- The definition files of a small catalog. -/
def villageFiles : Sources where
  routines := "1 = Wait 1\n2 = Message 1\n3 = GiveItem 2\n4 = HasItem 1 function\n5 = Walk 2"
  flags := "3 = GateOpen"
  items := "7 = Potion"
  maps := "2 = Cave"
  references := "1 = Height"
  attributes := "0 = Solid"
  dialogue := some "hi = Hello!"

/-- A small catalog. -/
def village : Catalog where
  routines := [⟨1, "Wait", 1, .task⟩, ⟨2, "Message", 1, .task⟩, ⟨3, "GiveItem", 2, .task⟩,
    ⟨4, "HasItem", 1, .function⟩, ⟨5, "Walk", 2, .task⟩]
  flags := ⟨[(3, "GateOpen")]⟩
  items := ⟨[(7, "Potion")]⟩
  maps := ⟨[(2, "Cave")]⟩
  references := ⟨[(1, "Height")]⟩
  attributes := ⟨[(0, "Solid")]⟩
  dialogue := [("hi", "Hello!")]

theorem village_accepted : (ofSources villageFiles).result = .ok village :=
  eq_ok_of_toOption (by decide +kernel)

theorem village_clean : village.Clean := by
  refine clean_of_entries (fun k => ?_) (fun t table => ?_) (by decide)
  · cases k <;> decide
  · rcases table with rfl | rfl <;> decide

theorem toDigits_inj {m n : Nat} (h : Nat.toDigits 10 m = Nat.toDigits 10 n) : m = n := by
  have same := Text.numeral?_toDigits m
  rw [h, Text.numeral?_toDigits n] at same
  exact (Option.some.inj same).symm

/-- A name in angle brackets is not the marker and stands for the ordinal. -/
theorem Faithful.bracketed? (faithful : c.Faithful) {t : Table} {n : Nat} {name : String}
    (ht : t = .items ∨ t = .maps) (small : n ≤ 2147483647) (h : c.name? t n = some name) :
    name ≠ Source.resultMarker ∧ c.bracketed? name = some n := by
  have text := faithful.bracketText_name t n name ht small h
  rw [Source.bracketText, String.ofList_toList, Text.toList_decimal] at text
  by_cases marker : name = Source.resultMarker
  · rw [if_pos marker] at text
    have mem : '<' ∈ Nat.toDigits 10 n := by
      rw [← Except.ok.inj text]
      exact List.mem_cons_self ..
    exact absurd (Text.isDigit_of_mem_toDigits mem) (by decide)
  · rw [if_neg marker] at text
    refine ⟨marker, ?_⟩
    cases found : c.bracketed? name with
    | none => rw [found] at text; cases text
    | some m =>
      rw [found] at text
      have same := Except.ok.inj text
      rw [Text.toList_decimal] at same
      rw [toDigits_inj same]

/-- No name of an attribute in a listing begins another line before a body. -/
theorem Clean.printedName_ne_key (clean : c.Clean) (n : Nat) :
    c.printedName .attr n ∉ preambleKeys := by
  rw [printedName]
  cases h : c.name? NameClass.attr.table n with
  | some name => exact clean.attribute_ne_key n name h
  | none =>
    intro mem
    have other : ∀ key ∈ preambleKeys, Name.number? "attr" key = none := by decide
    have number := Name.number?_withNumber "attr" n
    exact absurd ((other _ mem).symm.trans number) (by simp)

end Catalog

end EventScript
