import EventScript.Proofs.PrintedNames
import Mathlib.Data.List.Nodup

/-!
# Names and the lines that define them

A table of a catalog says what the lines of its file say. `Sources.lines?` takes the ordinal and the name of each
definition from a file, without keeping a table. In a catalog that is accepted an ordinal has the name of the only
line with that ordinal, and a name stands for the ordinal of the first line with that name, which need not be the
smallest one (`lookups_ofSources`).
-/

namespace EventScript

namespace Definition

/-- The number in front of the equals sign, else the one that comes next. -/
def number? (next : Nat) (d : Definition) : Option Nat :=
  d.ordinal?.elim (some next) (Text.unsigned? Text.maxWord64)

/-- The text of the name. In the file of the routines other words may follow it. -/
def nameText? (t : Table) (d : Definition) : Option (List Char) :=
  if t = .routines then (Text.words d.body).head? else some d.body

/-- The ordinal and the name that a line gives, where `next` is one more than the ordinal of the line before. -/
def entryAt? (t : Table) (next : Nat) (d : Definition) : Option (Nat × String) := do
  let ordinal ← d.number? next
  let name ← d.nameText? t
  return (ordinal, String.ofList name)

/-- The ordinals and the names that lines give one after another. -/
def entriesFrom? (t : Table) : Nat → List Definition → Option (List (Nat × String))
  | _, [] => some []
  | next, d :: ds => do
    let e ← d.entryAt? t next
    let es ← entriesFrom? t (e.1 + 1) ds
    return e :: es

theorem ordinal_eq_ok {t : Table} {line next n : Nat} {d : Definition} (h : d.ordinal t line next = .ok n) :
    d.number? next = some n := by
  rw [ordinal] at h
  rw [number?]
  split at h
  · next implicit =>
    cases h
    rw [implicit, Option.elim_none]
  · next token explicit =>
    rw [explicit, Option.elim_some]
    split at h
    · next number =>
      cases h
      exact number
    · cases h

theorem entryAt?_eq_some {t : Table} {line next n : Nat} {d : Definition} {cs : List Char} {name : String}
    (ordinal : d.ordinal t line next = .ok n) (text : d.nameText? t = some cs)
    (checked : Name.checked t line cs = .ok name) : d.entryAt? t next = some (n, name) := by
  rw [entryAt?, ordinal_eq_ok ordinal, text, (NameTable.checked_eq_ok checked).2]
  rfl

/-- If every step adds the entry of its line at the end, a whole run adds those of all the lines. -/
theorem entries_of_run {σ ε : Type} {t : Table} {f : σ → Nat × Definition → Except ε σ}
    (entries : σ → List (Nat × String)) (next : σ → Nat)
    (step : ∀ s d s', f s d = .ok s' →
      ∃ e, d.2.entryAt? t (next s) = some e ∧ entries s' = entries s ++ [e] ∧ next s' = e.1 + 1)
    {ds : List (Nat × Definition)} {s s' : σ} (run : ds.foldlM f s = .ok s') :
    ∃ es, entriesFrom? t (next s) (ds.map Prod.snd) = some es ∧ entries s' = entries s ++ es := by
  induction ds generalizing s with
  | nil =>
    cases run
    exact ⟨[], rfl, (List.append_nil _).symm⟩
  | cons d ds ih =>
    rw [List.foldlM_cons, bind_eq_ok] at run
    obtain ⟨m, first, rest⟩ := run
    obtain ⟨e, read, added, following⟩ := step s d m first
    obtain ⟨es, others, whole⟩ := ih rest
    rw [following] at others
    refine ⟨e :: es, ?_, ?_⟩
    · rw [List.map_cons, entriesFrom?, read, Option.bind_eq_bind, Option.bind_some, others]
      rfl
    · rw [whole, added, List.append_assoc]
      rfl

end Definition

namespace NameTable

variable {t : NameTable} {n : Nat} {name : String}

theorem entries_read {table : Table} {text : String} (other : table ≠ .routines)
    (h : (read table text).result = .ok t) :
    Definition.entriesFrom? table 0 ((Definition.ofText text).map Prod.snd) = some t.entries := by
  rw [read, Traced.result_bind_eq_ok] at h
  obtain ⟨state, run, h⟩ := h
  cases h
  rw [Traced.result_foldlM] at run
  obtain ⟨es, lines, all⟩ := Definition.entries_of_run (t := table) (fun state => state.1.entries) Prod.snd
    (fun state d state' step => by
      obtain ⟨n, name, ordinal, checked, -, rfl⟩ := add_eq_ok step
      exact ⟨(n, name), Definition.entryAt?_eq_some ordinal (if_neg other) checked, rfl, rfl⟩) run
  rw [all]
  exact lines

/-- An ordinal has a name if one line alone has the ordinal. -/
theorem Sound.name?_eq_some_iff (sound : t.Sound) :
    t.name? n = some name ↔ t.entries.filter (fun e => e.1 = n) = [(n, name)] := by
  constructor
  · intro named
    obtain ⟨front, back, split⟩ := List.append_of_mem (mem_of_name? named)
    have unique := sound.unique
    rw [split, List.map_append, List.map_cons, List.nodup_middle, List.nodup_cons, ← List.map_append] at unique
    have others : ∀ e ∈ front ++ back, ¬decide (e.1 = n) = true := by
      intro e mem same
      have again : e.1 ∈ (front ++ back).map Prod.fst := List.mem_map_of_mem mem
      rw [of_decide_eq_true same] at again
      exact unique.1 again
    rw [split, List.filter_append, List.filter_cons_of_pos (by simp),
      List.filter_eq_nil_iff.mpr fun e mem => others e (List.mem_append_left _ mem),
      List.filter_eq_nil_iff.mpr fun e mem => others e (List.mem_append_right _ mem)]
    rfl
  · intro alone
    have mem : (n, name) ∈ t.entries.filter (fun e => e.1 = n) := by
      rw [alone]
      exact List.mem_singleton_self _
    exact sound.name?_of_mem (List.mem_filter.mp mem).1

/-- A name stands for the ordinal of the first line that has it. -/
theorem ordinal?_eq_some_iff : t.ordinal? name = some n ↔
    ∃ front back, t.entries = front ++ (n, name) :: back ∧ ∀ e ∈ front, e.2 ≠ name := by
  rw [ordinal?, Option.map_eq_some_iff]
  constructor
  · rintro ⟨e, found, rfl⟩
    obtain ⟨same, front, back, split, before⟩ := List.find?_eq_some_iff_append.mp found
    obtain rfl := eq_of_beq same
    exact ⟨front, back, split, fun e mem => by simpa using before e mem⟩
  · rintro ⟨front, back, split, before⟩
    refine ⟨(n, name), List.find?_eq_some_iff_append.mpr ⟨beq_self_eq_true name, front, back, split, ?_⟩, rfl⟩
    intro e mem
    simpa using before e mem

end NameTable

theorem Routine.entries_read {text : String} {rs : List Routine} (h : read text = .ok rs) :
    Definition.entriesFrom? .routines 0 ((Definition.ofText text).map Prod.snd) = some (table rs).entries := by
  rw [read, bind_eq_ok] at h
  obtain ⟨state, run, h⟩ := h
  cases h
  obtain ⟨es, lines, all⟩ := Definition.entries_of_run (t := .routines) (fun state => (table state.1).entries) Prod.snd
    (fun state d state' step => by
      obtain ⟨n, first, name, parameters, kind, ordinal, text, checked, -, rfl⟩ := add_eq_ok step
      refine ⟨(n, name), Definition.entryAt?_eq_some ordinal text checked, ?_, rfl⟩
      rw [table_concat]) run
  rw [all]
  exact lines

namespace Catalog

variable {s : Sources} {c : Catalog}

/-- The ordinals and the names that the definitions of a file give, in file order. -/
def Sources.lines? (s : Sources) (t : Table) : Option (List (Nat × String)) :=
  Definition.entriesFrom? t 0 ((Definition.ofText (s.text t)).map Prod.snd)

/-- A table holds what its lines say, in file order. -/
theorem lines?_ofSources (accepted : (ofSources s).result = .ok c) (t : Table) :
    s.lines? t = some (c.names t).entries := by
  obtain ⟨routines, others, -⟩ := ofSources_eq_ok accepted
  by_cases table : t = .routines
  · rw [table]
    exact Routine.entries_read routines
  · exact NameTable.entries_read table (others t table)

/-- A name of a map is no name of an item. -/
theorem name?_items_of_maps (accepted : (ofSources s).result = .ok c) {m n : Nat} {name : String}
    (isMap : c.name? .maps m = some name) : c.name? .items n ≠ some name := by
  intro isItem
  obtain ⟨m', map⟩ := exists_ordinal?_of_name? isMap
  obtain ⟨n', item⟩ := exists_ordinal?_of_name? isItem
  rw [ordinal?_items_of_maps accepted map] at item
  cases item

/-- What can be looked up in a catalog is what the lines of its files say. -/
theorem lookups_ofSources (accepted : (ofSources s).result = .ok c) :
    (∀ t, ∃ lines, s.lines? t = some lines ∧
      (∀ n name, c.name? t n = some name ↔ lines.filter (fun e => e.1 = n) = [(n, name)]) ∧
      (∀ name n, c.ordinal? t name = some n ↔
        ∃ front back, lines = front ++ (n, name) :: back ∧ ∀ e ∈ front, e.2 ≠ name) ∧
      (∀ name n, c.ordinal? t name = some n → c.name? t n = some name) ∧
      ∀ e ∈ lines, Name.isIdentifier e.2.toList = true ∧ e.2 ∉ Name.reserved ∧ (∀ b : Builtin, e.2 ≠ b.name) ∧
        Name.slot? e.2 = none) ∧
    ∀ m n name, c.name? .maps m = some name → c.name? .items n ≠ some name := by
  have sound := sound_ofSources accepted
  refine ⟨fun t => ⟨(c.names t).entries, lines?_ofSources accepted t, ?_, ?_, ?_, ?_⟩, ?_⟩
  · intro n name
    rw [name?_eq]
    exact (sound t).name?_eq_some_iff
  · intro name n
    rw [ordinal?_eq]
    exact NameTable.ordinal?_eq_some_iff
  · exact fun name n => sound.name?_of_ordinal?
  · intro e mem
    have definable := (sound t).definable e mem
    refine ⟨Code.isIdentifier_of_isDefinable definable, fun word => ?_, fun b object => ?_,
      Code.slot?_of_isDefinable definable⟩
    · exact Code.ne_reserved_of_isDefinable definable word rfl
    · have other := Code.ofName?_of_isDefinable definable
      rw [object, Builtin.ofName?_name] at other
      cases other
  · exact fun m n name => name?_items_of_maps accepted

/-- Definition files with ordinals in any order and names that come again. -/
def harbourFiles : Sources where
  routines := "Wait 1\n7 = Message 1 Task\nWait 2 function"
  flags := "5 = GateOpen\nBridgeUp\n\n# as before\n+2 = GateOpen\nTideLow"
  items := "3 = Rope"
  maps := "Pier"
  references := ""
  attributes := ""
  dialogue := none

/-- The catalog of the files. -/
def harbour : Catalog where
  routines := [⟨0, "Wait", 1, .task⟩, ⟨7, "Message", 1, .task⟩, ⟨8, "Wait", 2, .function⟩]
  flags := ⟨[(5, "GateOpen"), (6, "BridgeUp"), (2, "GateOpen"), (3, "TideLow")]⟩
  items := ⟨[(3, "Rope")]⟩
  maps := ⟨[(0, "Pier")]⟩
  references := ⟨[]⟩
  attributes := ⟨[]⟩
  dialogue := []

/-- A flag that is defined twice stands for the ordinal of its first line, though the other one is smaller, and has
its name under both; there is no flag between. The routine that comes again keeps its place under the last ordinal. -/
theorem lookups_ofSources_harbour : (ofSources harbourFiles).result = .ok harbour ∧
    harbourFiles.lines? .flags = some [(5, "GateOpen"), (6, "BridgeUp"), (2, "GateOpen"), (3, "TideLow")] ∧
    harbour.ordinal? .flags "GateOpen" = some 5 ∧ harbour.name? .flags 5 = some "GateOpen" ∧
    harbour.name? .flags 2 = some "GateOpen" ∧ (∀ name, harbour.name? .flags 4 ≠ some name) ∧
    harbour.ordinal? .routines "Wait" = some 0 ∧ harbour.name? .routines 8 = some "Wait" ∧
    harbour.name? .items 3 ≠ some "Pier" := by
  have accepted : (ofSources harbourFiles).result = .ok harbour := eq_ok_of_toOption (by decide +kernel)
  have flags : harbourFiles.lines? .flags =
      some [(5, "GateOpen"), (6, "BridgeUp"), (2, "GateOpen"), (3, "TideLow")] := by decide +kernel
  have routines : harbourFiles.lines? .routines = some [(0, "Wait"), (7, "Message"), (8, "Wait")] := by
    decide +kernel
  obtain ⟨tables, apart⟩ := lookups_ofSources accepted
  obtain ⟨lines, read, names, ordinals, back, -⟩ := tables .flags
  cases flags.symm.trans read
  obtain ⟨lines, read, names', ordinals', -⟩ := tables .routines
  cases routines.symm.trans read
  have first : harbour.ordinal? .flags "GateOpen" = some 5 := (ordinals _ _).mpr ⟨[], _, rfl, by simp⟩
  have routine : harbour.ordinal? .routines "Wait" = some 0 := (ordinals' _ _).mpr ⟨[], _, rfl, by simp⟩
  refine ⟨accepted, flags, first, back _ _ first, (names _ _).mpr rfl, fun name taken => ?_, routine,
    (names' _ _).mpr rfl, ?_⟩
  · cases (names _ _).mp taken
  · exact apart 0 3 "Pier" rfl

end Catalog

end EventScript
