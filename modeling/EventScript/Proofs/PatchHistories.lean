import EventScript.Proofs.PatchTargets
import Mathlib.Data.List.Basic

/-!
# Patch sets and how they came about

A patch set is made by reading patch files, by changes and by adding other patch sets. Along such a history the set
receives entries one after another, and they say all about it: at a position of a map it does what the entries for
that position say (`editAt_set`), so that histories with the same entries lead to the same set (`set_congr`). Merging
is putting the histories in a row (`received_merge`). So what merged patch sets make of a text can be read off what
each of them received (`apply_merge`), and how the merging is grouped does not matter (`merge_grouped`).
-/

namespace EventScript

/-- An entry with the key and the position that it is kept by. -/
structure Filed where
  key : String
  position : Nat
  entry : Entry
  deriving DecidableEq, Repr

/-- How a change in a patch file is kept. -/
def Change.filed (w : Change) : Filed := ⟨w.key, w.position, w.entry⟩

/-- The entries for a position of the map with a key, in their order. -/
def entriesFor (key : String) (n : Nat) (fs : List Filed) : List Entry :=
  (fs.filter fun f => f.key = key ∧ f.position = n).map Filed.entry

section

variable {key : String} {n : Nat}

theorem entriesFor_append (fs gs : List Filed) :
    entriesFor key n (fs ++ gs) = entriesFor key n fs ++ entriesFor key n gs := by
  rw [entriesFor, List.filter_append, List.map_append, entriesFor, entriesFor]

theorem entriesFor_singleton (f : Filed) :
    entriesFor key n [f] = if key = f.key ∧ n = f.position then [f.entry] else [] := by
  by_cases here : key = f.key ∧ n = f.position
  · simp [entriesFor, here]
  · have other : ¬ (f.key = key ∧ f.position = n) := fun both => here ⟨both.1.symm, both.2.symm⟩
    rw [if_neg here, entriesFor, List.filter_cons_of_neg (by simpa using other)]
    rfl

theorem entriesFor_flatMap {α : Type} (xs : List α) (g : α → List Filed) :
    entriesFor key n (xs.flatMap g) = xs.flatMap fun x => entriesFor key n (g x) := by
  rw [entriesFor, List.filter_flatMap, List.map_flatMap]
  rfl

theorem entriesFor_filed (ws : List Change) :
    entriesFor key n (ws.map Change.filed) = entriesAt n (changesFor key ws) := by
  rw [entriesFor, entriesAt, changesFor, List.filter_map, List.map_map, List.filter_filter]
  simp only [Function.comp_def, Change.filed, Bool.decide_and, Bool.and_comm]
  rfl

theorem mem_entriesFor {fs : List Filed} {e : Entry} : e ∈ entriesFor key n fs ↔ ⟨key, n, e⟩ ∈ fs := by
  simp only [entriesFor, List.mem_map, List.mem_filter, decide_eq_true_eq]
  constructor
  · rintro ⟨f, ⟨mem, rfl, rfl⟩, rfl⟩
    exact mem
  · exact fun mem => ⟨_, ⟨mem, rfl, rfl⟩, rfl⟩

end

/-- How a patch set came about. -/
inductive History where
  | empty
  | read (source text : String)
  | push (h : History) (map : String) (position : Nat) (entry : Entry)
  | append (h other : History)

namespace History

/-- The patch set that came about. -/
def set : History → PatchSet
  | empty => .empty
  | read source text => (Patch.read source text).1
  | push h map position entry => h.set.push map position entry
  | append h other => h.set.append other.set

/-- The entries that were received, one after another. -/
def received : History → List Filed
  | empty => []
  | read _ text => (Patch.written text).map Change.filed
  | push h map position entry => h.received ++ [⟨mapKey map, position, entry⟩]
  | append h other => h.received ++ other.received

/-- The texts that were received for a position of the map with a key. -/
def inserted (h : History) (key : String) (n : Nat) : List String :=
  (entriesFor key n h.received).filterMap Entry.text?

/-- The history of a merged patch set. -/
def merge (hs : List History) : History := hs.foldl append empty

variable {h h' : History} {hs : List History} {key : String} {n : Nat}

theorem tidy_set : ∀ h : History, h.set.Tidy
  | empty => PatchSet.tidy_empty
  | read source text => by
    rw [set, Patch.fst_read]
    exact PatchSet.tidy_ofChanges _
  | push h map position entry => h.tidy_set.push map position entry
  | append h other => h.tidy_set.append other.tidy_set

/-- At each position a patch set does what the entries that it received for it say. -/
theorem editAt_set : ∀ h : History, h.set.editAt key n = Edit.ofEntries (entriesFor key n h.received)
  | empty => rfl
  | read source text => by
    rw [set, Patch.fst_read, PatchSet.editAt_ofChanges, received, entriesFor_filed]
  | push h map position entry => by
    rw [set, PatchSet.push, PatchSet.editAt_addEdit h.tidy_set, h.editAt_set, received, entriesFor_append,
      entriesFor_singleton, Edit.add_empty]
    split
    · rw [Edit.append_ofEntries]
    · rw [List.append_nil]
  | append h other => by
    rw [set, PatchSet.editAt_append h.tidy_set other.tidy_set, h.editAt_set, other.editAt_set, Edit.append_ofEntries,
      received, entriesFor_append]

theorem set_ext (equal : ∀ key n, h.set.editAt key n = h'.set.editAt key n) : h.set = h'.set :=
  h.tidy_set.ext h'.tidy_set equal

/-- The same entries make the same patch set. -/
theorem set_congr (same : h.received = h'.received) : h.set = h'.set :=
  set_ext fun key n => by rw [editAt_set, editAt_set, same]

theorem set_merge (hs : List History) : (merge hs).set = PatchSet.merge (hs.map set) := by
  rw [merge, PatchSet.merge, List.foldl_map]
  exact (List.foldl_hom set fun _ _ => rfl).symm

theorem received_merge (hs : List History) : (merge hs).received = hs.flatMap received := by
  have run : ∀ h : History, (hs.foldl append h).received = h.received ++ hs.flatMap received := by
    induction hs with
    | nil => exact fun h => (List.append_nil _).symm
    | cons other hs ih =>
      intro h
      rw [List.foldl_cons, ih, received, List.flatMap_cons, List.append_assoc]
  exact run empty

theorem editAt_merge (hs : List History) : (PatchSet.merge (hs.map set)).editAt key n =
    Edit.ofEntries (hs.flatMap fun h => entriesFor key n h.received) := by
  rw [← set_merge, editAt_set, received_merge, entriesFor_flatMap]

/-! ### Texts -/

/-- The entries received for lines that a map has. -/
def reaching (map : String) (lines : List String) (h : History) : List Filed :=
  h.received.filter fun f => f.key = mapKey map ∧ 1 ≤ f.position ∧ f.position ≤ lines.length

theorem entriesFor_reaching {map : String} {lines : List String} (low : 1 ≤ n) (high : n ≤ lines.length)
    (h : History) : entriesFor (mapKey map) n (h.reaching map lines) = entriesFor (mapKey map) n h.received := by
  rw [entriesFor, reaching, List.filter_filter, entriesFor]
  refine congrArg (List.map Filed.entry) (List.filter_congr fun f _ => ?_)
  rw [← Bool.decide_and, decide_eq_decide]
  constructor
  · exact fun both => both.1
  · rintro ⟨here, rfl⟩
    exact ⟨⟨here, rfl⟩, here, low, high⟩

/-- What the entries of all sets make of a line: it goes if one of them takes it out, and their texts follow set by
set. -/
theorem apply_ofEntries (hs : List History) (key line : String) (n : Nat) :
    (Edit.ofEntries (hs.flatMap fun h => entriesFor key n h.received)).apply line =
      (if ∃ h ∈ hs, (h.set.editAt key n).deleted = true then [] else [line]) ++
        hs.flatMap fun h => h.inserted key n := by
  have deleted : (∃ h ∈ hs, (h.set.editAt key n).deleted = true) ↔
      Entry.delete ∈ hs.flatMap fun h => entriesFor key n h.received := by
    simp only [editAt_set, Edit.ofEntries, decide_eq_true_eq, List.mem_flatMap]
  simp only [Edit.apply, Edit.ofEntries, decide_eq_true_eq, deleted, List.filterMap_flatMap, inserted]

/-- Merged patch sets make of a text what each of them says. A line stays unless one of the sets takes it out, which
is so if the set ever received that; after it come the texts that the first set received for its position, then those
of the second, and so on. What a set received for other maps, for the position zero or for one behind the last line
changes nothing. -/
theorem apply_merge {ε : Type} (hs : List History) (map : String) (lines : List String) :
    ((PatchSet.merge (hs.map set)).apply map lines : Traced Notice ε _).result =
      .ok ((lines.zipIdx 1).flatMap fun l =>
        (if ∃ h ∈ hs, (h.set.editAt (mapKey map) l.2).deleted = true then [] else [l.1]) ++
          hs.flatMap fun h => h.inserted (mapKey map) l.2) ∧
    (∀ h ∈ hs, ∀ n, (h.set.editAt (mapKey map) n).deleted = true ↔ ⟨mapKey map, n, .delete⟩ ∈ h.received) ∧
    ∀ hs' : List History, hs'.map (reaching map lines) = hs.map (reaching map lines) →
      ((PatchSet.merge (hs'.map set)).apply map lines : Traced Notice ε _).result =
        ((PatchSet.merge (hs.map set)).apply map lines : Traced Notice ε _).result := by
  refine ⟨?_, fun h _ n => ?_, fun hs' same => ?_⟩
  · rw [PatchSet.result_apply]
    simp only [editAt_merge, apply_ofEntries]
  · rw [editAt_set, Edit.ofEntries, decide_eq_true_iff, mem_entriesFor]
  · have entries : ∀ n, 1 ≤ n → n ≤ lines.length → (hs'.flatMap fun h => entriesFor (mapKey map) n h.received) =
        hs.flatMap fun h => entriesFor (mapKey map) n h.received := by
      intro n low high
      have both := congrArg (List.flatMap (entriesFor (mapKey map) n)) same
      rwa [List.flatMap_map, List.flatMap_map, funext (entriesFor_reaching low high)] at both
    rw [PatchSet.result_apply, PatchSet.result_apply]
    refine congrArg Except.ok (List.flatMap_congr fun l mem => ?_)
    obtain ⟨low, high, -⟩ := List.mem_zipIdx mem
    rw [editAt_merge, editAt_merge, entries l.2 low (by omega)]

/-- A patch file that takes a line of a map out and puts another in its place. -/
def replacement : History := .read "mod.patch" "island\n  2\tnull\n  2\tgoto #1\n"

/-- Two changes for the same map, behind that of another map. -/
def additions : History :=
  .append (.push .empty "cave" 1 .delete) (.push (.push .empty "maps/Island.map" 2 (.insert "return")) "island" 3 .delete)

/-- Both take a line out, and the text of the file comes first. Changes for the positions zero and four do nothing to
three lines. -/
theorem apply_merge_island :
    ((PatchSet.merge [replacement.set, additions.set]).apply "ISLAND" ["unit", "kind = 4", "end"] :
      Traced Notice Fault _).result = .ok ["unit", "goto #1", "return"] ∧
    ((PatchSet.merge [(replacement.push "island" 4 (.insert "kind = 5")).set, (additions.push "island" 0 .delete).set]).apply
      "ISLAND" ["unit", "kind = 4", "end"] : Traced Notice Fault _).result = .ok ["unit", "goto #1", "return"] := by
  obtain ⟨merged, -, other⟩ := apply_merge (ε := Fault) [replacement, additions] "ISLAND" ["unit", "kind = 4", "end"]
  have lines : ((PatchSet.merge [replacement.set, additions.set]).apply "ISLAND" ["unit", "kind = 4", "end"] :
      Traced Notice Fault _).result = .ok ["unit", "goto #1", "return"] := by
    refine merged.trans (congrArg Except.ok ?_)
    decide +kernel
  refine ⟨lines, (other [replacement.push "island" 4 (.insert "kind = 5"), additions.push "island" 0 .delete] ?_).trans lines⟩
  decide +kernel

/-! ### Groups -/

theorem editAt_merge_pair (a b : History) :
    (merge [a, b]).set.editAt key n = (a.set.editAt key n).append (b.set.editAt key n) := by
  rw [editAt_set, received_merge, editAt_set, editAt_set, Edit.append_ofEntries, ← entriesFor_append]
  simp

/-- How merging is grouped does not matter, an empty patch set adds nothing, and two patch sets can change places if
they put lines in at different positions. -/
theorem merge_grouped (hss : List (List History)) (a b c : History) :
    PatchSet.merge (hss.map fun hs => PatchSet.merge (hs.map set)) = PatchSet.merge (hss.flatten.map set) ∧
    PatchSet.merge [PatchSet.merge [a.set, b.set], c.set] = PatchSet.merge [a.set, b.set, c.set] ∧
    PatchSet.merge [a.set, PatchSet.merge [b.set, c.set]] = PatchSet.merge [a.set, b.set, c.set] ∧
    PatchSet.merge [a.set, .empty] = a.set ∧ PatchSet.merge [.empty, a.set] = a.set ∧
    ((∀ key n, (a.set.editAt key n).inserted = [] ∨ (b.set.editAt key n).inserted = []) →
      PatchSet.merge [a.set, b.set] = PatchSet.merge [b.set, a.set]) := by
  have pair : ∀ a b : History, PatchSet.merge [a.set, b.set] = (merge [a, b]).set := fun a b => (set_merge [a, b]).symm
  have three : PatchSet.merge [a.set, b.set, c.set] = (merge [a, b, c]).set := (set_merge [a, b, c]).symm
  refine ⟨?_, ?_, ?_, ?_, ?_, fun once => ?_⟩
  · have inner : (hss.map fun hs => PatchSet.merge (hs.map set)) = (hss.map merge).map set := by
      rw [List.map_map]
      exact List.map_congr_left fun hs _ => (set_merge hs).symm
    rw [inner, ← set_merge, ← set_merge]
    refine set_congr ?_
    rw [received_merge, received_merge, List.flatMap_map, ← List.flatMap_id, List.flatMap_assoc]
    exact List.flatMap_congr fun hs _ => received_merge hs
  · rw [pair, pair, three]
    exact set_congr (by simp [received_merge])
  · rw [pair, pair, three]
    exact set_congr (by simp [received_merge])
  · exact (pair a .empty).trans (set_congr (by simp [received_merge, received]))
  · exact (pair .empty a).trans (set_congr (by simp [received_merge, received]))
  · rw [pair, pair]
    refine set_ext fun key n => ?_
    rw [editAt_merge_pair, editAt_merge_pair, Edit.append_comm (once key n)]

/-- Changes that take out the line which the patch file replaces, and put one in elsewhere. -/
def removals : History := .push (.push .empty "ISLAND" 2 .delete) "cave" 2 (.insert "return")

/-- Both sets take the same line out, but only one puts a line in there. -/
theorem merge_grouped_island :
    PatchSet.merge [PatchSet.merge [replacement.set, removals.set], PatchSet.merge [additions.set]] =
      PatchSet.merge [replacement.set, removals.set, additions.set] ∧
    (replacement.set.editAt "island" 2).deleted = true ∧ (removals.set.editAt "island" 2).deleted = true ∧
    PatchSet.merge [replacement.set, removals.set] = PatchSet.merge [removals.set, replacement.set] := by
  obtain ⟨nested, -, -, -, -, swap⟩ := merge_grouped [[replacement, removals], [additions]] replacement removals additions
  refine ⟨nested, by decide +kernel, by decide +kernel, swap fun key n => ?_⟩
  have file : replacement.received = [⟨"island", 2, .delete⟩, ⟨"island", 2, .insert "goto #1"⟩] := by decide +kernel
  have pushed : removals.received = [⟨"island", 2, .delete⟩, ⟨"cave", 2, .insert "return"⟩] := by decide +kernel
  rw [editAt_set, editAt_set, file, pushed]
  by_cases island : key = "island"
  · subst island
    exact .inr (by by_cases two : 2 = n <;> simp [Edit.ofEntries, entriesFor, Entry.text?, two])
  · exact .inl (by simp [Edit.ofEntries, entriesFor, Ne.symm island])

end History

end EventScript
