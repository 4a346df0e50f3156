import EventScript.Proofs.PatchHistories

/-!
# Patch sets as lists of entries

A patch set can also be kept as a table of lists of entries. One more entry is put into a list so that a text goes to
its end and a deletion goes to its front, unless one stands there (`putEntry`); two such tables are put together by
putting in the entries of the second one by one. Whatever the history of a patch set, the lists that it shows are
those of this table (`lists_set`). So a list is never empty, a deletion stands at its front only, and what a list holds
is what was received for its key and position (`lists_history`).
-/

namespace EventScript

open Ordered

/-- Puts an entry into a list: a text goes to the end, and a deletion goes to the front unless it is there. -/
def putEntry (es : List Entry) : Entry → List Entry
  | .delete => if es.head? = some .delete then es else .delete :: es
  | .insert text => es ++ [.insert text]

namespace Edit

theorem entries_append_delete (e : Edit) : (e.append (add {} .delete)).entries = putEntry e.entries .delete := by
  obtain ⟨deleted, inserted⟩ := e
  cases deleted with
  | true => simp [append, add, entries, putEntry]
  | false => simp [append, add, entries, putEntry]

theorem entries_append_insert (e : Edit) (text : String) :
    (e.append (add {} (.insert text))).entries = putEntry e.entries (.insert text) := by
  simp [append, add, entries, putEntry]

/-- Adding one entry to an edit puts it into its list. -/
theorem entries_append_add (e : Edit) (x : Entry) : (e.append (add {} x)).entries = putEntry e.entries x := by
  cases x with
  | delete => exact e.entries_append_delete
  | insert text => exact e.entries_append_insert text

theorem append_assoc (a b c : Edit) : (a.append b).append c = a.append (b.append c) := by
  simp [append, Bool.or_assoc]

/-- An edit is made of its entries, one after another. -/
theorem foldl_entries (e : Edit) (a : Edit) : e.entries.foldl (fun a x => a.append (add {} x)) a = a.append e := by
  have texts : ∀ (ts : List String) (a : Edit),
      (ts.map Entry.insert).foldl (fun a x => a.append (add {} x)) a = a.append ⟨false, ts⟩ := by
    intro ts
    induction ts with
    | nil => exact fun a => (append_empty a).symm
    | cons t ts ih =>
      intro a
      rw [List.map_cons, List.foldl_cons, ih, append_assoc]
      rfl
  obtain ⟨deleted, inserted⟩ := e
  rw [entries, List.foldl_append, texts]
  cases deleted with
  | true => exact append_assoc a _ _
  | false => rfl

/-- Adding an edit to another puts the entries of the one into the list of the other. -/
theorem entries_append (a b : Edit) : (a.append b).entries = b.entries.foldl putEntry a.entries := by
  rw [← foldl_entries b a]
  exact (List.foldl_hom entries fun a x => (entries_append_add a x).symm).symm

end Edit

namespace Ordered

variable {κ β γ : Type} [Ord κ]

/-- An update of a table is one of the table with its values seen differently. -/
theorem map_update (v : β → γ) {f : Option β → β} {g : Option γ → γ} (same : ∀ b, v (f b) = g (b.map v)) (key : κ)
    (t : List (κ × β)) : (update key f t).map (fun e => (e.1, v e.2)) = update key g (t.map fun e => (e.1, v e.2)) := by
  induction t with
  | nil => simp [update, same]
  | cons e t ih =>
    cases order : compare key e.1 with
    | lt => simp [update, order, same]
    | eq => simp [update, order, same]
    | gt => simp [update, order, ih]

/-- A key with a value other than `z` is there. -/
theorem exists_mem_of_value [Std.LawfulEqOrd κ] {z : β} {key : κ} {t : List (κ × β)} (kept : value z key t ≠ z) :
    ∃ e ∈ t, e.1 = key ∧ e.2 = value z key t := by
  rw [value] at kept ⊢
  cases found : find? key t with
  | none =>
    rw [found] at kept
    exact absurd rfl kept
  | some b =>
    obtain ⟨e, mem, same, rfl⟩ := mem_of_find? found
    exact ⟨e, mem, (Std.LawfulEqCmp.eq_of_compare same).symm, rfl⟩

theorem ascending_map (v : β → γ) {t : List (κ × β)} (ascending : Ascending t) :
    Ascending (t.map fun e => (e.1, v e.2)) :=
  List.pairwise_map.mpr ascending

/-- What stands by a key is its value. -/
theorem value_of_mem [Std.LawfulEqOrd κ] [DecidableEq κ] {z : β} {t : List (κ × β)} {e : κ × β}
    (ascending : Ascending t) (mem : e ∈ t) : value z e.1 t = e.2 := by
  induction t with
  | nil => cases mem
  | cons a t ih =>
    obtain ⟨above, others⟩ := List.pairwise_cons.mp ascending
    obtain rfl | mem := List.mem_cons.mp mem
    · exact value_cons_self e t
    · have differs : e.1 ≠ a.1 := by
        intro same
        have less := above e mem
        rw [same, Std.compare_self] at less
        cases less
      rw [value_cons_of_ne differs, ih others mem]

end Ordered

/-! ### The lists -/

/-- Lists of entries by position, for each map. -/
abbrev EntryLists := List (String × List (Nat × List Entry))

namespace EntryLists

/-- Puts an entry into the list for a position of the map with a key. -/
def push (t : EntryLists) (key : String) (n : Nat) (e : Entry) : EntryLists :=
  update key (fun ps => update n (fun es => putEntry (es.getD []) e) (ps.getD [])) t

/-- Puts the entries of lists by position into others. -/
def putAll (t s : List (Nat × List Entry)) : List (Nat × List Entry) :=
  s.foldl (fun t p => update p.1 (fun es => p.2.foldl putEntry (es.getD [])) t) t

/-- Puts the entries of all lists into others, map by map. -/
def append (t s : EntryLists) : EntryLists :=
  s.foldl (fun t m => update m.1 (fun ps => putAll (ps.getD []) m.2) t) t

end EntryLists

/-- Edits by position as lists of entries. -/
def Edits.lists (t : Edits) : List (Nat × List Entry) := t.map fun p => (p.1, p.2.entries)

theorem Edits.lists_addAll (t s : Edits) : (addAll t s).lists = EntryLists.putAll t.lists s.lists := by
  rw [addAll, EntryLists.putAll, lists, lists, lists, List.foldl_map]
  refine (List.foldl_hom (List.map fun p : Nat × Edit => (p.1, p.2.entries)) fun t p => ?_).symm
  refine (map_update Edit.entries (fun b => ?_) p.1 t).symm
  rw [Edit.entries_append]
  cases b <;> rfl

namespace PatchSet

variable {a b s : PatchSet}

/-- The lists that a patch set shows. -/
def lists (s : PatchSet) : EntryLists := s.maps.map fun m => (m.1, m.2.lists)

theorem lists_push (s : PatchSet) (map : String) (n : Nat) (e : Entry) :
    (s.push map n e).lists = s.lists.push (mapKey map) n e := by
  refine map_update Edits.lists (fun t => ?_) (mapKey map) s.maps
  have inner := map_update Edit.entries (f := fun b => (b.getD {}).append (Edit.add {} e))
    (g := fun es => putEntry (es.getD []) e) (fun b => by rw [Edit.entries_append_add]; cases b <;> rfl) n (t.getD [])
  refine inner.trans ?_
  cases t <;> rfl

theorem lists_append (tidy : b.Tidy) (a : PatchSet) : (a.append b).lists = a.lists.append b.lists := by
  rw [lists, append_maps tidy.maps.kept, EntryLists.append, lists, lists, List.foldl_map]
  refine (List.foldl_hom (List.map fun m : String × Edits => (m.1, m.2.lists)) fun t m => ?_).symm
  refine (map_update Edits.lists (fun edits => ?_) m.1 t).symm
  rw [Edits.lists_addAll]
  cases edits <;> rfl

/-- A list shows what happens at its position. -/
theorem Tidy.exists_of_mem_lists (tidy : s.Tidy) {m : String × List (Nat × List Entry)} (mem : m ∈ s.lists) :
    m.2 ≠ [] ∧ Ascending m.2 ∧
      ∀ p ∈ m.2, p.2 = (s.editAt m.1 p.1).entries ∧ s.editAt m.1 p.1 ≠ {} := by
  obtain ⟨m, kept, rfl⟩ := List.mem_map.mp mem
  have table : value [] m.1 s.maps = m.2 := value_of_mem tidy.maps.ascending kept
  have edits := tidy.edits m.1
  rw [table] at edits
  refine ⟨fun none => tidy.maps.kept m kept (List.map_eq_nil_iff.mp none), ascending_map _ edits.ascending, ?_⟩
  intro p mem
  obtain ⟨p, there, rfl⟩ := List.mem_map.mp mem
  have here : s.editAt m.1 p.1 = p.2 := by
    rw [editAt, table]
    exact value_of_mem edits.ascending there
  rw [here]
  exact ⟨rfl, edits.kept p there⟩

/-- Where something happens there is a list. -/
theorem exists_mem_lists {key : String} {n : Nat} (kept : s.editAt key n ≠ {}) :
    ∃ m ∈ s.lists, m.1 = key ∧ ∃ p ∈ m.2, p.1 = n := by
  have table : value [] key s.maps ≠ [] := by
    intro none
    rw [editAt, none] at kept
    exact kept rfl
  obtain ⟨m, mem, rfl, same⟩ := exists_mem_of_value table
  rw [editAt, ← same] at kept
  obtain ⟨p, mem', here, -⟩ := exists_mem_of_value kept
  exact ⟨_, List.mem_map_of_mem mem, rfl, _, List.mem_map_of_mem mem', here⟩

end PatchSet

namespace Edit

theorem entries_ne_nil {e : Edit} (kept : e ≠ {}) : e.entries ≠ [] := by
  rintro none
  obtain ⟨deleted, inserted⟩ := e
  cases deleted <;> simp_all [entries]

theorem filterMap_entries (e : Edit) : e.entries.filterMap Entry.text? = e.inserted := by
  have texts : (e.inserted.map Entry.insert).filterMap Entry.text? = e.inserted := by
    rw [List.filterMap_map]
    exact List.filterMap_some
  rw [entries, List.filterMap_append, texts]
  cases e.deleted <;> rfl

theorem delete_mem_entries {e : Edit} : .delete ∈ e.entries ↔ e.deleted = true := by
  cases h : e.deleted <;> simp [entries, h]

theorem delete_not_mem_tail (e : Edit) : .delete ∉ e.entries.tail := by
  obtain ⟨deleted, inserted⟩ := e
  cases deleted <;> simp [entries, ← List.map_tail]

end Edit

namespace History

/-- The lists of entries that came about. -/
def lists : History → EntryLists
  | empty => []
  | read _ text => ((Patch.written text).map Change.filed).foldl (fun t f => t.push f.key f.position f.entry) []
  | push h map n e => h.lists.push (mapKey map) n e
  | append h other => h.lists.append other.lists

/-- A patch set shows the lists into which its entries were put. -/
theorem lists_set : ∀ h : History, h.set.lists = h.lists
  | empty => rfl
  | read source text => by
    rw [set, Patch.fst_read, PatchSet.ofChanges, lists, List.foldl_map]
    exact (List.foldl_hom PatchSet.lists fun s w => (s.lists_push (mapKey w.heading) w.position w.entry).symm).symm
  | push h map n e => by rw [set, PatchSet.lists_push, h.lists_set, lists]
  | append h other => by rw [set, PatchSet.lists_append other.tidy_set, h.lists_set, other.lists_set, lists]

/-- Whatever the history of a patch set is, the lists that it shows are those into which its entries were put. Keys and
positions ascend, no map is without a list, and no list is empty. A deletion stands at the front of a list only, and it
is there if one was ever received for the key and the position; the texts of a list are those that were received for
them, in that order. Nothing that was received is missing. Merging is one more way for a history to go on. -/
theorem lists_history (h : History) :
    h.set.lists = h.lists ∧ Ascending h.set.lists ∧
    (∀ m ∈ h.set.lists, m.2 ≠ [] ∧ Ascending m.2 ∧ ∀ p ∈ m.2,
      p.2 ≠ [] ∧ .delete ∉ p.2.tail ∧ (.delete ∈ p.2 ↔ ⟨m.1, p.1, .delete⟩ ∈ h.received) ∧
      p.2.filterMap Entry.text? = (entriesFor m.1 p.1 h.received).filterMap Entry.text?) ∧
    (∀ f ∈ h.received, ∃ m ∈ h.set.lists, m.1 = f.key ∧ ∃ p ∈ m.2, p.1 = f.position) ∧
    ∀ hs : List History, PatchSet.merge (hs.map set) = (merge hs).set ∧
      (merge hs).received = hs.flatMap received := by
  refine ⟨h.lists_set, ascending_map _ h.tidy_set.maps.ascending, fun m mem => ?_, fun f mem => ?_,
    fun hs => ⟨(set_merge hs).symm, received_merge hs⟩⟩
  · obtain ⟨filled, ascending, lists⟩ := h.tidy_set.exists_of_mem_lists mem
    refine ⟨filled, ascending, fun p mem => ?_⟩
    obtain ⟨shown, kept⟩ := lists p mem
    rw [shown]
    refine ⟨Edit.entries_ne_nil kept, Edit.delete_not_mem_tail _, ?_, ?_⟩
    · rw [Edit.delete_mem_entries, editAt_set, Edit.ofEntries, decide_eq_true_iff, mem_entriesFor]
    · rw [Edit.filterMap_entries, editAt_set, Edit.ofEntries]
  · refine PatchSet.exists_mem_lists ?_
    rw [editAt_set]
    have here : f.entry ∈ entriesFor f.key f.position h.received := mem_entriesFor.mpr mem
    intro none
    obtain ⟨deleted, inserted⟩ := Edit.mk.inj none
    cases entry : f.entry with
    | delete => exact of_decide_eq_false deleted (entry ▸ here)
    | insert text =>
      have text : text ∈ (entriesFor f.key f.position h.received).filterMap Entry.text? :=
        List.mem_filterMap.mpr ⟨_, here, by rw [entry]; rfl⟩
      rw [inserted] at text
      cases text

/-- The deletion comes last, but stands first; a text of the file is before one that is put in later. -/
example : (push (push (read "mod.patch" "maps/Island.map\n  2\tgoto #1\n") "island" 2 (.insert "return"))
    "ISLAND" 2 .delete).set.lists = [("island", [(2, [.delete, .insert "goto #1", .insert "return"])])] := by
  decide +kernel

end History

end EventScript
