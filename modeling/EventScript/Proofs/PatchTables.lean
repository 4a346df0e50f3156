import EventScript.Patch.Basic
import EventScript.Proofs.Run
import EventScript.Proofs.Tables

/-!
# What a patch set does at a position

A patch set is a table of tables. `editAt` looks through both: it is what happens at a position of the map with a
key, which is nothing where there is no entry. A patch set without idle entries is given by it (`Tidy.ext`), putting
patch sets together puts together what they do at each position (`editAt_append`), and the lines that a patch set
makes of a text depend on nothing else (`result_apply`).
-/

namespace EventScript

open Ordered

namespace Edit

theorem append_empty (e : Edit) : e.append {} = e := by
  simp [append]

/-- Two edits of which one puts nothing in can change places. -/
theorem append_comm {a b : Edit} (once : a.inserted = [] ∨ b.inserted = []) : a.append b = b.append a := by
  rw [append, append, Bool.or_comm]
  obtain none | none := once
  · rw [none, List.append_nil, List.nil_append]
  · rw [none, List.append_nil, List.nil_append]

/-- Adding to an edit leaves something to do. -/
theorem append_ne {a b : Edit} (kept : b ≠ {}) : a.append b ≠ {} := by
  intro equal
  obtain ⟨deleted, inserted⟩ := Edit.mk.inj equal
  obtain ⟨d, i⟩ := b
  obtain rfl : d = false := (Bool.or_eq_false_iff.mp deleted).2
  obtain rfl : i = [] := (List.append_eq_nil_iff.mp inserted).2
  exact kept rfl

theorem add_ne (e : Entry) : add {} e ≠ {} := by
  cases e <;> simp [add]

end Edit

namespace Edits

variable {s t : Edits} {n : Nat}

/-- Adds the edits of a table. -/
def addAll (t : Edits) (s : Edits) : Edits :=
  s.foldl (fun t e => update e.1 (fun b => (b.getD {}).append e.2) t) t

theorem addAll_nil (t : Edits) : addAll t [] = t := rfl

theorem addAll_ne_nil {t : Edits} : ∀ {s : Edits}, s ≠ [] → addAll t s ≠ []
  | [], absent => absurd rfl absent
  | [_], _ => update_ne_nil _ _ _
  | _ :: e :: s, _ => addAll_ne_nil (s := e :: s) (List.cons_ne_nil _ _)

theorem tidy_addAll (left : Tidy {} t) (right : Tidy {} s) : Tidy {} (addAll t s) :=
  left.foldl_update Edit.append fun e mem _ => Edit.append_ne (right.kept e mem)

theorem value_addAll (left : Tidy {} t) (right : Tidy {} s) :
    value {} n (addAll t s) = (value {} n t).append (value {} n s) :=
  value_foldl_update Edit.append Edit.append_empty right.ascending left.ascending

theorem applyFrom_nil (lines : List String) : ∀ n, applyFrom [] n lines = lines := by
  induction lines with
  | nil => exact fun _ => rfl
  | cons line lines ih => exact fun n => congrArg (line :: ·) (ih (n + 1))

theorem applyFrom_eq (t : Edits) (lines : List String) : ∀ n, t.applyFrom n lines =
    (lines.zipIdx n).flatMap fun l => (value {} l.2 t).apply l.1 := by
  induction lines with
  | nil => exact fun _ => rfl
  | cons line lines ih =>
    intro n
    rw [applyFrom, ih, List.zipIdx_cons, List.flatMap_cons, value]
    congr 1
    cases find? n t <;> rfl

end Edits

namespace PatchSet

variable {a b s : PatchSet} {key : String} {n : Nat}

/-- What happens at a position of the map with a key. -/
def editAt (s : PatchSet) (key : String) (n : Nat) : Edit := value {} n (value [] key s.maps)

/-- Keys and positions ascend; no map is there without edits, and no position without something to do. -/
structure Tidy (s : PatchSet) : Prop where
  maps : Ordered.Tidy [] s.maps
  edits : ∀ key, Ordered.Tidy {} (value [] key s.maps)

theorem tidy_empty : empty.Tidy := ⟨tidy_nil, fun _ => tidy_nil⟩

/-- Patch sets that do the same everywhere are the same. -/
theorem Tidy.ext (left : a.Tidy) (right : b.Tidy) (equal : ∀ key n, a.editAt key n = b.editAt key n) : a = b :=
  congrArg PatchSet.mk (left.maps.ext right.maps fun key => (left.edits key).ext (right.edits key) (equal key))

/-! ### One change -/

/-- What is kept by a key after an edit is added. -/
theorem value_addEdit (tidy : s.Tidy) (k : String) (n : Nat) (e : Edit) : value [] key (s.addEdit k n e).maps =
    if key = k then update n (fun b => (b.getD {}).append e) (value [] k s.maps) else value [] key s.maps :=
  value_update tidy.maps.ascending fun t => update n (fun b => (b.getD {}).append e) t

theorem Tidy.addEdit (tidy : s.Tidy) (k : String) (n : Nat) {e : Edit} (kept : e ≠ {}) : (s.addEdit k n e).Tidy where
  maps := tidy.maps.update k fun _ => update_ne_nil _ _ _
  edits key := by
    rw [value_addEdit tidy]
    split
    · exact (tidy.edits k).update n fun _ => Edit.append_ne kept
    · exact tidy.edits key

theorem editAt_addEdit (tidy : s.Tidy) (k : String) (p : Nat) (e : Edit) : (s.addEdit k p e).editAt key n =
    if key = k ∧ n = p then (s.editAt key n).append e else s.editAt key n := by
  rw [editAt, value_addEdit tidy]
  by_cases here : key = k
  · subst here
    rw [if_pos rfl, value_update (tidy.edits key).ascending fun b => b.append e]
    by_cases there : n = p
    · rw [if_pos there, if_pos ⟨rfl, there⟩, there, editAt]
    · rw [if_neg there, if_neg fun both => there both.2, editAt]
  · rw [if_neg here, if_neg fun both => here both.1, editAt]

theorem Tidy.push (tidy : s.Tidy) (map : String) (p : Nat) (e : Entry) : (s.push map p e).Tidy :=
  tidy.addEdit _ p (Edit.add_ne e)

/-! ### All changes of another patch set -/

/-- The edits of a table for one key, added one by one, are added at once. -/
theorem addEdits_eq : ∀ {m : String × Edits}, m.2 ≠ [] → ∀ s : PatchSet,
    (s.addEdits m).maps = update m.1 (fun t => Edits.addAll (t.getD []) m.2) s.maps
  | (_, []), absent, _ => absurd rfl absent
  | (_, [_]), _, _ => rfl
  | (key, e :: e' :: es), _, s => by
    have rest := addEdits_eq (m := (key, e' :: es)) (List.cons_ne_nil _ _) (s.addEdit key e.1 e.2)
    refine rest.trans ?_
    rw [addEdit, update_update]
    rfl

theorem append_maps (kept : ∀ m ∈ b.maps, m.2 ≠ []) (a : PatchSet) : (a.append b).maps =
    b.maps.foldl (fun t m => update m.1 (fun edits => Edits.addAll (edits.getD []) m.2) t) a.maps := by
  rw [append]
  generalize b.maps = ms at kept
  induction ms generalizing a with
  | nil => rfl
  | cons m ms ih =>
    obtain ⟨first, others⟩ := List.forall_mem_cons.mp kept
    rw [List.foldl_cons, List.foldl_cons, ih _ others, addEdits_eq first]

theorem value_append (left : a.Tidy) (right : b.Tidy) (key : String) :
    value [] key (a.append b).maps = Edits.addAll (value [] key a.maps) (value [] key b.maps) := by
  rw [append_maps right.maps.kept]
  exact value_foldl_update Edits.addAll Edits.addAll_nil right.maps.ascending left.maps.ascending

theorem Tidy.append (left : a.Tidy) (right : b.Tidy) : (a.append b).Tidy where
  maps := by
    rw [append_maps right.maps.kept]
    exact left.maps.foldl_update Edits.addAll fun m mem _ => Edits.addAll_ne_nil (right.maps.kept m mem)
  edits key := by
    rw [value_append left right]
    exact Edits.tidy_addAll (left.edits key) (right.edits key)

/-- Putting patch sets together puts together what they do at each position. -/
theorem editAt_append (left : a.Tidy) (right : b.Tidy) :
    (a.append b).editAt key n = (a.editAt key n).append (b.editAt key n) := by
  rw [editAt, value_append left right, Edits.value_addAll (left.edits key) (right.edits key), editAt, editAt]

/-! ### Lines -/

/-- Each line becomes what the patch set does at its position. -/
theorem result_apply {ε : Type} (s : PatchSet) (map : String) (lines : List String) :
    (s.apply map lines : Traced Notice ε _).result =
      .ok ((lines.zipIdx 1).flatMap fun l => (s.editAt (mapKey map) l.2).apply l.1) := by
  have kept : value [] (mapKey map) s.maps = (s.edits? map).getD [] := rfl
  simp only [apply, editAt, kept]
  cases s.edits? map with
  | none => exact congrArg Except.ok ((Edits.applyFrom_nil lines 1).symm.trans (Edits.applyFrom_eq [] lines 1))
  | some t =>
    refine Traced.result_bind_eq_ok.mpr ⟨(), Traced.result_noteIf _ _, ?_⟩
    exact congrArg Except.ok (Edits.applyFrom_eq t lines 1)

end PatchSet

end EventScript
