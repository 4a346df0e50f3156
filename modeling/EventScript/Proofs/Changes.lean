import EventScript.Patch.Loading
import EventScript.Proofs.PatchTables
import EventScript.Proofs.Storing
import Mathlib.Data.List.Induction

/-!
# Patch sets as changes

The changes that are written in patch files, one after another, say all about the patch set that is made from
them: at a position of a map it does what the changes there say (`editAt_ofChanges`), and putting patch sets
together is the same as pushing all changes in a row (`append_ofChanges`). For a map there are the changes with its
key (`edits?_ofChanges`), and its lines become what those say line by line (`result_apply_ofChanges`).
-/

namespace EventScript

open Ordered

/-- The text that an entry puts in. -/
def Entry.text? : Entry → Option String
  | .delete => none
  | .insert text => some text

namespace Edit

/-- The edit with some entries: the line goes if one takes it out, and the texts of the others follow. -/
def ofEntries (es : List Entry) : Edit := ⟨decide (.delete ∈ es), es.filterMap Entry.text?⟩

theorem append_ofEntries (es fs : List Entry) : (ofEntries es).append (ofEntries fs) = ofEntries (es ++ fs) := by
  simp [append, ofEntries, List.filterMap_append]

theorem add_empty (e : Entry) : add {} e = ofEntries [e] := by
  cases e <;> rfl

end Edit

/-- A change in a patch file, with the heading it stands under. -/
structure Change where
  heading : String
  position : Nat
  entry : Entry
  deriving DecidableEq, Repr

/-- The key by which a change is kept. -/
def Change.key (w : Change) : String := mapKey (mapKey w.heading)

/-- The entries at a position. -/
def entriesAt (n : Nat) (ws : List Change) : List Entry :=
  (ws.filter fun w => w.position = n).map Change.entry

/-- The changes that are kept by a key. -/
def changesFor (key : String) (ws : List Change) : List Change := ws.filter fun w => w.key = key

theorem changesFor_append (key : String) (ws vs : List Change) :
    changesFor key (ws ++ vs) = changesFor key ws ++ changesFor key vs := List.filter_append ws vs

theorem changesFor_singleton (key : String) (w : Change) :
    changesFor key [w] = if key = w.key then [w] else [] := by
  by_cases here : key = w.key
  · simp [changesFor, here]
  · simp [changesFor, here, Ne.symm here]

/-- Where a change stands among those for its key. -/
theorem changesFor_of_eq {key : String} {w : Change} {before after : List Change} (here : w.key = key) :
    changesFor key (before ++ w :: after) = changesFor key before ++ w :: changesFor key after := by
  rw [changesFor_append, ← List.singleton_append, changesFor_append, changesFor_singleton, if_pos here.symm,
    List.singleton_append]

theorem changesFor_of_ne {key : String} {w : Change} {before after : List Change} (other : w.key ≠ key) :
    changesFor key (before ++ w :: after) = changesFor key (before ++ after) := by
  rw [changesFor_append, ← List.singleton_append, changesFor_append, changesFor_singleton,
    if_neg (Ne.symm other), List.nil_append, changesFor_append]

theorem entriesAt_append (n : Nat) (ws vs : List Change) :
    entriesAt n (ws ++ vs) = entriesAt n ws ++ entriesAt n vs := by
  rw [entriesAt, List.filter_append, List.map_append, entriesAt, entriesAt]

theorem entriesAt_singleton (n : Nat) (w : Change) :
    entriesAt n [w] = if n = w.position then [w.entry] else [] := by
  by_cases here : n = w.position
  · simp [entriesAt, here]
  · simp [entriesAt, here, Ne.symm here]

/-- The lines that changes make of a text whose first line has the position `n`. -/
def overlay (ws : List Change) (n : Nat) : List String → List String
  | [] => []
  | line :: lines => (Edit.ofEntries (entriesAt n ws)).apply line ++ overlay ws (n + 1) lines

theorem overlay_eq (ws : List Change) (lines : List String) : ∀ n, overlay ws n lines =
    (lines.zipIdx n).flatMap fun l => (Edit.ofEntries (entriesAt l.2 ws)).apply l.1 := by
  induction lines with
  | nil => exact fun _ => rfl
  | cons line lines ih =>
    intro n
    rw [overlay, ih, List.zipIdx_cons, List.flatMap_cons]

namespace Edits

variable {ws vs : List Change} {n : Nat}

/-- Adds a change. -/
def addChange (t : Edits) (w : Change) : Edits :=
  update w.position (fun e => (e.getD {}).append (Edit.add {} w.entry)) t

/-- The edits for changes of one map. -/
def ofChanges (ws : List Change) : Edits := ws.foldl addChange []

theorem ofChanges_snoc (ws : List Change) (w : Change) : ofChanges (ws ++ [w]) = (ofChanges ws).addChange w := by
  rw [ofChanges, List.foldl_append]
  rfl

theorem tidy_ofChanges (ws : List Change) : Tidy {} (ofChanges ws) := by
  induction ws using List.reverseRecOn with
  | nil => exact tidy_nil
  | append_singleton ws w ih =>
    rw [ofChanges_snoc]
    exact ih.update _ fun _ => Edit.append_ne (Edit.add_ne _)

theorem value_ofChanges (ws : List Change) : value {} n (ofChanges ws) = Edit.ofEntries (entriesAt n ws) := by
  induction ws using List.reverseRecOn with
  | nil => rfl
  | append_singleton ws w ih =>
    rw [ofChanges_snoc, addChange, value_update (tidy_ofChanges ws).ascending
      (fun e => e.append (Edit.add {} w.entry)), entriesAt_append, entriesAt_singleton, Edit.add_empty]
    split
    · next here => rw [← here, ih, Edit.append_ofEntries]
    · rw [ih, List.append_nil]

theorem ofChanges_eq_nil : ofChanges ws = [] ↔ ws = [] := by
  constructor
  · induction ws using List.reverseRecOn with
    | nil => exact fun _ => rfl
    | append_singleton ws w _ =>
      intro empty
      rw [ofChanges_snoc] at empty
      exact absurd empty (update_ne_nil _ _ _)
  · rintro rfl
    rfl

end Edits

namespace PatchSet

variable {a b : PatchSet} {key map : String} {ws : List Change}

/-- Adds a change. -/
def addChange (s : PatchSet) (w : Change) : PatchSet := s.push (mapKey w.heading) w.position w.entry

/-- The patch set with some changes. -/
def ofChanges (ws : List Change) : PatchSet := ws.foldl addChange empty

theorem ofChanges_snoc (ws : List Change) (w : Change) : ofChanges (ws ++ [w]) = (ofChanges ws).addChange w := by
  rw [ofChanges, List.foldl_append]
  rfl

theorem tidy_ofChanges (ws : List Change) : (ofChanges ws).Tidy := by
  induction ws using List.reverseRecOn with
  | nil => exact tidy_empty
  | append_singleton ws w ih =>
    rw [ofChanges_snoc]
    exact ih.push _ _ _

/-- What is kept by a key comes from the changes with that key. -/
theorem value_ofChanges (key : String) (ws : List Change) :
    value [] key (ofChanges ws).maps = Edits.ofChanges (changesFor key ws) := by
  induction ws using List.reverseRecOn with
  | nil => rfl
  | append_singleton ws w ih =>
    have step : value [] key ((ofChanges ws).addChange w).maps =
        if key = w.key then (value [] w.key (ofChanges ws).maps : Edits).addChange w
        else value [] key (ofChanges ws).maps :=
      value_update (tidy_ofChanges ws).maps.ascending fun edits : Edits => edits.addChange w
    rw [ofChanges_snoc, step, changesFor_append, changesFor_singleton]
    split
    · next here => rw [← here, ih, Edits.ofChanges_snoc]
    · rw [ih, List.append_nil]

/-- At a position of a map, what the changes there say is done. -/
theorem editAt_ofChanges (key : String) (n : Nat) (ws : List Change) :
    (ofChanges ws).editAt key n = Edit.ofEntries (entriesAt n (changesFor key ws)) := by
  rw [editAt, value_ofChanges, Edits.value_ofChanges]

/-- Putting two patch sets together is putting their changes in a row. -/
theorem append_ofChanges (ws vs : List Change) : (ofChanges ws).append (ofChanges vs) = ofChanges (ws ++ vs) := by
  have left := tidy_ofChanges ws
  have right := tidy_ofChanges vs
  refine (left.append right).ext (tidy_ofChanges _) fun key n => ?_
  rw [editAt_append left right, editAt_ofChanges, editAt_ofChanges, editAt_ofChanges, Edit.append_ofEntries,
    changesFor_append, entriesAt_append]

theorem merge_ofChanges (wss : List (List Change)) : merge (wss.map ofChanges) = ofChanges wss.flatten := by
  have run : ∀ ws, (wss.map ofChanges).foldl append (ofChanges ws) = ofChanges (ws ++ wss.flatten) := by
    induction wss with
    | nil => exact fun ws => congrArg ofChanges (List.append_nil ws).symm
    | cons vs wss ih =>
      intro ws
      rw [List.map_cons, List.foldl_cons, append_ofChanges, ih, List.flatten_cons, List.append_assoc]
  exact run []

theorem edits?_ofChanges (map : String) (ws : List Change) : (ofChanges ws).edits? map =
    if changesFor (mapKey map) ws = [] then none else some (Edits.ofChanges (changesFor (mapKey map) ws)) := by
  rw [edits?, (tidy_ofChanges ws).maps.find?_eq, value_ofChanges]
  simp only [Edits.ofChanges_eq_nil]

theorem hasMap_ofChanges : (ofChanges ws).hasMap map = true ↔ changesFor (mapKey map) ws ≠ [] := by
  rw [hasMap, edits?_ofChanges]
  split
  · next none => simp [none]
  · next some => simp [some]

/-- The lines of a map become what the changes for it say. -/
theorem result_apply_ofChanges {ε : Type} (map : String) (ws : List Change) (lines : List String) :
    ((ofChanges ws).apply map lines : Traced Notice ε _).result = .ok (overlay (changesFor (mapKey map) ws) 1 lines) := by
  rw [result_apply, overlay_eq]
  simp only [editAt_ofChanges]

end PatchSet

end EventScript
