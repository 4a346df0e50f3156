import EventScript.Disk.Job
import EventScript.Proofs.Run

/-!
# Files that were written

What was written at a path is read there (`read_write`). The way to a file leads through directories only,
and writing puts a file where there is no directory, so that the same path leads to it afterwards
(`follow_set`).
-/

namespace EventScript

namespace Disk

variable {d d' : Disk} {path : String} {content : Bytes} {l : Location}

theorem lookup_eq_ok {n : Option Node} : d.lookup l = .ok n ↔
    (l.getLast?.getD "").utf8ByteSize ≤ longestName ∧ n = d.at? l := by
  rw [lookup]
  split
  · next long =>
    constructor
    · intro ok
      cases ok
    · exact fun h => absurd h.1 (Nat.not_le_of_lt long)
  · next short =>
    exact ⟨fun ok => ⟨Nat.le_of_not_lt short, (Except.ok.inj ok).symm⟩, fun h => congrArg Except.ok h.2.symm⟩

theorem lookup_set_of_ne {k : Location} (differs : k ≠ l) (n : Node) : (d.set l n).lookup k = d.lookup k := by
  rw [lookup, lookup, at?_set_of_ne d differs]

/-- A way of at least two names goes through a directory. -/
theorem follow_cons_eq_ok {here : Location} {name next : String} {names : List String} {k : Location} :
    d.follow here (name :: next :: names) = .ok k ↔
      d.lookup (enter here name) = .ok (some .directory) ∧ d.follow (enter here name) (next :: names) = .ok k := by
  rw [follow, bind_eq_ok]
  · constructor
    · rintro ⟨n, found, rest⟩
      match n, rest with
      | some .directory, rest => exact ⟨found, rest⟩
    · rintro ⟨found, rest⟩
      exact ⟨_, found, rest⟩
  · simp

/-- Putting something where no directory is changes no way. -/
theorem follow_set (free : d.at? l ≠ some .directory) (n : Node) : ∀ (names : List String) {here k : Location},
    d.follow here names = .ok k → (d.set l n).follow here names = .ok k
  | [], _, _, led => led
  | [_], _, _, led => led
  | name :: next :: names, here, k, led => by
    obtain ⟨found, rest⟩ := follow_cons_eq_ok.mp led
    have differs : enter here name ≠ l := by
      rintro rfl
      exact free (lookup_eq_ok.mp found).2.symm
    rw [follow_cons_eq_ok, lookup_set_of_ne differs]
    exact ⟨found, follow_set free n (next :: names) rest⟩

theorem locate_set (free : d.at? l ≠ some .directory) (n : Node) {k : Location} (led : d.locate path = .ok k) :
    (d.set l n).locate path = .ok k := by
  unfold locate at led ⊢
  split at led
  · cases led
  · next zero =>
    rw [if_neg zero]
    split at led
    · cases led
    · next named =>
      rw [if_neg named]
      split at led
      · cases led
      · next short =>
        rw [if_neg short]
        exact follow_set free n _ led

/-- A file is written at the location of its path, where no directory is. -/
theorem eq_set_of_write (written : d.write path content = .ok d') : ∃ l, d.locate path = .ok l ∧
    Path.endsOpen path = false ∧ (l.getLast?.getD "").utf8ByteSize ≤ longestName ∧
    d.at? l ≠ some .directory ∧ d' = d.set l (.file content) := by
  obtain ⟨l, led, written⟩ := bind_eq_ok.mp written
  split at written
  · cases written
  · next closed =>
    obtain ⟨n, found, written⟩ := bind_eq_ok.mp written
    obtain ⟨short, rfl⟩ := lookup_eq_ok.mp found
    split at written
    · cases written
    · next free =>
      cases written
      exact ⟨l, led, by simpa using closed, short, free, rfl⟩

/-- What was written at a path is read there. -/
theorem read_write (written : d.write path content = .ok d') : d'.read path = .ok content := by
  obtain ⟨l, led, closed, short, free, rfl⟩ := eq_set_of_write written
  have below : l ≠ [] := by
    rintro rfl
    exact free rfl
  have found : (d.set l (.file content)).lookup l = .ok (some (.file content)) :=
    lookup_eq_ok.mpr ⟨short, (at?_set_self d below _).symm⟩
  have node : (d.set l (.file content)).node path = .ok (.file content) := by
    rw [node, locate_set free _ led, ok_bind, found, ok_bind]
    simp only [closed]
    rfl
  rw [read, node]
  rfl

end Disk

namespace Job

variable {α β : Type} {d : Disk} {path : String} {content : Bytes}

theorem result_bind_eq_ok {x : Job α} {f : α → Job β} {b : β} : ((x >>= f) d).1.result = .ok b ↔
    ∃ a, (x d).1.result = .ok a ∧ (f a (x d).2).1.result = .ok b := by
  cases result : (x d).1.result with
  | error e =>
    rw [bind_of_error result]
    constructor
    · intro ok
      cases ok
    · rintro ⟨_, ⟨⟩, _⟩
  | ok a =>
    rw [bind_of_ok result]
    constructor
    · exact fun h => ⟨a, rfl, h⟩
    · rintro ⟨_, ⟨⟩, h⟩
      exact h

theorem write_of_put (done : (put path content d).1.result = .ok ()) :
    d.write path content = .ok (put path content d).2 := by
  rw [put] at done ⊢
  split at done
  · next written => rw [written]
  · cases done

/-- Storing ends with a file being put at the path. -/
theorem store_eq (path : String) (content : Bytes) : ∃ prepare : Job Unit,
    store path content = prepare >>= fun _ => put path content := by
  unfold store
  cases Path.parent? path with
  | none => exact ⟨pure (), rfl⟩
  | some up => exact ⟨makeDirectories up, rfl⟩

/-- What was stored at a path is there. -/
theorem read_store (stored : (store path content d).1.result = .ok ()) :
    (store path content d).2.read path = .ok content := by
  obtain ⟨prepare, equal⟩ := store_eq path content
  rw [equal] at stored ⊢
  obtain ⟨_, first, last⟩ := result_bind_eq_ok.mp stored
  rw [bind_of_ok first]
  exact Disk.read_write (write_of_put last)

end Job

end EventScript
