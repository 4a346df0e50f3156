import EventScript.Batch.Recompile
import EventScript.Proofs.Run

/-!
# The name of a map

The name that a map goes by shows in faults and notices only. Whether its text can be assembled, and to what, does
not depend on it (`value?_assemble`), and neither do the bytes of a map after edits, given the edits
(`value?_recompile`).
-/

namespace EventScript

namespace Traced

variable {ν ε α β : Type}

/-- The value that a computation ends with, if it does. -/
def value? (x : Traced ν ε α) : Option α := x.result.toOption

theorem value?_noteIf (b : Bool) (n : ν) : (noteIf b n : Traced ν ε Unit).value? = some () := by
  cases b <;> rfl

theorem value?_bind (x : Traced ν ε α) (f : α → Traced ν ε β) :
    (x >>= f).value? = x.value?.bind fun a => (f a).value? := by
  rcases x with ⟨ns, e | a⟩ <;> rfl

theorem value?_mapError {δ : Type} (g : ε → δ) (x : Except ε α) :
    (ofExcept (x.mapError g) : Traced ν δ α).value? = x.toOption := by
  cases x <;> rfl

theorem value?_mapBoth {μ δ : Type} (f : ν → List μ) (g : ε → δ) (x : Traced ν ε α) :
    (x.mapBoth f g).value? = x.value? := by
  rcases x with ⟨ns, e | a⟩ <;> rfl

/-- Two computations give the same value if their first steps do and what follows does. -/
theorem value?_bind_congr {x y : Traced ν ε α} {f g : α → Traced ν ε β} (first : x.value? = y.value?)
    (rest : ∀ a, (f a).value? = (g a).value?) : (x >>= f).value? = (y >>= g).value? := by
  simp only [value?_bind, first, rest]

theorem value?_foldlM_congr {f g : β → α → Traced ν ε β} (h : ∀ b a, (f b a).value? = (g b a).value?) :
    ∀ (as : List α) (b : β), (as.foldlM f b).value? = (as.foldlM g b).value?
  | [], _ => rfl
  | a :: as, b => by
    rw [List.foldlM_cons, List.foldlM_cons]
    exact value?_bind_congr (h b a) (value?_foldlM_congr h as)

end Traced

open Traced

namespace Assembly

variable (map map' : String)

theorem value?_checkLabels (unit : String) (marks : List (UInt32 × Nat)) (labels : List UInt32) :
    (checkLabels map unit marks labels).value? = (checkLabels map' unit marks labels).value? := by
  induction labels with
  | nil => rfl
  | cons label labels ih =>
    refine value?_bind_congr ?_ fun _ => ih
    rw [checkLabel, checkLabel]
    cases address? marks label with
    | none => rfl
    | some address => rw [value?_noteIf, value?_noteIf]

theorem toOption_entryOf (unit : String) (marks : List (UInt32 × Nat)) (p : Preamble) :
    (entryOf map unit marks p).toOption = (entryOf map' unit marks p).toOption := by
  rw [entryOf, entryOf]
  cases p.entryLabel with
  | none => rfl
  | some label =>
    dsimp only
    cases address? marks label <;> rfl

theorem value?_unitOf (name : String) (p : Preamble) (strings : List String) (body : List Code.Statement) :
    (unitOf map name p strings body).value? = (unitOf map' name p strings body).value? :=
  value?_bind_congr (value?_checkLabels map map' name _ _) fun _ =>
    value?_bind_congr (toOption_entryOf map map' name _ p) fun _ => rfl

namespace State

variable (catalog : Catalog) (s : State) (l : Source.Line)

theorem toOption_addUnit (u : ScriptUnit) : (s.addUnit map u).toOption = (s.addUnit map' u).toOption := by
  simp only [addUnit]
  split <;> rfl

theorem toOption_begin : (s.begin map l).toOption = (s.begin map' l).toOption := by
  rw [begin, begin]
  split <;> rfl

theorem toOption_prepare (name : String) (p : Preamble) :
    (s.prepare catalog map name p l).toOption = (s.prepare catalog map' name p l).toOption := by
  rw [prepare, prepare]
  split
  · rfl
  · cases p.read catalog l.text <;> rfl

theorem value?_addLine (name : String) (p : Preamble) (b : Body) :
    (s.addLine catalog map name p b l).value? = (s.addLine catalog map' name p b l).value? := by
  refine value?_bind_congr ?_ fun ts => value?_bind_congr ?_ fun read => value?_bind_congr ?_ fun _ => rfl
  · exact (value?_mapError _ _).trans (value?_mapError _ _).symm
  · rw [value?_mapBoth, value?_mapBoth]
  · exact (value?_mapError _ _).trans (value?_mapError _ _).symm

theorem value?_continueBody (name : String) (p : Preamble) (b : Body) :
    (s.continueBody catalog map name p b l).value? = (s.continueBody catalog map' name p b l).value? := by
  rw [continueBody, continueBody]
  split
  · cases b.pending <;> rfl
  · split
    · dsimp only
      cases b.settle.closeBlock? with
      | some closed =>
        exact value?_bind_congr ((value?_mapError _ _).trans (value?_mapError _ _).symm) fun _ => rfl
      | none => exact value?_bind_congr (value?_unitOf map map' name p _ _) fun u => toOption_addUnit map map' _ u
    · exact value?_addLine map map' catalog s l name p _

theorem value?_step : (s.step catalog map l).value? = (s.step catalog map' l).value? := by
  rw [step, step]
  cases s.phase with
  | idle => exact toOption_begin map map' s l
  | preamble name p => exact toOption_prepare map map' catalog s l name p
  | body name p b => exact value?_continueBody map map' catalog s l name p b

theorem toOption_finish : (s.finish map).toOption = (s.finish map').toOption := by
  rw [finish, finish]
  cases s.phase <;> rfl

end State

/-- What text is assembled to does not depend on the name of the map. -/
theorem value?_assemble (catalog : Catalog) (lines : List String) :
    (assemble catalog map lines).value? = (assemble catalog map' lines).value? := by
  refine value?_bind_congr ?_ fun ls => value?_bind_congr ?_ fun s => State.toOption_finish map map' s
  · exact (value?_mapError _ _).trans (value?_mapError _ _).symm
  · exact value?_foldlM_congr (fun s l => State.value?_step map map' catalog s l) ls {}

end Assembly

/-- The bytes of a map after edits depend on the edits for it only, and not on its name. -/
theorem MapFile.value?_recompile {patches patches' : PatchSet} {map map' : String}
    (same : patches.edits? map = patches'.edits? map') (catalog : Catalog) (m : MapFile) :
    (m.recompile catalog patches map).value? = (m.recompile catalog patches' map').value? := by
  refine value?_bind_congr rfl fun before => value?_bind_congr ?_ fun after =>
    value?_bind_congr (Assembly.value?_assemble map map' catalog after) fun _ => rfl
  rw [PatchSet.apply, PatchSet.apply, same]
  cases patches'.edits? map' with
  | none => rfl
  | some edits =>
    refine value?_bind_congr ?_ fun _ => rfl
    rw [value?_noteIf, value?_noteIf]

end EventScript
