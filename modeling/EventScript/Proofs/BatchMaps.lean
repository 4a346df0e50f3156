import EventScript.Proofs.MapNames
import EventScript.Proofs.PatchTargets
import EventScript.Proofs.SteadyLoads
import Mathlib.Data.List.Forall2

/-!
# The maps of a batch run

What a run leaves for a map is decided by its bytes, the catalog and the edits for it (`outcome`). Going through maps
one by one leaves this for each of them (`settled_of_mapM`); going through them once more gives the same results and
leaves the disk as it is (`mapM_of_settled`).
-/

namespace EventScript

open Job

/-- A patch set with edits for one map at most. -/
def PatchSet.only (map : String) (edits : Option Edits) : PatchSet :=
  ⟨(edits.map fun e => (mapKey map, e)).toList⟩

theorem PatchSet.edits?_only (map : String) (edits : Option Edits) : (only map edits).edits? map = edits := by
  cases edits with
  | none => rfl
  | some e => simp [only, edits?, Ordered.find?]

namespace Batch

variable {s : Settings} {catalog : Catalog} {patches : PatchSet} {names : Location} {maps : List Location}
  {raw bytes : Bytes} {r : Result} {results : List Result} {m : MapFile} {d d' d'' : Disk} {out : Location}
  {written : Location → Prop}

/-- The bytes that a run leaves for a map, given its bytes and the edits for it: if there are edits, or all maps are
assembled again, those that the edited text gives, unless a step on the way fails. The name of the map shows in
faults and notices only; here it is left blank. -/
def outcome (recompileAll : Bool) (catalog : Catalog) (edits : Option Edits) (raw : Bytes) : Bytes :=
  if recompileAll || edits.isSome then
    ((MapFile.decode raw).toOption.bind fun m => (m.recompile catalog (.only "" edits) "").value?).getD raw
  else raw

/-- What becomes of a map that has been read, and the bytes that are left for it. -/
def verdict (s : Settings) (catalog : Catalog) (patches : PatchSet) (map : String) (raw : Bytes) (m : MapFile) :
    Result × Bytes :=
  if !s.recompileAll && !patches.hasMap map then (.copied, raw)
  else
    match (m.recompile catalog patches map).result with
    | .ok bytes => (.written m.units.length bytes.length, bytes)
    | .error e => (.failed e, raw)

theorem snd_verdict {map : String} (decoded : MapFile.decode raw = .ok m) :
    (verdict s catalog patches map raw m).2 = outcome s.recompileAll catalog (patches.edits? map) raw := by
  have only := MapFile.value?_recompile (PatchSet.edits?_only "" (patches.edits? map)) catalog m
  rw [verdict, outcome, decoded, ← Bool.not_or, PatchSet.hasMap]
  cases s.recompileAll || (patches.edits? map).isSome with
  | false => rfl
  | true =>
    rw [if_neg (by decide), if_pos rfl]
    change _ = Option.getD (Traced.value? _) raw
    rw [only, Traced.value?]
    cases (m.recompile catalog patches map).result <;> rfl

/-! ### One map -/

/-- Without listings, a map that has been read is decided on and stored. -/
theorem ends_conclude (quiet : s.dumpText = false) {map output : String} :
    Ends (conclude s catalog patches map output raw m) d r d' ↔ r = (verdict s catalog patches map raw m).1 ∧
      Ends (store output (verdict s catalog patches map raw m).2) d () d' := by
  rw [conclude, verdict]
  split
  · exact ends_then_pure
  · rw [recompile, if_neg (by simp [quiet]), ends_bind]
    simp only [ends_attempt, and_assoc, exists_and_left, exists_eq_left]
    cases (m.recompile catalog patches map).result with
    | ok bytes => exact ends_note_then.trans ends_then_pure
    | error e => exact ends_note_then.trans ends_then_pure

/-- Going through a map is reading it, deciding, and storing what is left for it. -/
theorem ends_processMap (quiet : s.dumpText = false) : Ends (processMap s catalog patches names) d r d' ↔
    ∃ raw m, d.read (Path.below s.input names) = .ok raw ∧ MapFile.decode raw = .ok m ∧
      r = (verdict s catalog patches (mapName s names) raw m).1 ∧
      Ends (store (Path.join s.output (Path.ofSegments names))
        (verdict s catalog patches (mapName s names) raw m).2) d () d' := by
  rw [processMap, ends_bind]
  constructor
  · rintro ⟨raw, _, fetched, rest⟩
    obtain ⟨read, rfl⟩ := ends_fetch.mp fetched
    obtain ⟨m, _, lifted, last⟩ := ends_bind.mp rest
    obtain ⟨decoded, rfl⟩ := ends_ofExcept.mp lifted
    exact ⟨raw, m, read, decoded, (ends_conclude quiet).mp last⟩
  · rintro ⟨raw, m, read, decoded, rest⟩
    refine ⟨raw, d, ends_fetch.mpr ⟨read, rfl⟩, ends_bind.mpr ⟨m, d, ends_ofExcept.mpr ⟨decoded, rfl⟩, ?_⟩⟩
    exact (ends_conclude quiet).mpr rest

/-- Nothing can be stored at the output path itself. -/
theorem not_ends_store_nil {base : String} {content : Bytes} :
    ¬ Ends (store (Path.join base (Path.ofSegments [])) content) d () d' := by
  intro ends
  obtain ⟨m, -, put_⟩ := ends_store.mp ends
  obtain ⟨l, led, closed, -⟩ := Disk.eq_set_of_write (ends_put.mp put_)
  have usable := (Disk.locate_eq_ok.mp led).1
  rcases Path.join_nothing base with nothing | opens
  · exact usable.named nothing
  · exact absurd opens (by simp [closed])

/-- The output path is there, or is that of the working directory, and the maps are elsewhere. -/
structure Ready (s : Settings) (d : Disk) : Prop where
  output : s.output = "" ∨ d.exists? s.output = true
  apart : Disk.Apart (d.place s.input) (d.place s.output)

theorem not_beneath_self (out : Location) : ¬ Disk.Beneath out out := by
  rintro ⟨name, rest, same⟩
  simpa using congrArg List.length same

theorem Ready.grows (ready : Ready s d) (grows : Disk.Grows (d.place s.output) written d d') : Ready s d' := by
  have keeps := grows.toKeeps
  refine ⟨ready.output.imp_right fun there => keeps.exists? there (grows.outside _ (not_beneath_self _)), ?_⟩
  rw [keeps.place, keeps.place]
  exact ready.apart

/-- A map has been gone through: it can be read, and what is left for it is at its place. -/
def Settled (s : Settings) (catalog : Catalog) (patches : PatchSet) (d : Disk) (names : Location) (r : Result) : Prop :=
  ∃ raw m, d.read (Path.below s.input names) = .ok raw ∧ MapFile.decode raw = .ok m ∧
    r = (verdict s catalog patches (mapName s names) raw m).1 ∧
    d.Holds (Path.join s.output (Path.ofSegments names)) (verdict s catalog patches (mapName s names) raw m).2

theorem Ready.read_map (ready : Ready s d) (proper : ∀ name ∈ names, Path.Proper name)
    (grows : Disk.Grows (d.place s.output) written d d') (read : d.read (Path.below s.input names) = .ok raw) :
    d'.read (Path.below s.input names) = .ok raw := by
  refine grows.read_apart ready.apart ?_ read
  rw [d.place_below s.input proper]
  exact List.prefix_append _ _

/-- A map that has been gone through stays so while others are. -/
theorem Settled.grows (settled : Settled s catalog patches d names r) (ready : Ready s d)
    (proper : ∀ name ∈ names, Path.Proper name) (grows : Disk.Grows (d.place s.output) written d d')
    (unwritten : ¬ written (d.place s.output ++ names)) : Settled s catalog patches d' names r := by
  obtain ⟨raw, m, read, decoded, same, holds⟩ := settled
  refine ⟨raw, m, ready.read_map proper grows read, decoded, same, grows.toKeeps.holds ?_ holds⟩
  have there := (Disk.read_eq_ok.mp holds.read).2.2
  rw [d.place_join s.output proper] at there ⊢
  rw [there]
  exact grows.file _ _ unwritten there

theorem Settled.same (settled : Settled s catalog patches d names r) (same : Disk.Same d d') :
    Settled s catalog patches d' names r := by
  obtain ⟨raw, m, read, decoded, result, holds⟩ := settled
  exact ⟨raw, m, same.keeps.read read (same.at? _), decoded, result, same.keeps.holds (same.at? _) holds⟩

/-- Going through a map leaves the results of others. -/
theorem settled_of_processMap (quiet : s.dumpText = false) (ready : Ready s d)
    (proper : ∀ name ∈ names, Path.Proper name) (ends : Ends (processMap s catalog patches names) d r d') :
    Disk.Grows (d.place s.output) (· = d.place s.output ++ names) d d' ∧ Settled s catalog patches d' names r := by
  obtain ⟨raw, m, read, decoded, same, stored⟩ := (ends_processMap quiet).mp ends
  have some_ : names ≠ [] := by
    rintro rfl
    exact not_ends_store_nil stored
  obtain ⟨grows, holds⟩ := grows_of_store some_ proper ready.output stored
  exact ⟨grows, raw, m, ready.read_map proper grows read, decoded, same, holds⟩

/-- Going through a map again gives the same result and leaves the disk as it is. -/
theorem processMap_of_settled (quiet : s.dumpText = false) (settled : Settled s catalog patches d names r) :
    ∃ d', Ends (processMap s catalog patches names) d r d' ∧ Disk.Same d d' := by
  obtain ⟨raw, m, read, decoded, same, holds⟩ := settled
  obtain ⟨d', stored, unchanged⟩ := ends_store_again holds
  exact ⟨d', (ends_processMap quiet).mpr ⟨raw, m, read, decoded, same, stored⟩, unchanged⟩

/-! ### All maps -/

theorem ends_mapM_cons {α β : Type} {f : α → Job β} {a : α} {as : List α} {bs : List β} :
    Ends ((a :: as).mapM f) d bs d' ↔
      ∃ b rest m, Ends (f a) d b m ∧ Ends (as.mapM f) m rest d' ∧ bs = b :: rest := by
  rw [List.mapM_cons, ends_bind]
  constructor
  · rintro ⟨b, m, first, later⟩
    obtain ⟨rest, m', others, last⟩ := ends_bind.mp later
    obtain ⟨rfl, rfl⟩ := ends_pure.mp last
    exact ⟨b, rest, m, first, others, rfl⟩
  · rintro ⟨b, rest, m, first, others, rfl⟩
    exact ⟨b, m, first, ends_bind.mpr ⟨rest, d', others, ends_pure.mpr ⟨rfl, rfl⟩⟩⟩

/-- Going through maps writes a file for each and no others. -/
theorem settled_of_mapM (quiet : s.dumpText = false) (ready : Ready s d) (distinct : maps.Nodup)
    (proper : ∀ names ∈ maps, ∀ name ∈ names, Path.Proper name)
    (ends : Ends (maps.mapM (processMap s catalog patches)) d results d') :
    Disk.Grows (d.place s.output) (fun l => ∃ names ∈ maps, l = d.place s.output ++ names) d d' ∧
      List.Forall₂ (Settled s catalog patches d') maps results := by
  induction maps generalizing d results with
  | nil =>
    rw [List.mapM_nil] at ends
    obtain ⟨rfl, rfl⟩ := ends_pure.mp ends
    exact ⟨.refl d', .nil⟩
  | cons names maps ih =>
    obtain ⟨fresh, distinct⟩ := List.nodup_cons.mp distinct
    obtain ⟨properFirst, proper⟩ := List.forall_mem_cons.mp proper
    obtain ⟨r, rest, m, first, others, rfl⟩ := ends_mapM_cons.mp ends
    obtain ⟨grows, settled⟩ := settled_of_processMap quiet ready properFirst first
    have place := grows.toKeeps.place s.output
    have readyNext := ready.grows grows
    obtain ⟨growsRest, settledRest⟩ := ih readyNext distinct proper others
    -- The place of the first map is none of those written later, since the maps are distinct.
    have unwritten : ¬ ∃ other ∈ maps, m.place s.output ++ names = m.place s.output ++ other := by
      rintro ⟨other, mem, same⟩
      exact fresh (List.append_cancel_left same ▸ mem)
    refine ⟨.trans (grows.mono ?_) ((place ▸ growsRest).mono ?_),
      .cons (settled.grows readyNext properFirst growsRest unwritten) settledRest⟩
    · rintro l rfl
      exact ⟨names, List.mem_cons_self, rfl⟩
    · rintro l ⟨other, mem, same⟩
      exact ⟨other, List.mem_cons_of_mem _ mem, same⟩

/-- Going through maps again gives the same results and leaves the disk as it is. -/
theorem mapM_of_settled (quiet : s.dumpText = false)
    (settled : List.Forall₂ (Settled s catalog patches d) maps results) :
    ∃ d', Ends (maps.mapM (processMap s catalog patches)) d results d' ∧ Disk.Same d d' := by
  induction maps generalizing d results with
  | nil =>
    cases settled
    rw [List.mapM_nil]
    exact ⟨d, ends_pure.mpr ⟨rfl, rfl⟩, .refl d⟩
  | cons names maps ih =>
    cases settled with
    | cons settled others =>
      obtain ⟨m, first, same⟩ := processMap_of_settled quiet settled
      obtain ⟨d', rest, sameRest⟩ := ih (others.imp fun _ _ h => h.same same)
      exact ⟨d', ends_mapM_cons.mpr ⟨_, _, m, first, rest, rfl⟩, same.trans sameRest⟩

end Batch

end EventScript
