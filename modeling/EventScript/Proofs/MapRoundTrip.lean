import EventScript.Batch.Recompile
import EventScript.Proofs.Rereading
import EventScript.Proofs.RoundTrip
import EventScript.Proofs.Storing

/-!
# Maps that listings give back

A map that was made from a text, with other chunks in its container, is given back byte by byte by its own
listing (`roundtripMap_assembled`). The units that are read agree with those of the text, so that their
listing is the same; it assembles to the units of the text; and laying these out once more in a container
that has them already changes nothing.
-/

namespace EventScript

variable {catalog : Catalog} {u v : ScriptUnit} {us vs : List ScriptUnit} {c c' : Container}

/-! ### Listings -/

/-- Windows do not show in a listing. -/
theorem ScriptUnit.Agrees.listing (h : u.Agrees v) : v.listing catalog = u.listing catalog := by
  obtain ⟨name, instances, kind, entry, -, -, strings, vars, code, attributes⟩ := h
  rcases u with ⟨⟨⟩, _, _, _, _⟩
  rcases v with ⟨⟨⟩, _, _, _, _⟩
  cases name
  cases instances
  cases kind
  cases entry
  cases strings
  cases vars
  cases code
  cases attributes
  rfl

theorem listings_of_agrees (h : List.Forall₂ ScriptUnit.Agrees us vs) :
    ScriptUnit.listings catalog vs = ScriptUnit.listings catalog us := by
  induction h with
  | nil => rfl
  | cons first rest ih =>
    cases rest with
    | nil => exact first.listing
    | cons => exact congrArg₂ (fun x y => do return (← x) ++ "" :: (← y)) first.listing ih

namespace Assembly

/-- Units that assembly made have a listing that gives them back. -/
theorem exists_listings_restoring (sound : catalog.Sound) (clean : catalog.Clean)
    (compiled : ∀ u ∈ us, ∃ body, Compiled catalog catalog.KeepsKinds body u) (chained : Chained 0 us)
    (room : codeLength us ≤ 4294967295) (small : ∀ u ∈ us, u.code.length ≤ 65535)
    (distinct : ∀ u ∈ us, u.strings.Nodup) (start : ∀ u ∈ us, u.StartsAtStatement) :
    ∃ text, (ScriptUnit.listings catalog us).result = .ok text ∧
      ∀ map, (assemble catalog map text).result = .ok us := by
  obtain ⟨restorable, same⟩ := restoredUnits_eq chained compiled small distinct start
  obtain ⟨text, listed⟩ := exists_listings fun u mem => ⟨_, (restorable u mem).statements⟩
  refine ⟨text, listed, fun map => ?_⟩
  rw [assemble_listings sound clean restorable listed room map, same]

/-- A unit that starts at a statement does not start behind its code. -/
theorem Compiled.entry_le {P : String → Prop} {body : List Code.Statement} (h : Compiled catalog P body u)
    (small : u.code.length ≤ 65535) (start : u.StartsAtStatement) : u.header.entry.toNat ≤ u.code.length := by
  rcases start with zero | last | ⟨body', decoded, mem⟩
  · rw [zero]
    exact Nat.zero_le _
  · exact Nat.le_of_eq last
  · rw [h.decode small] at decoded
    cases decoded
    have bound := Code.blockStarts_bound _ 0 mem
    rw [h.size] at bound
    omega

end Assembly

/-! ### Containers -/

/-- Laying out units that are there already changes nothing. -/
theorem Container.replaceUnits_again (replaced : c.replaceUnits us = .ok c') : c'.replaceUnits us = .ok c' := by
  obtain ⟨t, run, rfl⟩ := replaceUnits_eq_ok.mp replaced
  exact replaceUnits_eq_ok.mpr ⟨t, run, (setChunks_of_chunk? fun k mem => chunk?_replaced c t mem).symm⟩

namespace MapFile

theorem decode_eq_ok {raw : Bytes} {m : MapFile} : decode raw = .ok m ↔
    Container.decode raw = .ok m.container ∧ m.container.units = .ok m.units := by
  rw [decode, bind_eq_ok]
  constructor
  · rintro ⟨container, first, h⟩
    obtain ⟨units, second, last⟩ := bind_eq_ok.mp h
    cases last
    exact ⟨first, second⟩
  · rintro ⟨first, second⟩
    exact ⟨m.container, first, bind_eq_ok.mpr ⟨m.units, second, rfl⟩⟩

theorem rebuild_eq_ok {map : String} {m : MapFile} {lines : List String} {bytes : Bytes} :
    (m.rebuild catalog map lines).result = .ok bytes ↔ ∃ us c, (Assembly.assemble catalog map lines).result = .ok us ∧
      m.container.replaceUnits us = .ok c ∧ c.encode = .ok bytes := by
  rw [rebuild, Traced.result_bind_eq_ok]
  refine exists_congr fun us => ?_
  rw [Traced.result_bind_eq_ok]
  constructor
  · rintro ⟨assembled, c, replaced, encoded⟩
    exact ⟨c, assembled, replaced, encoded⟩
  · rintro ⟨c, assembled, replaced, encoded⟩
    exact ⟨assembled, c, replaced, encoded⟩

end MapFile

/-- The steps that compare a map with what its listing gives. -/
theorem result_roundtripMap {path : String} {d : Disk} {raw bytes : Bytes} {m : MapFile} {lines : List String}
    (read : d.read path = .ok raw) (decoded : MapFile.decode raw = .ok m)
    (listed : (m.listing catalog).result = .ok lines)
    (rebuilt : (m.rebuild catalog (mapKey path) lines).result = .ok bytes) :
    (roundtripMap catalog path d).1.result = .ok (decide (bytes = raw)) := by
  have fetched : (Job.fetch path d).1.result = .ok raw := mapError_eq_ok.mpr read
  refine Job.result_bind_eq_ok.mpr ⟨raw, fetched, ?_⟩
  refine Job.result_bind_eq_ok.mpr ⟨m, decoded, ?_⟩
  refine Job.result_bind_eq_ok.mpr ⟨lines, listed, ?_⟩
  exact Job.result_bind_eq_ok.mpr ⟨bytes, rebuilt, rfl⟩

open Assembly in
/-- A map made from a text and other chunks is given back by its listing byte by byte, under the conditions
that give back its units. -/
theorem roundtripMap_assembled {sources : Catalog.Sources}
    (accepted : (Catalog.ofSources sources).result = .ok catalog) (clean : catalog.Clean) {map : String}
    {lines : List String} (assembled : (assemble catalog map lines).result = .ok us)
    (small : ∀ u ∈ us, u.code.length ≤ 65535) (distinct : ∀ u ∈ us, u.strings.Nodup)
    (start : ∀ u ∈ us, u.StartsAtStatement)
    (called : ∀ name ∈ Source.calledNames catalog lines, ¬ catalog.Aliases name)
    {extra : List Chunk} (open_ : ∀ k ∈ extra, k.tag ≠ .terminator)
    (replaced : (Container.empty.setChunks extra).replaceUnits us = .ok c) {bytes : Bytes}
    (encoded : c.encode = .ok bytes) {path : String} {d : Disk}
    (written : (Job.store path bytes d).1.result = .ok ()) :
    (roundtripMap catalog path (Job.store path bytes d).2).1.result = .ok true := by
  have sound := Catalog.sound_ofSources accepted
  obtain ⟨compiled, chained, room⟩ := assemble_compiled (P := catalog.KeepsKinds) assembled
    fun name mem => sound.keepsKinds (called name mem)
  -- the units that are read from the map agree with those of the text
  have proper : c.Proper := ((Container.proper_nil []).setChunks open_).replaceUnits replaced
  have inside : ∀ u ∈ us, u.header.entry.toNat ≤ u.code.length := fun u mem => by
    obtain ⟨body, h⟩ := compiled u mem
    exact h.entry_le (small u mem) (start u mem)
  obtain ⟨vs, units⟩ := Container.exists_units_replaceUnits replaced inside
  have agrees := StoredUnits.agrees (Container.storedUnits_replaceUnits replaced units).2 compiled chained
  -- so they have the listing that assembles to the units of the text
  obtain ⟨text, listed, again⟩ := exists_listings_restoring sound clean compiled chained (room small) small
    distinct start
  have decoded : MapFile.decode bytes = .ok ⟨c, vs⟩ :=
    MapFile.decode_eq_ok.mpr ⟨Container.decode_encode proper encoded, units⟩
  have shown : (MapFile.listing catalog ⟨c, vs⟩).result = .ok text := by
    rw [MapFile.listing, listings_of_agrees agrees, listed]
  have rebuilt : (MapFile.rebuild catalog (mapKey path) ⟨c, vs⟩ text).result = .ok bytes :=
    MapFile.rebuild_eq_ok.mpr ⟨us, c, again _, Container.replaceUnits_again replaced, encoded⟩
  rw [result_roundtripMap (Job.read_store written) decoded shown rebuilt, decide_eq_true rfl]

open Assembly Container in
/-- Two units in a map with a chunk of its own; the units of another map were in it before. -/
theorem roundtripMap_keeper : ∃ c bytes,
    (Container.empty.setChunks crowded.chunks).replaceUnits keeperUnits = .ok c ∧ c.encode = .ok bytes ∧
      (roundtripMap .village "in/island.map" (Job.store "in/island.map" bytes Disk.empty).2).1.result = .ok true := by
  obtain ⟨bytes, made⟩ : ∃ bytes,
      (Container.empty.setChunks crowded.chunks).replaceUnits keeperUnits >>= Container.encode = .ok bytes :=
    exists_eq_ok_of_toOption (by decide +kernel)
  obtain ⟨c, replaced, encoded⟩ := bind_eq_ok.mp made
  refine ⟨c, bytes, replaced, encoded, ?_⟩
  refine roundtripMap_assembled Catalog.village_accepted Catalog.village_clean assemble_keeperText (by decide)
    (by decide) ?_ (by decide +kernel) (by decide) replaced encoded ?_
  · refine List.forall_mem_cons.mpr ⟨.inr (.inr ?_), List.forall_mem_singleton.mpr (.inr (.inl (by decide)))⟩
    exact ⟨_, rfl, by decide⟩
  · rfl

end EventScript
