import EventScript.Proofs.StringPool

/-!
# Replacing the units of a container

Units are laid out before any chunk is set, so a container whose units cannot be replaced stays as it is. They can be if
each of them `Fits`, so that the numbers in its record and the places of its strings are words, and is `Storable`: its
strings and its name hold no zero, and the name leaves room for one in the record (`exists_addUnits`). What stays
of a container is `Framed`: chunks keep their places, the first one of each tag that units are laid out in gets new
data, and the tags that were missing come last (`framed_setChunks`).
-/

namespace EventScript.Container

open Shared

variable {c : Container} {tag : Tag} {data : Bytes} {k l : Chunk} {ks ls : List Chunk} {i : Nat}

/-! ### Places of chunks -/

theorem tags_setIn_of_mem (data : Bytes) (present : tag ∈ ks.map Chunk.tag) :
    (setIn tag data ks).map Chunk.tag = ks.map Chunk.tag := by
  induction ks with
  | nil => cases present
  | cons k ks ih =>
    rw [setIn]
    by_cases here : k.tag = tag
    · rw [if_pos here, List.map_cons, List.map_cons, here]
    · rw [if_neg here, List.map_cons, ih ((List.mem_cons.mp present).resolve_left (Ne.symm here)), List.map_cons]

theorem setIn_of_not_mem (data : Bytes) (absent : tag ∉ ks.map Chunk.tag) :
    setIn tag data ks = ks ++ [⟨tag, data⟩] := by
  induction ks with
  | nil => rfl
  | cons k ks ih =>
    obtain ⟨differs, absent⟩ := List.ne_and_not_mem_of_not_mem_cons absent
    rw [setIn, if_neg (Ne.symm differs), ih absent, List.cons_append]

/-- A chunk stays at its place unless it is the first one with the tag. -/
theorem getElem?_setIn (found : ks[i]? = some k) : (setIn tag data ks)[i]? =
    some (if k.tag = tag ∧ tag ∉ (ks.take i).map Chunk.tag then ⟨tag, data⟩ else k) := by
  induction ks generalizing i with
  | nil => cases found
  | cons l ks ih =>
    rw [setIn]
    cases i with
    | zero =>
      obtain rfl : l = k := Option.some.inj found
      by_cases here : l.tag = tag <;> simp [here]
    | succ i =>
      rw [List.getElem?_cons_succ] at found
      by_cases here : l.tag = tag
      · simp [here, found]
      · simp [here, ih found, Ne.symm here]

/-- The tags in front of a chunk stay. -/
theorem tags_take_setIn (found : ks[i]? = some k) :
    ((setIn tag data ks).take i).map Chunk.tag = (ks.take i).map Chunk.tag := by
  have inside : i ≤ (ks.map Chunk.tag).length := by
    rw [List.length_map]
    exact (List.getElem?_eq_some_iff.mp found).1.le
  rw [List.map_take, List.map_take]
  by_cases present : tag ∈ ks.map Chunk.tag
  · rw [tags_setIn_of_mem data present]
  · rw [setIn_of_not_mem data present, List.map_append, List.take_append_of_le_length inside]

/-- What stays of the chunks `before` when those of `ks` are set. -/
structure Framed (ks before after : List Chunk) : Prop where
  /-- A chunk with another tag, or behind one with its tag, stays as it is where it is. -/
  kept : ∀ {i : Nat} {k : Chunk}, before[i]? = some k →
    k.tag ∉ ks.map Chunk.tag ∨ k.tag ∈ (before.take i).map Chunk.tag → after[i]? = some k
  /-- The first chunk with a tag gets new data where it is. -/
  renewed : ∀ {i : Nat} {k new : Chunk}, before[i]? = some k → k.tag ∉ (before.take i).map Chunk.tag → new ∈ ks →
    new.tag = k.tag → after[i]? = some new
  /-- Behind these come the chunks with the other tags, in their order. -/
  added : after.drop before.length = ks.filter fun k => k.tag ∉ before.map Chunk.tag

theorem framed_nil (before : List Chunk) : Framed [] before before :=
  ⟨fun found _ => found, fun _ _ mem => absurd mem List.not_mem_nil, List.drop_length⟩

/-- One more chunk, whose tag none of the others has, is set in front of them. -/
theorem Framed.cons {before after : List Chunk} (new : k.tag ∉ ks.map Chunk.tag)
    (framed : Framed ks (setIn k.tag k.data before) after) : Framed (k :: ks) before after where
  kept {i l} found frozen := by
    have same : (setIn k.tag k.data before)[i]? = some l := by
      rw [getElem?_setIn found, if_neg]
      rintro ⟨same, first⟩
      rcases frozen with other | later
      · exact other (same ▸ List.mem_cons_self)
      · exact first (same ▸ later)
    refine framed.kept same (frozen.imp (fun other mem => other (List.mem_cons_of_mem _ mem)) fun later => ?_)
    rwa [tags_take_setIn found]
  renewed {i l m} found first mem same := by
    rcases List.mem_cons.mp mem with rfl | mem
    · refine framed.kept ?_ (.inl new)
      rw [getElem?_setIn found, if_pos ⟨same.symm, same ▸ first⟩]
    · have differs : l.tag ≠ k.tag := fun equal => new (equal ▸ same ▸ List.mem_map_of_mem mem)
      refine framed.renewed ?_ ?_ mem same
      · rw [getElem?_setIn found, if_neg fun h => differs h.1]
      · rwa [tags_take_setIn found]
  added := by
    by_cases present : k.tag ∈ before.map Chunk.tag
    · have tags := tags_setIn_of_mem k.data present
      have length : (setIn k.tag k.data before).length = before.length := by
        simpa using congrArg List.length tags
      rw [← length, framed.added, tags, List.filter_cons_of_neg (by simpa using present)]
    · have whole := setIn_of_not_mem k.data present
      have here : after[before.length]? = some k := framed.kept (by rw [whole]; simp) (.inl new)
      have rest := framed.added
      rw [whole, List.length_append, List.length_singleton] at rest
      rw [List.drop_eq_getElem?_toList_append, here, rest, List.filter_cons_of_pos (by simpa using present)]
      refine congrArg (k :: ·) (List.filter_congr fun l mem => ?_)
      have differs : l.tag ≠ k.tag := fun equal => new (equal ▸ List.mem_map_of_mem mem)
      simp [differs]

theorem framed_setChunks (distinct : (ks.map Chunk.tag).Nodup) : Framed ks c.chunks (c.setChunks ks).chunks := by
  induction ks generalizing c with
  | nil => exact framed_nil _
  | cons k ks ih =>
    obtain ⟨new, distinct⟩ := List.nodup_cons.mp distinct
    exact .cons new (ih (c := c.setChunk k.tag k.data) distinct)

theorem trailer_setChunks (c : Container) (ks : List Chunk) : (c.setChunks ks).trailer = c.trailer := by
  induction ks generalizing c with
  | nil => rfl
  | cons k ks ih => exact ih (c.setChunk k.tag k.data)

/-! ### Units that can be stored -/

variable {s s' t : Shared} {u : ScriptUnit} {us before : List ScriptUnit}

/-- Neither the strings nor the name of a unit hold a zero, and the name leaves room for one in its record. -/
structure Storable (u : ScriptUnit) : Prop where
  strings : ∀ text ∈ u.strings, '\x00' ∉ text.toList
  short : (Utf8.encode u.header.name).length < nameSize
  name : '\x00' ∉ u.header.name.toList

theorem not_storable : ¬ Storable u ↔ (∃ text ∈ u.strings, '\x00' ∈ text.toList) ∨
    nameSize ≤ (Utf8.encode u.header.name).length ∨ '\x00' ∈ u.header.name.toList := by
  have parts : Storable u ↔ (∀ text ∈ u.strings, '\x00' ∉ text.toList) ∧
      (Utf8.encode u.header.name).length < nameSize ∧ '\x00' ∉ u.header.name.toList :=
    ⟨fun h => ⟨h.strings, h.short, h.name⟩, fun h => ⟨h.1, h.2.1, h.2.2⟩⟩
  rw [parts, not_and_or, not_and_or, Nat.not_lt, not_not]
  simp only [not_forall, exists_prop, not_not]

/-- The numbers in the record of a unit behind others, and the offsets of its strings, are words. -/
structure Fits (before : List ScriptUnit) (u : ScriptUnit) : Prop where
  stringIndex : sumBy (fun w => w.strings.length) before ≤ 4294967295
  stringCount : u.strings.length ≤ 4294967295
  variableOffset : 4 * sumBy (fun w => w.vars.length) before ≤ 4294967295
  variableCount : u.vars.length ≤ 4294967295
  scriptOffset : sumBy (fun w => w.code.length) before ≤ 4294967295
  scriptLength : u.code.length ≤ 4294967295
  attributeOffset : attributeCount * before.length ≤ 4294967295
  offsets : PoolRoom (stringsOf (before ++ [u]))

/-- All units fit behind those in front of them. -/
def WithinLimits (us : List ScriptUnit) : Prop := ∀ i u, us[i]? = some u → Fits (us.take i) u

/-- A unit and those in front of it are part of all. -/
theorem sumBy_take_add_le (f : ScriptUnit → Nat) (given : us[i]? = some u) :
    sumBy f (us.take i) + f u ≤ sumBy f us := by
  have split : us = us.take (i + 1) ++ us.drop (i + 1) := (List.take_append_drop ..).symm
  rw [List.take_add_one, given] at split
  conv_rhs => rw [split, sumBy_append, Option.toList_some, sumBy_snoc]
  exact Nat.le_add_right _ _

/-- Units fit if the data of every chunk that is made of them is below 4 GiB. -/
theorem withinLimits_of_small (strings : 4 * sumBy (fun w => w.strings.length) us ≤ 4294967295)
    (vars : 4 * sumBy (fun w => w.vars.length) us ≤ 4294967295)
    (code : sumBy (fun w => w.code.length) us ≤ 4294967295) (attributes : attributeCount * us.length ≤ 4294967295)
    (pool : (poolOf (stringsOf us).eraseDups).length ≤ 4294967295) : WithinLimits us := by
  intro i u given
  have inside : (us.take i).length ≤ us.length := List.length_take_le' ..
  have strings' := sumBy_take_add_le (fun w => w.strings.length) given
  have vars' := sumBy_take_add_le (fun w => w.vars.length) given
  have code' := sumBy_take_add_le (fun w => w.code.length) given
  have offsets : PoolRoom (stringsOf (us.take i ++ [u])) := by
    have split : us = us.take i ++ [u] ++ us.drop (i + 1) := by
      rw [← Option.toList_some, ← given, ← List.take_add_one, List.take_append_drop]
    have room := poolRoom_of_length pool
    rw [split, stringsOf, List.flatMap_append] at room
    exact room.of_append
  exact {
    stringIndex := by omega
    stringCount := by omega
    variableOffset := by omega
    variableCount := by omega
    scriptOffset := by omega
    scriptLength := by omega
    attributeOffset := Nat.le_trans (Nat.mul_le_mul_left _ inside) attributes
    offsets }

theorem exists_encode_place : (∃ record, (s.place u).encode = .ok record) ↔
    (Utf8.encode u.header.name).length < nameSize ∧ '\x00' ∉ u.header.name.toList := by
  rw [← Utf8.zero_mem_encode]
  constructor
  · rintro ⟨record, stored⟩
    obtain ⟨name, fits, -⟩ := Header.encode_eq_ok.mp stored
    obtain ⟨short, free, -⟩ := Header.encodeName_eq_ok.mp fits
    exact ⟨short, free⟩
  · rintro ⟨short, free⟩
    exact ⟨_, Header.encode_eq_ok.mpr ⟨_, Header.encodeName_eq_ok.mpr ⟨short, free, rfl⟩, rfl⟩⟩

/-- A unit can be added behind others exactly if it can be stored and fits. -/
theorem exists_addUnit (laid : Laid before s) (pools : Pools before s) :
    (∃ s', s.addUnit u = .ok s') ↔ Storable u ∧ Fits before u := by
  constructor
  · rintro ⟨s', added⟩
    obtain ⟨room, m, record, texts, stored, -⟩ := addUnit_eq_ok.mp added
    obtain ⟨free, offsets, -⟩ := pools.addStrings.mp texts
    obtain ⟨short, name⟩ := exists_encode_place.mp ⟨record, stored⟩
    exact ⟨⟨free, short, name⟩, laid.offsets ▸ room.stringIndex, room.stringCount, laid.vars ▸ room.variableOffset,
      room.variableCount, laid.code ▸ room.scriptOffset, room.scriptLength, laid.attributes ▸ room.attributeOffset,
      offsets⟩
  · rintro ⟨storable, fits⟩
    obtain ⟨record, stored⟩ := exists_encode_place.mpr ⟨storable.short, storable.name⟩
    have room : Room s u := ⟨laid.offsets ▸ fits.stringIndex, fits.stringCount, laid.vars ▸ fits.variableOffset,
      fits.variableCount, laid.code ▸ fits.scriptOffset, fits.scriptLength, laid.attributes ▸ fits.attributeOffset⟩
    exact ⟨_, addUnit_eq_ok.mpr ⟨room, _, record, pools.addStrings.mpr ⟨storable.strings, fits.offsets, rfl⟩, stored,
      rfl⟩⟩

/-- Units can be added behind others exactly if all can be stored and fit. -/
theorem exists_addUnits (laid : Laid before s) (pooled : s.Pooled) (pools : Pools before s) :
    (∃ t, us.foldlM Shared.addUnit s = .ok t) ↔
      (∀ u ∈ us, Storable u) ∧ ∀ i u, us[i]? = some u → Fits (before ++ us.take i) u := by
  induction us generalizing before s with
  | nil => exact ⟨fun _ => ⟨by simp, by simp⟩, fun _ => ⟨s, rfl⟩⟩
  | cons u us ih =>
    have step : ∀ {m}, s.addUnit u = .ok m → ((∃ t, us.foldlM Shared.addUnit m = .ok t) ↔
        (∀ v ∈ us, Storable v) ∧ ∀ i v, us[i]? = some v → Fits (before ++ [u] ++ us.take i) v) := by
      intro m added
      have adds := addUnit_adds pooled added
      exact ih (laid.addUnit adds) adds.pooled (pools.addUnit added)
    constructor
    · rintro ⟨t, run⟩
      rw [List.foldlM_cons] at run
      obtain ⟨m, first, rest⟩ := bind_eq_ok.mp run
      obtain ⟨storable, fits⟩ := (exists_addUnit laid pools).mp ⟨m, first⟩
      obtain ⟨others, fit⟩ := (step first).mp ⟨t, rest⟩
      refine ⟨List.forall_mem_cons.mpr ⟨storable, others⟩, fun i v given => ?_⟩
      cases i with
      | zero =>
        obtain rfl : u = v := Option.some.inj given
        rwa [List.take_zero, List.append_nil]
      | succ i =>
        have later := fit i v given
        rwa [List.append_assoc, List.singleton_append] at later
    · rintro ⟨all, fit⟩
      obtain ⟨storable, others⟩ := List.forall_mem_cons.mp all
      have fits := fit 0 u rfl
      rw [List.take_zero, List.append_nil] at fits
      obtain ⟨m, first⟩ := (exists_addUnit laid pools).mpr ⟨storable, fits⟩
      obtain ⟨t, rest⟩ := (step first).mpr ⟨others, fun i v given => by
        rw [List.append_assoc, List.singleton_append]
        exact fit (i + 1) v given⟩
      exact ⟨t, by rw [List.foldlM_cons, first, ok_bind, rest]⟩

/-- Units can be replaced exactly if all can be stored and fit. -/
theorem exists_replaceUnits : (∃ c', c.replaceUnits us = .ok c') ↔ (∀ u ∈ us, Storable u) ∧ WithinLimits us := by
  have laidOut : (∃ t, us.foldlM Shared.addUnit {} = .ok t) ↔ (∀ u ∈ us, Storable u) ∧ WithinLimits us :=
    exists_addUnits laid_nil pooled_nil pools_nil
  rw [← laidOut]
  constructor
  · rintro ⟨c', replaced⟩
    obtain ⟨t, run, -⟩ := replaceUnits_eq_ok.mp replaced
    exact ⟨t, run⟩
  · rintro ⟨t, run⟩
    exact ⟨_, replaceUnits_eq_ok.mpr ⟨t, run, rfl⟩⟩

/-! ### Containers that are held -/

/-- Replaces the units of a container that is held: the chunks are set one after the other, in place. -/
def replaceInPlace (us : List ScriptUnit) : ExceptT Fault (StateM Container) Unit := do
  let shared ← (us.foldlM Shared.addUnit {} : Except Fault Shared)
  shared.chunks.forM fun k => modify fun c => c.setChunk k.tag k.data

theorem run_setChunks (ks : List Chunk) (c : Container) :
    StateT.run (ExceptT.run (ks.forM fun k => modify fun c => c.setChunk k.tag k.data :
      ExceptT Fault (StateM Container) Unit)) c = (Except.ok (), c.setChunks ks) := by
  induction ks generalizing c with
  | nil => rfl
  | cons k ks ih => exact ih (c.setChunk k.tag k.data)

/-- Units that cannot be laid out are refused before any chunk is set. -/
theorem run_replaceInPlace_of_error {e : Fault} (refused : us.foldlM Shared.addUnit {} = .error e) (c : Container) :
    StateT.run (replaceInPlace us).run c = (Except.error e, c) := by
  rw [replaceInPlace, refused]
  rfl

theorem run_replaceInPlace_of_ok (run : us.foldlM Shared.addUnit {} = .ok t) (c : Container) :
    StateT.run (replaceInPlace us).run c = (Except.ok (), c.setChunks t.chunks) := by
  rw [replaceInPlace, run]
  exact run_setChunks t.chunks c

theorem replaceUnits_eq_error {e : Fault} : c.replaceUnits us = .error e ↔ us.foldlM Shared.addUnit {} = .error e := by
  rw [replaceUnits, bind_eq_error]
  constructor
  · rintro (refused | ⟨t, -, ⟨⟩⟩)
    exact refused
  · exact .inl

/-- The tags of the chunks that are made of units, in the order in which missing ones are added. -/
def derivedTags : List Tag := [.units, .code, .pool, .offsets, .vars, .attributes, .storage]

/-- Replacing units is all or nothing. It fails if a string or a name cannot be stored or something does not fit, and
then the container stays as it is. Otherwise the chunks stay where they are, only the first ones with the tags for
units get new data, and those of the tags that are missing come last. -/
theorem replaceUnits_atomic (c : Container) (us : List ScriptUnit) :
    (∀ e, c.replaceUnits us = .error e → StateT.run (replaceInPlace us).run c = (Except.error e, c)) ∧
    ((∃ e, c.replaceUnits us = .error e) ↔
      (∃ u ∈ us, (∃ text ∈ u.strings, '\x00' ∈ text.toList) ∨ nameSize ≤ (Utf8.encode u.header.name).length ∨
        '\x00' ∈ u.header.name.toList) ∨ ¬ WithinLimits us) ∧
    ∀ c', c.replaceUnits us = .ok c' → StateT.run (replaceInPlace us).run c = (Except.ok (), c') ∧
      c'.trailer = c.trailer ∧ ∃ t, us.foldlM Shared.addUnit {} = .ok t ∧ t.chunks.map Chunk.tag = derivedTags ∧
        Framed t.chunks c.chunks c'.chunks := by
  refine ⟨fun e refused => run_replaceInPlace_of_error (replaceUnits_eq_error.mp refused) c, ?_, fun c' replaced => ?_⟩
  · have storable : (∃ u ∈ us, (∃ text ∈ u.strings, '\x00' ∈ text.toList) ∨
        nameSize ≤ (Utf8.encode u.header.name).length ∨ '\x00' ∈ u.header.name.toList) ↔
        ¬ ∀ u ∈ us, Storable u := by
      simp only [not_storable, not_forall, exists_prop]
    rw [storable, ← not_and_or, ← exists_replaceUnits (c := c)]
    cases c.replaceUnits us with
    | error e => simp
    | ok c' => simp
  · obtain ⟨t, run, rfl⟩ := replaceUnits_eq_ok.mp replaced
    refine ⟨run_replaceInPlace_of_ok run c, trailer_setChunks c t.chunks, t, run, tags_chunks t, framed_setChunks ?_⟩
    rw [tags_chunks]
    decide

/-- Units the last of which has a string that cannot be stored. -/
def mutedEchoes : List ScriptUnit :=
  echoes ++ [{ header := { name := "Mute" }, strings := ["or", "\x00"], vars := [], code := [], attributes := [] }]

/-- Of the two chunks for records in the container, the second one stays, and a fault in the last unit leaves all as
it is. -/
theorem replaceUnits_atomic_crowded :
    (∃ c', StateT.run (replaceInPlace echoes).run crowded = (Except.ok (), c') ∧ c'.trailer = [9] ∧
      c'.chunks[1]? = some ⟨⟨0x4D, 0x45, 0x54, 0x41⟩, [7]⟩ ∧ c'.chunks[2]? = some ⟨.units, [3]⟩ ∧
      (c'.chunks.drop 3).map Chunk.tag = [.code, .pool, .offsets, .vars, .attributes, .storage]) ∧
    ∃ e, StateT.run (replaceInPlace mutedEchoes).run crowded = (Except.error e, crowded) := by
  constructor
  · obtain ⟨-, refused, framed⟩ := replaceUnits_atomic crowded echoes
    have fits : WithinLimits echoes :=
      withinLimits_of_small (by decide) (by decide) (by decide) (by decide) (by decide +kernel)
    have storable : ¬ ∃ u ∈ echoes, (∃ text ∈ u.strings, '\x00' ∈ text.toList) ∨
        nameSize ≤ (Utf8.encode u.header.name).length ∨ '\x00' ∈ u.header.name.toList := by
      decide +kernel
    cases replaced : crowded.replaceUnits echoes with
    | error e => exact absurd (refused.mp ⟨e, replaced⟩) (not_or_intro storable (not_not_intro fits))
    | ok c' =>
      obtain ⟨run, trailer, t, -, tags, kept⟩ := framed c' replaced
      refine ⟨c', run, trailer, kept.kept rfl (.inl ?_), kept.kept rfl (.inr ?_), ?_⟩
      · rw [tags]
        decide
      · decide
      · rw [show 3 = crowded.chunks.length from rfl, kept.added]
        rfl
  · obtain ⟨unchanged, refused, -⟩ := replaceUnits_atomic crowded mutedEchoes
    obtain ⟨e, failed⟩ := refused.mpr (.inl ⟨_, List.mem_concat_self, .inl ⟨"\x00", by simp, by decide⟩⟩)
    exact ⟨e, unchanged e failed⟩

end EventScript.Container
