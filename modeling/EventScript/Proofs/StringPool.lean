import EventScript.Proofs.Layout
import Mathlib.Data.List.Infix
import Mathlib.Data.List.Nodup
import Mathlib.Data.List.TakeWhile

/-!
# The pool of strings

Units share one pool, in which every string stands once. The pool is a function of the texts that were added so far
(`pooling`): it holds each of them in the order in which they first came, and a text begins where the texts in front of
it end (`placeIn`). Further texts only grow the pool at its end, so the place of a text stays (`placeIn_append`), and
since every text takes at least the byte of its zero, different texts have different places (`placeIn_inj`), the empty
text and one that ends another included. `pool_replaceUnits` says what the chunks hold after units were replaced.
-/

namespace EventScript.Container

open Shared

variable {texts more : List String} {text other : String}

/-! ### Places in a pool -/

/-- Strings as a pool holds them: one after the other, with a zero after each. -/
def poolOf (texts : List String) : Bytes := texts.flatMap fun text => Utf8.encode text ++ [0]

/-- Where a text begins in the pool of some texts, which holds each of them once. -/
def placeIn (texts : List String) (text : String) : Nat :=
  (poolOf (texts.eraseDups.takeWhile fun other => other != text)).length

theorem poolOf_append (texts more : List String) : poolOf (texts ++ more) = poolOf texts ++ poolOf more :=
  List.flatMap_append

theorem eq_nil_of_length_poolOf (empty : (poolOf texts).length = 0) : texts = [] := by
  cases texts with
  | nil => rfl
  | cons text texts =>
    rw [poolOf, List.flatMap_cons, List.length_append, List.length_append, List.length_singleton] at empty
    omega

/-- A list up to the first occurrence of a member, and from there on. -/
theorem exists_takeWhile (mem : text ∈ texts) :
    ∃ back, texts = texts.takeWhile (fun other => other != text) ++ text :: back := by
  induction texts with
  | nil => cases mem
  | cons first texts ih =>
    by_cases here : first = text
    · exact ⟨texts, by simp [here]⟩
    · obtain ⟨back, equal⟩ := ih ((List.mem_cons.mp mem).resolve_left (Ne.symm here))
      refine ⟨back, ?_⟩
      rw [List.takeWhile_cons_of_pos (by simpa using here), List.cons_append, ← equal]

theorem takeWhile_append_of_mem (mem : text ∈ texts) (more : List String) :
    (texts ++ more).takeWhile (fun other => other != text) = texts.takeWhile fun other => other != text := by
  obtain ⟨back, equal⟩ := exists_takeWhile mem
  have front : ∀ other ∈ texts.takeWhile (fun other => other != text), (other != text) = true :=
    fun _ => List.mem_takeWhile_imp
  conv_lhs => rw [equal]
  rw [List.append_assoc, List.takeWhile_append_of_pos front, List.cons_append,
    List.takeWhile_cons_of_neg (by simp), List.append_nil]

/-- More texts leave a text where it is. -/
theorem placeIn_append (mem : text ∈ texts) (more : List String) :
    placeIn (texts ++ more) text = placeIn texts text := by
  rw [placeIn, List.eraseDups_append, takeWhile_append_of_mem (List.mem_eraseDups.mpr mem), placeIn]

theorem eraseDups_concat_of_mem (mem : text ∈ texts) : (texts ++ [text]).eraseDups = texts.eraseDups := by
  rw [List.eraseDups_append]
  simp [List.removeAll, mem]

theorem eraseDups_concat_of_not_mem (new : text ∉ texts) :
    (texts ++ [text]).eraseDups = texts.eraseDups ++ [text] := by
  rw [List.eraseDups_append, List.append_right_inj]
  simp only [List.removeAll, List.filter_singleton, List.elem_eq_contains, List.contains_eq_mem, new]
  rfl

theorem nodup_eraseDups (texts : List String) : texts.eraseDups.Nodup := by
  induction texts using List.reverseRecOn with
  | nil => exact List.nodup_nil
  | append_singleton texts text ih =>
    by_cases mem : text ∈ texts
    · rwa [eraseDups_concat_of_mem mem]
    · rw [eraseDups_concat_of_not_mem mem, ← List.concat_eq_append]
      exact List.Nodup.concat (fun known => mem (List.mem_eraseDups.mp known)) ih

/-- A new text begins where the pool ends. -/
theorem placeIn_concat (new : text ∉ texts) : placeIn (texts ++ [text]) text = (poolOf texts.eraseDups).length := by
  have others : ∀ other ∈ texts.eraseDups, (other != text) = true := by
    intro other mem
    simpa using fun same : other = text => new (same ▸ List.mem_eraseDups.mp mem)
  rw [placeIn, eraseDups_concat_of_not_mem new, List.takeWhile_append_of_pos others,
    List.takeWhile_cons_of_neg (by simp), List.append_nil]

/-- Of two texts, one has all texts in front of it that the other one has. -/
theorem placeIn_inj_of_fronts (mem : text ∈ texts) (mem' : other ∈ texts)
    (fronts : texts.takeWhile (fun x => x != text) <+: texts.takeWhile (fun x => x != other))
    (same : (poolOf (texts.takeWhile fun x => x != text)).length =
      (poolOf (texts.takeWhile fun x => x != other)).length) : text = other := by
  obtain ⟨between, equal⟩ := fronts
  obtain ⟨back, split⟩ := exists_takeWhile mem
  obtain ⟨back', split'⟩ := exists_takeWhile mem'
  -- what lies between them has no bytes, so there is nothing
  rw [← equal, poolOf_append, List.length_append] at same
  have nothing : between = [] := eq_nil_of_length_poolOf (by omega)
  rw [nothing, List.append_nil] at equal
  have tails := List.append_cancel_left (split.symm.trans (equal.symm ▸ split'))
  exact (List.cons.inj tails).1

/-- Different texts begin at different places. -/
theorem placeIn_inj (mem : text ∈ texts) (mem' : other ∈ texts) (same : placeIn texts text = placeIn texts other) :
    text = other := by
  rw [← List.mem_eraseDups] at mem mem'
  rcases List.prefix_or_prefix_of_prefix ( List.takeWhile_prefix fun x => x != text)
    ( List.takeWhile_prefix (l := texts.eraseDups) fun x => x != other) with fronts | fronts
  · exact placeIn_inj_of_fronts mem mem' fronts same
  · exact (placeIn_inj_of_fronts mem' mem fronts same.symm).symm

/-- The offsets of all texts are words. -/
def PoolRoom (texts : List String) : Prop := ∀ text ∈ texts, placeIn texts text ≤ 4294967295

theorem PoolRoom.of_append (room : PoolRoom (texts ++ more)) : PoolRoom texts := by
  intro text mem
  rw [← placeIn_append mem more]
  exact room text (List.mem_append_left more mem)

/-- There is room for the offsets if the pool is below 4 GiB. -/
theorem poolRoom_of_length (small : (poolOf texts.eraseDups).length ≤ 4294967295) : PoolRoom texts := by
  intro text mem
  obtain ⟨back, split⟩ := exists_takeWhile (List.mem_eraseDups.mpr mem)
  rw [split, poolOf_append, List.length_append] at small
  exact Nat.le_trans (Nat.le_add_right _ _) small

theorem poolRoom_concat : PoolRoom (texts ++ [text]) ↔
    PoolRoom texts ∧ (text ∈ texts ∨ (poolOf texts.eraseDups).length ≤ 4294967295) := by
  constructor
  · intro room
    refine ⟨room.of_append, or_iff_not_imp_left.mpr fun new => ?_⟩
    rw [← placeIn_concat new]
    exact room text List.mem_concat_self
  · rintro ⟨room, known | small⟩ other mem
    · have old : other ∈ texts := (List.mem_append.mp mem).elim id fun last => List.mem_singleton.mp last ▸ known
      rw [placeIn_append old]
      exact room other old
    · by_cases old : other ∈ texts
      · rw [placeIn_append old]
        exact room other old
      · obtain rfl := List.mem_singleton.mp ((List.mem_append.mp mem).resolve_left old)
        rwa [placeIn_concat old]

namespace Shared

variable {s s' t : Shared} {u : ScriptUnit} {us before : List ScriptUnit}

/-! ### The pool of the texts that were added -/

/-- The shared data with the pool of some texts and their offsets. -/
def pooling (s : Shared) (texts : List String) : Shared := { s with
  pool := poolOf texts.eraseDups
  poolOffsets := texts.eraseDups.map fun text => (text, UInt32.ofNat (placeIn texts text))
  offsets := texts.map fun text => UInt32.ofNat (placeIn texts text) }

theorem lookup_pooling (s : Shared) (texts : List String) (text : String) :
    (s.pooling texts).poolOffsets.lookup text =
      if text ∈ texts then some (UInt32.ofNat (placeIn texts text)) else none := by
  split
  · next mem => exact List.lookup_graph (fun text => UInt32.ofNat (placeIn texts text)) (List.mem_eraseDups.mpr mem)
  · next new =>
    rw [pooling, List.lookup_eq_none_iff]
    intro entry mem
    obtain ⟨other, known, rfl⟩ := List.mem_map.mp mem
    simpa using fun same : text = other => new (same ▸ List.mem_eraseDups.mp known)

/-- What is said of known texts by their places stays when there are more. -/
theorem map_placeIn_append {β : Type} (f : String → Nat → β) {known : List String} (mem : ∀ text ∈ known, text ∈ texts)
    (more : List String) : (known.map fun text => f text (placeIn (texts ++ more) text)) =
      known.map fun text => f text (placeIn texts text) :=
  List.map_congr_left fun text h => by rw [placeIn_append (mem text h)]

theorem table_append (texts more : List String) :
    (texts.eraseDups.map fun text => (text, UInt32.ofNat (placeIn (texts ++ more) text))) =
      texts.eraseDups.map fun text => (text, UInt32.ofNat (placeIn texts text)) :=
  map_placeIn_append (fun text n => (text, UInt32.ofNat n)) (fun _ => List.mem_eraseDups.mp) more

theorem offsets_append (texts more : List String) :
    (texts.map fun text => UInt32.ofNat (placeIn (texts ++ more) text)) =
      texts.map fun text => UInt32.ofNat (placeIn texts text) :=
  map_placeIn_append (fun _ n => UInt32.ofNat n) (fun _ => id) more

theorem pooling_concat_of_mem (s : Shared) (mem : text ∈ texts) : s.pooling (texts ++ [text]) =
    { s.pooling texts with
      offsets := (s.pooling texts).offsets ++ [UInt32.ofNat (placeIn texts text)] } := by
  simp only [pooling, eraseDups_concat_of_mem mem, table_append, List.map_append, List.map_singleton,
    offsets_append, placeIn_append mem]

theorem pooling_concat_of_not_mem (s : Shared) (new : text ∉ texts) : s.pooling (texts ++ [text]) =
    { s.pooling texts with
      pool := poolOf texts.eraseDups ++ Utf8.encode text ++ [0]
      poolOffsets := (s.pooling texts).poolOffsets ++ [(text, UInt32.ofNat (poolOf texts.eraseDups).length)]
      offsets := (s.pooling texts).offsets ++ [UInt32.ofNat (poolOf texts.eraseDups).length] } := by
  have bytes : poolOf [text] = Utf8.encode text ++ [0] := List.flatMap_singleton ..
  simp only [pooling, eraseDups_concat_of_not_mem new, table_append, List.map_append, List.map_singleton,
    offsets_append, placeIn_concat new, poolOf_append, bytes, List.append_assoc]

/-- A string is added if it holds no zero and, unless the pool has it, its place is a word. -/
theorem addString_pooling {unit : String} : addString unit (s.pooling texts) text = .ok s' ↔
    '\x00' ∉ text.toList ∧ (text ∈ texts ∨ (poolOf texts.eraseDups).length ≤ 4294967295) ∧
      s' = s.pooling (texts ++ [text]) := by
  rw [addString, lookup_pooling]
  simp only [List.contains_iff_mem]
  by_cases zero : '\x00' ∈ text.toList
  · rw [if_pos zero]
    constructor
    · intro h
      cases h
    · exact fun h => absurd zero h.1
  · rw [if_neg zero]
    by_cases mem : text ∈ texts
    · rw [if_pos mem, pooling_concat_of_mem s mem]
      exact ⟨fun h => ⟨zero, .inl mem, (Except.ok.inj h).symm⟩, fun h => congrArg Except.ok h.2.2.symm⟩
    · rw [if_neg mem, pooling_concat_of_not_mem s mem]
      refine bind_eq_ok.trans ⟨?_, ?_⟩
      · rintro ⟨offset, word, last⟩
        obtain ⟨small, rfl⟩ := wordFor_eq_ok.mp word
        exact ⟨zero, .inr small, (Except.ok.inj last).symm⟩
      · rintro ⟨-, known, rfl⟩
        exact ⟨_, wordFor_eq_ok.mpr ⟨known.resolve_left mem, rfl⟩, rfl⟩

/-- Strings are added if none holds a zero and the places of all are words. -/
theorem addStrings_pooling {unit : String} (room : PoolRoom texts) :
    more.foldlM (addString unit) (s.pooling texts) = .ok s' ↔
      (∀ text ∈ more, '\x00' ∉ text.toList) ∧ PoolRoom (texts ++ more) ∧ s' = s.pooling (texts ++ more) := by
  induction more generalizing texts with
  | nil =>
    rw [List.append_nil]
    exact ⟨fun h => ⟨by simp, room, (Except.ok.inj h).symm⟩, fun h => congrArg Except.ok h.2.2.symm⟩
  | cons text more ih =>
    have whole : texts ++ text :: more = texts ++ [text] ++ more := by simp
    rw [List.foldlM_cons, bind_eq_ok, List.forall_mem_cons, whole]
    constructor
    · rintro ⟨m, first, rest⟩
      obtain ⟨free, known, rfl⟩ := addString_pooling.mp first
      obtain ⟨others, room', last⟩ := (ih (poolRoom_concat.mpr ⟨room, known⟩)).mp rest
      exact ⟨⟨free, others⟩, room', last⟩
    · rintro ⟨⟨free, others⟩, room', last⟩
      have next := room'.of_append
      exact ⟨_, addString_pooling.mpr ⟨free, (poolRoom_concat.mp next).2, rfl⟩,
        (ih next).mpr ⟨others, room', last⟩⟩

/-! ### The pool of units -/

/-- The strings of units, in their order. -/
def stringsOf (us : List ScriptUnit) : List String := us.flatMap ScriptUnit.strings

/-- How many variables all instances of some units have. -/
def slotsOf (us : List ScriptUnit) : Nat := sumBy (fun u => u.header.instances.toNat * u.vars.length) us

/-- The pool holds the strings of some units, and the variables of their instances are counted. -/
structure Pools (us : List ScriptUnit) (s : Shared) : Prop where
  pool : s = s.pooling (stringsOf us)
  room : PoolRoom (stringsOf us)
  slots : s.slots = slotsOf us

theorem pools_nil : Pools [] {} := ⟨rfl, by simp [PoolRoom, stringsOf], rfl⟩

theorem stringsOf_concat (us : List ScriptUnit) (u : ScriptUnit) :
    stringsOf (us ++ [u]) = stringsOf us ++ u.strings := by
  rw [stringsOf, List.flatMap_append, List.flatMap_singleton, stringsOf]

/-- The strings of a further unit are added if none holds a zero and there is room for their offsets. -/
theorem Pools.addStrings (pools : Pools before s) : u.strings.foldlM (addString u.header.name) s = .ok s' ↔
    (∀ text ∈ u.strings, '\x00' ∉ text.toList) ∧ PoolRoom (stringsOf (before ++ [u])) ∧
      s' = s.pooling (stringsOf (before ++ [u])) := by
  rw [stringsOf_concat, ← addStrings_pooling pools.room, ← pools.pool]

theorem Pools.addUnit (pools : Pools before s) (added : s.addUnit u = .ok s') : Pools (before ++ [u]) s' := by
  obtain ⟨-, m, record, strings, -, rfl⟩ := addUnit_eq_ok.mp added
  obtain ⟨-, room, rfl⟩ := pools.addStrings.mp strings
  refine ⟨rfl, room, ?_⟩
  show s.slots + _ = _
  rw [pools.slots, slotsOf, slotsOf, sumBy_snoc]

theorem Pools.addUnits (pools : Pools before s) (run : us.foldlM Shared.addUnit s = .ok t) :
    Pools (before ++ us) t :=
  foldlM_follows (fun _ _ _ _ pools added => pools.addUnit added) before pools run

theorem pooled_addUnits (pooled : s.Pooled) (run : us.foldlM Shared.addUnit s = .ok t) : t.Pooled :=
  foldlM_keeps (P := Pooled) (fun _ _ _ pooled step => (addUnit_adds pooled step).pooled) pooled run

end Shared

/-! ### The chunks -/

/-- Texts in a pool and in a table of offsets, which has an entry for each of them. -/
structure Interned (texts : List String) (pool : Bytes) (offsets : List UInt32) : Prop where
  /-- The pool holds every text once, in the order in which they first come. -/
  bytes : pool = poolOf texts.eraseDups
  distinct : texts.eraseDups.Nodup
  length : offsets.length = texts.length
  eq_iff : ∀ {i j : Nat} {o p : UInt32} {text other : String}, offsets[i]? = some o → offsets[j]? = some p →
    texts[i]? = some text → texts[j]? = some other → (o = p ↔ text = other)
  /-- An entry is the place of its text in the pool, behind the texts in front of it, and leads to the text. -/
  begins : ∀ {i : Nat} {o : UInt32} {text : String}, offsets[i]? = some o → texts[i]? = some text →
    (∃ front back, texts.eraseDups = front ++ text :: back ∧ (poolOf front).length = o.toNat) ∧
      ∀ unit, poolString pool unit o.toNat = .ok text

theorem Shared.Pools.interned {us : List ScriptUnit} {t : Shared} (pools : Pools us t) (pooled : t.Pooled) :
    Interned (stringsOf us) t.pool t.offsets := by
  obtain ⟨pool, room, -⟩ := pools
  -- an entry of the table is the place of its text as a word
  have entry : ∀ {i : Nat} {o : UInt32} {text : String}, t.offsets[i]? = some o → (stringsOf us)[i]? = some text →
      text ∈ stringsOf us ∧ o = UInt32.ofNat (placeIn (stringsOf us) text) := by
    intro i o text offset given
    rw [pool, pooling, List.getElem?_map, given] at offset
    exact ⟨List.mem_of_getElem? given, (Option.some.inj offset).symm⟩
  constructor
  · exact congrArg Shared.pool pool
  · exact nodup_eraseDups _
  · rw [pool, pooling, List.length_map]
  · intro i j o p text other first second given given'
    obtain ⟨mem, rfl⟩ := entry first given
    obtain ⟨mem', rfl⟩ := entry second given'
    refine ⟨fun same => placeIn_inj mem mem' ?_, fun same => by rw [same]⟩
    rw [← toNat_ofNat (room text mem), same, toNat_ofNat (room other mem')]
  · intro i o text offset given
    obtain ⟨mem, rfl⟩ := entry offset given
    constructor
    · obtain ⟨back, split⟩ := exists_takeWhile (List.mem_eraseDups.mpr mem)
      exact ⟨_, back, split, (toNat_ofNat (room text mem)).symm⟩
    · have known : (text, UInt32.ofNat (placeIn (stringsOf us) text)) ∈ t.poolOffsets := by
        rw [pool]
        exact List.mem_map_of_mem (List.mem_eraseDups.mpr mem)
      exact poolString_of_points (pooled _ known)

/-- After units were replaced, the pool holds each of their strings once, in the order in which they first come, the
table of offsets leads to them in the order of the units, and there is room for the variables of all instances. -/
theorem pool_replaceUnits {c c' : Container} {us : List ScriptUnit} (replaced : c.replaceUnits us = .ok c') :
    ∃ (pool : Bytes) (offsets : List UInt32), c'.chunk? .pool = some pool ∧
      c'.chunk? .offsets = some (offsets.flatMap bytes32) ∧ Interned (stringsOf us) pool offsets ∧
      c'.chunk? .storage = some (List.replicate (4 * slotsOf us) 0) := by
  obtain ⟨t, run, rfl⟩ := replaceUnits_eq_ok.mp replaced
  have pools : Pools us t := pools_nil.addUnits run
  refine ⟨t.pool, t.offsets, ?_, ?_, pools.interned (pooled_addUnits pooled_nil run), ?_⟩
  · exact chunk?_replaced c t (k := ⟨.pool, t.pool⟩) (by simp [Shared.chunks])
  · exact chunk?_replaced c t (k := ⟨.offsets, t.offsets.flatMap bytes32⟩) (by simp [Shared.chunks])
  · rw [← pools.slots]
    exact chunk?_replaced c t (k := ⟨.storage, List.replicate (4 * t.slots) 0⟩) (by simp [Shared.chunks])

/-- Two units that share strings: one is empty and one ends another one. -/
def echoes : List ScriptUnit :=
  [{ header := { name := "Gate", instances := 2 }
     strings := ["door", "", "or"]
     vars := [1, -3]
     code := [0x0D]
     attributes := [] },
   { header := { name := "Bell", instances := 3 }
     strings := ["or", "é", "", "door"]
     vars := [5]
     code := []
     attributes := [] }]

/-- The string that ends another one has a place of its own, at 6 and not at 2, and so has the empty one. -/
theorem pool_replaceUnits_echoes : ∃ c' offsets, crowded.replaceUnits echoes = .ok c' ∧
    c'.chunk? .pool = some [0x64, 0x6F, 0x6F, 0x72, 0, 0, 0x6F, 0x72, 0, 0xC3, 0xA9, 0] ∧
    c'.chunk? .offsets = some (offsets.flatMap bytes32) ∧
    Interned ["door", "", "or", "or", "é", "", "door"] [0x64, 0x6F, 0x6F, 0x72, 0, 0, 0x6F, 0x72, 0, 0xC3, 0xA9, 0]
      offsets ∧
    c'.chunk? .storage = some (List.replicate 28 0) := by
  obtain ⟨c', replaced⟩ : ∃ c', crowded.replaceUnits echoes = .ok c' :=
    exists_eq_ok_of_toOption (by decide +kernel)
  obtain ⟨pool, offsets, found, table, interned, storage⟩ := pool_replaceUnits replaced
  have bytes : pool = [0x64, 0x6F, 0x6F, 0x72, 0, 0, 0x6F, 0x72, 0, 0xC3, 0xA9, 0] :=
    interned.bytes.trans (by decide +kernel)
  subst bytes
  exact ⟨c', offsets, replaced, found, table, interned, storage⟩

end EventScript.Container
