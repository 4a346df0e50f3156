import EventScript.Proofs.PreambleSettings
import EventScript.Proofs.PrintedNames

/-!
# Preambles read again

The lines that a listing shows in front of a body are read as the fields that they were made from, with one exception.
An attribute may have the name of another field, such as `kind`. The line with its value is then taken for the line of
that field, and the attribute stays zero. `preamble_restored_iff` says that nothing else gets lost.
-/

namespace EventScript

namespace Catalog

variable {catalog : Catalog}

/-- No attribute has the stem with a number as its name. -/
def NumbersFree (catalog : Catalog) : Prop :=
  ∀ m n, catalog.name? .attributes m ≠ some (Name.withNumber "attr" n)

/-- An attribute is read back from the name that it is shown by. -/
theorem resolve_printedName_attr (sound : catalog.Sound) (once : catalog.DefinesOnce) (free : catalog.NumbersFree)
    {n : Nat} (small : n < attributeCount) : catalog.resolve .attr (catalog.printedName .attr n) = .ok n := by
  have bound : n ≤ NameClass.attr.most := Nat.le_of_lt_succ small
  rw [resolve, meaning?_printedName once sound bound (.inr fun m => free m n)]
  exact if_pos bound

/-- The word that begins a unit is not the name of an attribute. -/
theorem Sound.resolve_unit (sound : catalog.Sound) (n : Nat) : catalog.resolve .attr "unit" ≠ .ok n := by
  have unnamed : catalog.ordinal? NameClass.attr.table "unit" = none := by
    cases found : catalog.ordinal? NameClass.attr.table "unit" with
    | none => rfl
    | some m => exact absurd (sound.definable (sound.name?_of_ordinal? found)) (by decide)
  have meaning : catalog.meaning? .attr "unit" = none := by
    rw [meaning?, unnamed]
    decide
  rw [resolve, meaning]
  rintro ⟨⟩

end Catalog

namespace Assembly

open Source (Line Token)

variable {catalog : Catalog} {map : String} {index : Nat}

/-- The attribute is zero in the preamble that is being read. -/
def State.Unset (s : State) (index : Nat) : Prop :=
  ∀ name p, s.phase = .preamble name p → p.attributes[index]? = some 0

/-- A line does not name the attribute. -/
def Spares (catalog : Catalog) (index : Nat) (l : Line) : Prop :=
  ∀ key ts, Source.tokens l.text = .ok (.ident key :: ts) → key ∉ Catalog.preambleKeys →
    catalog.resolve .attr key ≠ .ok index

/-- A line that does not name an attribute does not set it. -/
theorem Step.unset {s s' : State} {l : Line} (small : index < attributeCount) (spared : Spares catalog index l)
    (unset : s.Unset index) (step : Step catalog map s l s') : s'.Unset index := by
  intro name p' phase'
  cases step with
  | begin idle tokens =>
    cases phase'
    exact List.getElem?_replicate_of_lt small
  | setting phase other read =>
    cases phase'
    have zero := unset _ _ phase
    obtain ⟨ts, tokens, set⟩ := setting_of_read read
    cases set with
    | @attr key m other resolved value ts =>
      have different : m ≠ index := by
        rintro rfl
        exact spared key ts tokens other resolved
      rw [List.getElem?_set_ne different]
      exact zero
    | _ => exact zero
  | _ => cases phase'

theorem unset_run (small : index < attributeCount) {ls : List Line} (spared : ∀ l ∈ ls, Spares catalog index l)
    {s s' : State} (unset : s.Unset index) (run : (ls.foldlM (State.step catalog map) s).result = .ok s') :
    s'.Unset index := by
  induction ls generalizing s with
  | nil =>
    cases run
    exact unset
  | cons l ls ih =>
    obtain ⟨first, others⟩ := List.forall_mem_cons.mp spared
    obtain ⟨t, step, rest⟩ := Traced.result_foldlM_cons.mp run
    exact ih others (Step.unset small first unset (step_cases step)) rest

/-- No line of a preamble names an attribute that has the name of another field. -/
theorem spares_of_prepared {u : ScriptUnit} (sound : catalog.Sound) (vars : u.vars.length ≤ Source.maxInteger)
    (back : ∀ n < u.attributes.length, catalog.resolve .attr (catalog.printedName .attr n) = .ok n)
    (taken : catalog.printedName .attr index ∈ Catalog.preambleKeys) {n : Nat} {ls : List Line}
    (prepared : Source.preparedFrom catalog n (u.preamble catalog) = .ok ls) :
    ∀ l ∈ ls, Spares catalog index l := by
  intro l mem key ts tokens other resolved
  obtain ⟨raw, listed, text⟩ := Source.exists_raw prepared mem
  obtain ⟨word, lexemes, line, known⟩ := preamble_keys sound u vars raw listed
  have same : word = key := by
    obtain ⟨text', prepared', tokens'⟩ := line.prepared
    rw [text] at prepared'
    cases prepared'
    rw [tokens] at tokens'
    cases tokens'
    rfl
  subst same
  rcases known with known | ⟨m, bound, rfl⟩
  · rcases List.mem_cons.mp known with rfl | known
    · exact sound.resolve_unit index resolved
    · exact other known
  · rw [back m bound] at resolved
    cases resolved
    exact other taken

/-- The preamble has the fields of the unit. -/
structure Preamble.Restores (p : Preamble) (u : ScriptUnit) : Prop where
  instances : p.instances = u.header.instances
  kind : p.kind = u.header.kind
  strings : p.strings = u.strings
  vars : p.vars = u.vars
  attributes : p.attributes = u.attributes

/-- The lines in front of the body of a unit give its name and its fields. -/
def PreambleRestored (catalog : Catalog) (map : String) (u : ScriptUnit) : Prop :=
  ∃ ls s p, Source.preparedFrom catalog 1 (u.preamble catalog) = .ok ls ∧
    (ls.foldlM (State.step catalog map) {}).result = .ok s ∧ s.phase = .preamble u.header.name p ∧ p.Restores u

/-- The preamble of a listing gives the unit's name and its fields back exactly if no attribute is set that has the
name of another field. -/
theorem preamble_restored_iff {sources : Catalog.Sources} {catalog : Catalog}
    (accepted : (Catalog.ofSources sources).result = .ok catalog) (once : catalog.DefinesOnce)
    (free : catalog.NumbersFree) (map : String) {u : ScriptUnit} (attributes : u.attributes.length = attributeCount)
    (vars : u.vars.length ≤ Source.maxInteger) :
    PreambleRestored catalog map u ↔ ∀ n value, u.attributes[n]? = some value → value ≠ 0 →
      catalog.printedName .attr n ∉ Catalog.preambleKeys := by
  have sound := Catalog.sound_ofSources accepted
  have back : ∀ n < u.attributes.length, catalog.resolve .attr (catalog.printedName .attr n) = .ok n :=
    fun n bound => Catalog.resolve_printedName_attr sound once free (attributes ▸ bound)
  constructor
  · rintro ⟨ls, s, p, prepared, run, phase, restored⟩ n value found set taken
    have small : n < attributeCount := attributes ▸ (List.getElem?_eq_some_iff.mp found).1
    have start : ({} : State).Unset n := nofun
    have unset := unset_run small (spares_of_prepared sound vars back taken prepared) start run
    have zero := unset _ _ phase
    rw [restored.attributes, found, Option.some.injEq] at zero
    exact set zero
  · intro named
    have sets : ∀ q ∈ u.attributes.zipIdx, q.1 ≠ 0 → SetsAttribute catalog q.2 := fun q mem set =>
      ⟨named q.2 q.1 (List.mem_zipIdx_iff_getElem?.mp mem) set, back q.2 (List.snd_lt_of_mem_zipIdx mem)⟩
    obtain ⟨ls, line, prepared, run⟩ := runs_preamble_of_sets sound u vars attributes sets map {} 1 0
    exact ⟨ls, _, _, prepared, run, rfl, rfl, rfl, rfl, rfl, rfl⟩

/-- Definition files with an attribute that is called like the kind of a unit. -/
def crossedFiles : Catalog.Sources where
  routines := "1 = Wait 1"
  flags := "3 = GateOpen"
  items := "7 = Potion"
  maps := "2 = Cave"
  references := "1 = Height"
  attributes := "0 = Solid\n1 = kind"
  dialogue := none

/-- The catalog of the files. -/
def crossed : Catalog where
  routines := [⟨1, "Wait", 1, .task⟩]
  flags := ⟨[(3, "GateOpen")]⟩
  items := ⟨[(7, "Potion")]⟩
  maps := ⟨[(2, "Cave")]⟩
  references := ⟨[(1, "Height")]⟩
  attributes := ⟨[(0, "Solid"), (1, "kind")]⟩
  dialogue := []

/-- A unit with two attributes that may be set. -/
def crateUnit (solid kind : UInt8) : ScriptUnit where
  header := { name := "Crate", instances := 3, kind := 2 }
  strings := ["hi", "Bo"]
  vars := [0, -5, 0]
  code := []
  attributes := solid :: kind :: List.replicate 254 0

/-- The attribute `Solid` is read back, and `kind` is not. -/
theorem preamble_restored_crateUnit : (Catalog.ofSources crossedFiles).result = .ok crossed ∧
    (crateUnit 7 0).preamble crossed = ["unit \"Crate\"", "instances = 3", "kind = 2", "entry = 0",
      "strings = \"hi\", \"Bo\"", "variables(3) = 0, -5", "Solid = 7"] ∧
    PreambleRestored crossed "field" (crateUnit 7 0) ∧ ¬ PreambleRestored crossed "field" (crateUnit 7 5) := by
  have accepted : (Catalog.ofSources crossedFiles).result = .ok crossed := eq_ok_of_toOption (by decide +kernel)
  have once : crossed.DefinesOnce := by
    refine Catalog.definesOnce_of_entries fun t => ?_
    cases t <;> decide
  have free : crossed.NumbersFree := by
    intro m n named
    rw [Catalog.name?_eq] at named
    have number := Name.number?_withNumber "attr" n
    have other : ∀ e ∈ (crossed.names .attributes).entries, Name.number? "attr" e.2 = none := by decide
    rw [other _ (NameTable.mem_of_name? named)] at number
    cases number
  have length : ∀ solid kind, (crateUnit solid kind).attributes.length = attributeCount :=
    fun _ _ => congrArg (· + 2) (List.length_replicate ..)
  have small : 3 ≤ Source.maxInteger := by decide
  have restored : ∀ solid kind, _ := fun solid kind =>
    preamble_restored_iff accepted once free "field" (length solid kind) small
  refine ⟨accepted, by decide +kernel, (restored 7 0).mpr ?_, fun back => ?_⟩
  · rintro (_ | _ | n) value found set
    · decide
    · cases found
      exact absurd rfl set
    · simp only [crateUnit, List.getElem?_cons_succ] at found
      exact absurd (List.mem_replicate.mp (List.mem_of_getElem? found)).2 set
  · exact (restored 7 5).mp back 1 5 rfl (by decide) (by decide)

end Assembly

end EventScript
