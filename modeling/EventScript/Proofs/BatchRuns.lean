import EventScript.Proofs.BatchMaps

/-!
# Batch runs

A run that ends has gone through every map below the input path and leaves for each the bytes that the map itself,
the catalog and the edits for it decide (`completed_of_run`). It makes directories that lead to the output path before
it reads anything, so that paths which go through them lead somewhere from then on; hence `Completed` speaks of the
catalog and the patches as they are read with these directories in place. No file is made outside of the output.

Another run reads the same again and stores what is there already (`Course.again`). The protocol of a run is written
beside the results, where it could be taken for one of them if texts were maps (`hasExtension_log`).
-/

namespace EventScript

namespace Disk

variable {d d' : Disk} {path : String} {root l names : Location} {content : Bytes} {region : Location → Prop}

/-! ### Disks -/

/-- What is on a disk is where a file system can have it: each location is given once and by proper names, and what
leads to it is a directory. -/
structure WellFormed (d : Disk) : Prop where
  distinct : (d.nodes.map Prod.fst).Nodup
  proper : ∀ e ∈ d.nodes, ∀ name ∈ e.1, Path.Proper name
  below : ∀ e ∈ d.nodes, e.1 ≠ []
  nested : ∀ e ∈ d.nodes, d.at? e.1.dropLast = some .directory

/-- What is at a location other than the root is what the disk has for it. -/
theorem WellFormed.at?_eq_some (h : d.WellFormed) {n : Node} (below : l ≠ []) :
    d.at? l = some n ↔ (l, n) ∈ d.nodes := by
  have distinct := h.distinct
  rw [at?, if_neg below]
  generalize d.nodes = nodes at distinct
  induction nodes with
  | nil => simp
  | cons e nodes ih =>
    obtain ⟨fresh, rest⟩ := List.nodup_cons.mp distinct
    obtain ⟨k, n'⟩ := e
    rw [List.lookup_cons, List.mem_cons]
    by_cases here : l = k
    · subst here
      have gone : (l, n) ∉ nodes := fun mem => fresh (List.mem_map.mpr ⟨_, mem, rfl⟩)
      simp [gone, eq_comm]
    · have other : (l == k) = false := by simpa using here
      simp [other, here, ih rest]

theorem mem_filesBelow : names ∈ d.filesBelow root ↔ ∃ content, (root ++ names, Node.file content) ∈ d.nodes := by
  rw [filesBelow, List.mem_filterMap]
  constructor
  · rintro ⟨⟨l, n⟩, mem, found⟩
    cases n with
    | directory => cases found
    | file content => exact ⟨content, below?_eq_some.mp found ▸ mem⟩
  · rintro ⟨content, mem⟩
    exact ⟨_, mem, below?_eq_some.mpr rfl⟩

namespace WellFormed

theorem mem_filesBelow_iff (h : d.WellFormed) : names ∈ d.filesBelow root ↔
    ∃ content, d.at? (root ++ names) = some (.file content) := by
  rw [mem_filesBelow]
  refine exists_congr fun content => ?_
  by_cases below : root ++ names = []
  · rw [below]
    exact ⟨fun mem => absurd rfl (h.below _ mem), fun found => by cases found⟩
  · exact (h.at?_eq_some below).symm

theorem named (h : d.WellFormed) : d.Named := by
  intro root names mem name inside
  obtain ⟨content, mem⟩ := mem_filesBelow.mp mem
  exact h.proper _ mem name (List.mem_append_right root inside)

theorem nodup_filesBelow (h : d.WellFormed) (root : Location) : (d.filesBelow root).Nodup := by
  have distinct : d.nodes.Pairwise fun e e' => e.1 ≠ e'.1 := List.pairwise_map.mp h.distinct
  refine List.pairwise_filterMap.mpr (distinct.imp ?_)
  rintro ⟨l, n⟩ ⟨l', n'⟩ differs names found names' found' rfl
  have place : ∀ {e : Location × Node}, fileBelow? root e = some names → e.1 = root ++ names := by
    rintro ⟨l, n⟩ found
    cases n with
    | directory => cases found
    | file content => exact below?_eq_some.mp found
  exact differs ((place found).trans (place found').symm)

/-- What leads to something is a directory. -/
theorem directory_above (h : d.WellFormed) {n : Node} {name : String} :
    ∀ {rest : List String}, d.at? (l ++ name :: rest) = some n → d.at? l = some .directory := by
  have step : ∀ {l : Location} {last : String} {n : Node}, d.at? (l ++ [last]) = some n →
      d.at? l = some .directory := by
    intro l last n found
    have nested := h.nested _ ((h.at?_eq_some (by simp)).mp found)
    rwa [List.dropLast_concat] at nested
  -- The names after the first go one by one from the end.
  intro rest
  induction rest using List.reverseRecOn generalizing n with
  | nil => exact step
  | append_singleton rest last ih =>
    intro found
    rw [← List.cons_append, ← List.append_assoc] at found
    exact ih (step found)

/-- A walk finds the files at a path and below it, each once. -/
theorem filesUnder (h : d.WellFormed) {files : List Location} (found : d.filesUnder path = .ok files) :
    files.Nodup ∧ ∀ names, names ∈ files ↔ ∃ content, d.at? (d.place path ++ names) = some (.file content) := by
  rcases filesUnder_eq_ok.mp found with ⟨⟨content, node⟩, rfl⟩ | ⟨-, rfl⟩
  · have here := (node_eq_ok.mp node).2.1
    refine ⟨List.pairwise_singleton _ _, fun names => ?_⟩
    rw [List.mem_singleton]
    cases names with
    | nil =>
      rw [List.append_nil]
      exact ⟨fun _ => ⟨content, here⟩, fun _ => rfl⟩
    | cons name rest =>
      refine ⟨nofun, fun ⟨_, there⟩ => ?_⟩
      cases here.symm.trans (h.directory_above there)
  · refine ⟨(List.mergeSort_perm _ _).nodup_iff.mpr (h.nodup_filesBelow _), fun names => ?_⟩
    rw [List.mem_mergeSort, h.mem_filesBelow_iff]

end WellFormed

/-- What is at a path stays when directories are made. -/
theorem Directs.node (h : Directs region d d') {n : Node} (found : d.node path = .ok n) : d'.node path = .ok n := by
  obtain ⟨reaches, here, closed⟩ := node_eq_ok.mp found
  refine node_eq_ok.mpr ⟨h.keeps.reaches reaches, ?_, closed⟩
  rw [h.keeps.place]
  cases n with
  | directory => exact h.keeps.directory _ here
  | file content => exact h.file_iff.mpr here

theorem Directs.named (h : Directs region d d') (named : d.Named) : d'.Named := by
  intro root names mem
  rw [h.filesBelow] at mem
  exact named root names mem

/-- A walk of a path that is there finds the same when directories are made. -/
theorem Directs.filesUnder (h : Directs region d d') (there : d.exists? path = true) :
    d'.filesUnder path = d.filesUnder path := by
  obtain ⟨n, node⟩ := exists?_iff.mp there
  have node' := h.node node
  cases n with
  | file content =>
    rw [filesUnder_eq_ok.mpr (.inl ⟨⟨content, node⟩, rfl⟩), filesUnder_eq_ok.mpr (.inl ⟨⟨content, node'⟩, rfl⟩)]
  | directory =>
    have walk : d.filesUnder path = .ok ((d.filesBelow (d.place path)).mergeSort comesBefore) :=
      filesUnder_eq_ok.mpr (.inr ⟨node, rfl⟩)
    rw [walk, filesUnder_eq_ok.mpr (.inr ⟨node', rfl⟩), h.keeps.place, h.filesBelow]

end Disk

open Job

namespace Batch

variable {s : Settings} {summary : Summary} {d d' d'' : Disk} {maps : List Location} {results : List Result}
  {patches : PatchSet} {warnings : List Patch.Warning} {catalog : Catalog}

/-! ### The steps of a run -/

theorem ends_prepareOutput : Ends (prepareOutput s) d () d' ↔
    d.exists? s.output = true ∧ d' = d ∨
      d.exists? s.output = false ∧ d.makeDirectories s.output = (.ok (), d') := by
  rw [prepareOutput, ends_bind]
  constructor
  · rintro ⟨there, _, looked, rest⟩
    obtain ⟨rfl, rfl⟩ := ends_look.mp looked
    cases found : Disk.exists? _ s.output with
    | true =>
      rw [found] at rest
      exact .inl ⟨rfl, (ends_pure.mp rest).2⟩
    | false =>
      rw [found] at rest
      exact .inr ⟨rfl, ends_makeDirectories.mp rest⟩
  · rintro (⟨found, rfl⟩ | ⟨found, made⟩)
    · refine ⟨_, _, ends_look.mpr ⟨rfl, rfl⟩, ?_⟩
      rw [found]
      exact ends_pure.mpr ⟨rfl, rfl⟩
    · refine ⟨_, _, ends_look.mpr ⟨rfl, rfl⟩, ?_⟩
      rw [found]
      exact ends_makeDirectories.mpr made

/-- The output path is there after it was prepared, and only directories were made. -/
theorem prepared_output (ends : Ends (prepareOutput s) d () d') :
    Disk.Directs (fun _ => True) d d' ∧ (s.output = "" ∨ d'.exists? s.output = true) := by
  rcases ends_prepareOutput.mp ends with ⟨there, rfl⟩ | ⟨-, made⟩
  · exact ⟨.refl d', .inr there⟩
  · have making := Disk.making_makeDirectoriesWith ((Path.segments s.output).length + 1) d s.output
    rw [Disk.makeDirectories] at made
    rw [made] at making
    refine ⟨making.directs, (making.isDirectory rfl).imp_right fun directory => ?_⟩
    obtain ⟨reaches, here⟩ := Disk.isDirectory_iff.mp directory
    exact Disk.exists?_iff.mpr ⟨.directory, Disk.node_eq_ok.mpr ⟨reaches, here, fun _ => rfl⟩⟩

/-- An output path that is there is left as it is. -/
theorem prepareOutput_again (there : s.output = "" ∨ d.exists? s.output = true) : Ends (prepareOutput s) d () d := by
  refine ends_prepareOutput.mpr ?_
  cases found : d.exists? s.output with
  | true => exact .inl ⟨rfl, rfl⟩
  | false => exact .inr ⟨rfl, Disk.makeDirectories_of_isDirectory (.inl (there.resolve_right (by simp [found])))⟩

theorem ends_noteMissing {missing : List String} : Ends (missing.forM noteMissing) d () d' ↔ d' = d := by
  induction missing with
  | nil => exact ends_pure.trans (and_iff_right rfl)
  | cons map missing ih => exact ends_note_then.trans ih

/-- What a run that ends has gone through. -/
theorem ends_run : Ends (run s) d summary d' ↔ d.exists? s.input = true ∧
    ∃ d₁ catalog d₂ patches warnings d₃ maps d₄ results d₅,
      Ends (prepareOutput s) d () d₁ ∧ Ends (Catalog.load s.definitions) d₁ catalog d₂ ∧
      Ends (Patch.load s.patchSources) d₂ (patches, warnings) d₃ ∧ Ends (findMaps s) d₃ maps d₄ ∧
      Ends (maps.mapM (processMap s catalog patches)) d₄ results d₅ ∧
      summary = Summary.ofResults results warnings.length ∧
      Ends (report s (protocol s patches warnings maps results)) d₅ () d' := by
  rw [run, ends_bind]
  constructor
  · rintro ⟨there, _, looked, rest⟩
    obtain ⟨rfl, rfl⟩ := ends_look.mp looked
    dsimp only at rest
    split at rest
    · next found =>
      obtain ⟨_, d₁, prepared, rest⟩ := ends_bind.mp rest
      obtain ⟨catalog, d₂, defined, rest⟩ := ends_bind.mp rest
      obtain ⟨⟨patches, warnings⟩, d₃, patched, rest⟩ := ends_bind.mp rest
      obtain ⟨maps, d₄, walked, rest⟩ := ends_bind.mp rest
      obtain ⟨_, _, noted, rest⟩ := ends_bind.mp (ends_note_then.mp rest)
      cases ends_noteMissing.mp noted
      obtain ⟨results, d₅, worked, rest⟩ := ends_bind.mp rest
      obtain ⟨counted, reported⟩ := ends_then_pure.mp rest
      exact ⟨found, d₁, catalog, d₂, patches, warnings, d₃, maps, d₄, results, d₅, prepared, defined, patched, walked,
        worked, counted, reported⟩
    · obtain ⟨_, _, failed, -⟩ := ends_bind.mp rest
      cases failed.1
  · rintro ⟨found, d₁, catalog, d₂, patches, warnings, d₃, maps, d₄, results, d₅, prepared, defined, patched, walked,
      worked, counted, reported⟩
    refine ⟨_, d, ends_look.mpr ⟨rfl, rfl⟩, ?_⟩
    dsimp only
    rw [if_pos found]
    refine ends_bind.mpr ⟨(), d₁, prepared, ends_bind.mpr ⟨catalog, d₂, defined, ?_⟩⟩
    refine ends_bind.mpr ⟨(patches, warnings), d₃, patched, ends_bind.mpr ⟨maps, d₄, walked, ?_⟩⟩
    refine ends_note_then.mpr (ends_bind.mpr ⟨(), d₄, ends_noteMissing.mpr rfl, ?_⟩)
    exact ends_bind.mpr ⟨results, d₅, worked, ends_then_pure.mpr ⟨counted, reported⟩⟩

/-! ### The protocol -/

theorem proper_log : Path.Proper "compile_log.txt" := by decide

/-- The protocol is no map, unless texts are. -/
theorem hasExtension_log (other : Text.sameUpToCase "txt".toList s.mapExtension.toList = false) :
    Path.hasExtension (Path.below s.input ["compile_log.txt"]) s.mapExtension = false := by
  have single : Path.below s.input ["compile_log.txt"] = Path.join s.input "compile_log.txt" := by
    rw [Path.below, if_neg (by simp), Path.ofSegments, String.intercalate_singleton]
  have extension : Path.extension? (Path.join s.input "compile_log.txt") = some "txt" := by
    rw [Path.extension?, Path.fileName?_join s.input proper_log]
    decide
  rw [single, Path.hasExtension, extension]
  exact other

/-- A report changes the file with the protocol at most. -/
theorem grows_of_report {lines : List String} (ends : Ends (report s lines) d () d') :
    Disk.Grows (d.place s.output) (· = d.place s.output ++ ["compile_log.txt"]) d d' := by
  rw [report] at ends
  split at ends
  · have place := d.place_join_single s.output proper_log
    rw [← place]
    exact (grows_of_put ends ⟨_, [], place⟩).1
  · obtain ⟨-, rfl⟩ := ends_pure.mp ends
    exact .refl d'

/-- A report is not changed by another one with the same lines. -/
theorem report_again {lines : List String} (ends : Ends (report s lines) d () d') (same : Disk.Same d' d'') :
    ∃ e, Ends (report s lines) d'' () e ∧ Disk.Same d'' e := by
  rw [report] at ends ⊢
  split at ends
  · next wanted =>
    have read := Disk.read_write (ends_put.mp ends)
    rw [if_pos wanted]
    exact ends_put_again (same.keeps.read read (same.at? _))
  · next unwanted =>
    rw [if_neg unwanted]
    exact ⟨d'', ends_pure.mpr ⟨rfl, rfl⟩, .refl d''⟩

/-! ### Maps -/

/-- A file at the input path or below it has the extension of maps. -/
def IsMap (s : Settings) (d : Disk) (names : Location) : Prop :=
  (∃ content, d.at? (d.place s.input ++ names) = some (.file content)) ∧
    Path.hasExtension (Path.below s.input names) s.mapExtension = true

theorem ends_findMaps : Ends (findMaps s) d maps d' ↔ ∃ files, d.filesUnder s.input = .ok files ∧
    maps = (files.filter fun names => Path.hasExtension (Path.below s.input names) s.mapExtension) ∧ d' = d := by
  rw [findMaps, ends_bind]
  constructor
  · rintro ⟨files, _, walked, rest⟩
    obtain ⟨found, rfl⟩ := ends_filesUnder.mp walked
    exact ⟨files, found, ends_pure.mp rest⟩
  · rintro ⟨files, found, rest⟩
    exact ⟨files, d, ends_filesUnder.mpr ⟨found, rfl⟩, ends_pure.mpr rest⟩

/-- The maps that are found are all that there are, each once. -/
theorem found_maps (wellFormed : d.WellFormed) (there : d.exists? s.input = true)
    (directs : Disk.Directs (fun _ => True) d d') (ends : Ends (findMaps s) d' maps d'') :
    maps.Nodup ∧ ∀ names, names ∈ maps ↔ IsMap s d names := by
  obtain ⟨files, walked, rfl, -⟩ := ends_findMaps.mp ends
  rw [directs.filesUnder there] at walked
  obtain ⟨distinct, mem⟩ := wellFormed.filesUnder walked
  refine ⟨distinct.filter _, fun names => ?_⟩
  rw [List.mem_filter, mem, IsMap]

theorem IsMap.proper (wellFormed : d.WellFormed) {names : Location} (h : IsMap s d names) :
    ∀ name ∈ names, Path.Proper name := by
  obtain ⟨⟨content, found⟩, -⟩ := h
  exact wellFormed.named _ names (wellFormed.mem_filesBelow_iff.mpr ⟨content, found⟩)

/-! ### Runs -/

/-- What a run reads is apart from what it writes. -/
structure Separate (s : Settings) (d : Disk) : Prop where
  input : Disk.Apart (d.place s.input) (d.place s.output)
  definitions : Disk.Apart (d.place s.definitions) (d.place s.output)
  patches : ∀ path ∈ s.patchSources, Disk.Apart (d.place path) (d.place s.output)

theorem Separate.keeps (h : Separate s d) (keeps : Disk.Keeps d d') : Separate s d' := by
  refine ⟨?_, ?_, fun path mem => ?_⟩
  · rw [keeps.place, keeps.place]
    exact h.input
  · rw [keeps.place, keeps.place]
    exact h.definitions
  · rw [keeps.place, keeps.place]
    exact h.patches path mem

/-- A run has been gone through: the disk `d` got its output directory in `d₁`, from which everything was read, and
results in `d'`. -/
structure Course (s : Settings) (d d₁ d' : Disk) (catalog : Catalog) (patches : PatchSet)
    (warnings : List Patch.Warning) (maps : List Location) (results : List Result) : Prop where
  there : d.exists? s.input = true
  prepared : Ends (prepareOutput s) d () d₁
  defined : Ends (Catalog.load s.definitions) d₁ catalog d₁
  patched : Ends (Patch.load s.patchSources) d₁ (patches, warnings) d₁
  walked : Ends (findMaps s) d₁ maps d₁
  grows : ∃ written, Disk.Grows (d₁.place s.output) written d₁ d'
  settled : List.Forall₂ (Settled s catalog patches d') maps results
  reported : ∃ d₂, Ends (report s (protocol s patches warnings maps results)) d₂ () d'

theorem course_of_run (wellFormed : d.WellFormed) (quiet : s.dumpText = false) (separate : Separate s d)
    (other : Text.sameUpToCase "txt".toList s.mapExtension.toList = false) (ends : Ends (run s) d summary d') :
    ∃ d₁ catalog patches warnings maps results, Course s d d₁ d' catalog patches warnings maps results ∧
      summary = Summary.ofResults results warnings.length := by
  obtain ⟨there, d₁, catalog, d₂, patches, warnings, d₃, maps, d₄, results, d₅, prepared, defined, patched, walked,
    worked, counted, reported⟩ := ends_run.mp ends
  obtain ⟨directs, output⟩ := prepared_output prepared
  have separate₁ := separate.keeps directs.keeps
  have named := directs.named wellFormed.named
  -- Loading leaves the disk as it is.
  have still : Disk.Grows (d₁.place s.output) (fun _ => False) d₁ d₁ := .refl d₁
  obtain ⟨rfl, -⟩ := Catalog.steady_loadCatalog still separate₁.definitions catalog d₂ defined
  obtain ⟨rfl, -⟩ := Patch.steady_loadPatches still named separate₁.patches _ d₃ patched
  obtain ⟨rfl, -⟩ := steady_findMaps still separate₁.input maps d₄ walked
  obtain ⟨distinct, found⟩ := found_maps wellFormed there directs walked
  have proper : ∀ names ∈ maps, ∀ name ∈ names, Path.Proper name := fun names mem =>
    ((found names).mp mem).proper wellFormed
  have ready : Ready s d₄ := ⟨output, separate₁.input⟩
  obtain ⟨grows, settled⟩ := settled_of_mapM quiet ready distinct proper worked
  have growsLog := grows_of_report reported
  have unwritten : ∀ names ∈ maps, d₅.place s.output ++ names ≠ d₅.place s.output ++ ["compile_log.txt"] := by
    intro names mem same
    have extension := ((found names).mp mem).2
    rw [List.append_cancel_left same, hasExtension_log other] at extension
    cases extension
  have members : List.Forall₂ (fun names r => names ∈ maps ∧ Settled s catalog patches d₅ names r) maps results :=
    (List.forall₂_and_left maps results).mpr ⟨fun _ mem => mem, settled⟩
  refine ⟨d₄, catalog, patches, warnings, maps, results,
    ⟨there, prepared, defined, patched, walked, ?_, ?_, d₅, reported⟩, counted⟩
  · have place := grows.toKeeps.place s.output
    rw [place] at growsLog
    exact ⟨fun _ => True, (grows.mono fun _ _ => trivial).trans (growsLog.mono fun _ _ => trivial)⟩
  · exact members.imp fun names _ ⟨mem, settled⟩ =>
      settled.grows (ready.grows grows) (proper names mem) growsLog (unwritten names mem)

/-- A run after another one gives the same results and leaves the disk as it is. -/
theorem Course.again {d₁ : Disk} (wellFormed : d.WellFormed) (quiet : s.dumpText = false) (separate : Separate s d)
    (course : Course s d d₁ d' catalog patches warnings maps results) :
    ∃ d'', Ends (run s) d' (Summary.ofResults results warnings.length) d'' ∧ Disk.Same d' d'' := by
  obtain ⟨directs, output⟩ := prepared_output course.prepared
  obtain ⟨written, grows⟩ := course.grows
  have separate₁ := separate.keeps directs.keeps
  have named := directs.named wellFormed.named
  have there : d'.exists? s.input = true := by
    obtain ⟨n, node⟩ := Disk.exists?_iff.mp course.there
    exact Disk.exists?_iff.mpr ⟨n, grows.node_apart separate₁.input (directs.node node)⟩
  have ready : Ready s d' := Ready.grows ⟨output, separate₁.input⟩ grows
  have prepared : Ends (prepareOutput s) d' () d' := prepareOutput_again ready.output
  obtain ⟨-, defined⟩ := Catalog.steady_loadCatalog grows separate₁.definitions _ _ course.defined
  obtain ⟨-, patched⟩ := Patch.steady_loadPatches grows named separate₁.patches _ _ course.patched
  obtain ⟨-, walked⟩ := steady_findMaps grows separate₁.input _ _ course.walked
  obtain ⟨d₂, worked, same⟩ := mapM_of_settled quiet course.settled
  obtain ⟨d₃, reported⟩ := course.reported
  obtain ⟨d'', reported, sameLog⟩ := report_again reported same
  exact ⟨d'', ends_run.mpr ⟨there, d', catalog, d', patches, warnings, d', maps, d', results, d₂, prepared, defined,
    patched, walked, worked, rfl, reported⟩, same.trans sameLog⟩

/-- A run leaves the files at the input path and below it. -/
theorem Course.input {d₁ : Disk} (separate : Separate s d)
    (course : Course s d d₁ d' catalog patches warnings maps results) {l : Location} (inside : d.place s.input <+: l)
    {content : Bytes} : d'.at? l = some (.file content) ↔ d.at? l = some (.file content) := by
  obtain ⟨directs, -⟩ := prepared_output course.prepared
  obtain ⟨written, grows⟩ := course.grows
  have apart := separate.input
  rw [← directs.keeps.place s.output] at apart
  rw [grows.outside l (apart.not_beneath inside), directs.file_iff]

theorem exists_settled (settled : List.Forall₂ (Settled s catalog patches d) maps results) {names : Location}
    (mem : names ∈ maps) : ∃ r, Settled s catalog patches d names r := by
  induction settled with
  | nil => cases mem
  | @cons _ r _ _ first _ ih =>
    rcases List.mem_cons.mp mem with rfl | mem
    · exact ⟨r, first⟩
    · exact ih mem

/-- A run leaves for each map what was decided. -/
theorem Course.output {d₁ : Disk} (wellFormed : d.WellFormed) (separate : Separate s d)
    (course : Course s d d₁ d' catalog patches warnings maps results) {names : Location} (mem : names ∈ maps) :
    ∃ raw m, d.at? (d.place s.input ++ names) = some (.file raw) ∧ MapFile.decode raw = .ok m ∧
      d'.at? (d.place s.output ++ names) = some (.file (verdict s catalog patches (mapName s names) raw m).2) := by
  obtain ⟨directs, -⟩ := prepared_output course.prepared
  obtain ⟨written, grows⟩ := course.grows
  have working : d'.working = d.working := grows.working.trans directs.working
  have proper := (((found_maps wellFormed course.there directs course.walked).2 names).mp mem).proper wellFormed
  obtain ⟨r, raw, m, read, decoded, -, holds⟩ := exists_settled course.settled mem
  have here := (Disk.read_eq_ok.mp read).2.2
  have there := (Disk.read_eq_ok.mp holds.read).2.2
  rw [Disk.place_congr working, d.place_below s.input proper] at here
  rw [Disk.place_congr working, d.place_join s.output proper] at there
  exact ⟨raw, m, (course.input separate (List.prefix_append _ _)).mp here, decoded, there⟩

/-- The results of a run are counted, each once. -/
theorem count_ofResults (results : List Result) (n : Nat) : (Summary.ofResults results n).written +
    (Summary.ofResults results n).copied + (Summary.ofResults results n).failed = results.length := by
  simp only [Summary.ofResults]
  induction results with
  | nil => rfl
  | cons r results ih =>
    cases r <;> simp [List.countP_cons, Result.isWritten, Result.isCopied, Result.isFailed] <;> omega

/-- What a run that ends comes to, given the catalog and the patches it has loaded and the maps it has found. -/
structure Completed (s : Settings) (d : Disk) (summary : Summary) (catalog : Catalog) (patches : PatchSet)
    (maps : List Location) : Prop where
  /-- The definition files are read when the output directory is there. -/
  defined : (Catalog.load s.definitions (prepareOutput s d).2).1.result = .ok catalog
  /-- So are the patches. -/
  patched : ∃ warnings, (Patch.load s.patchSources (prepareOutput s d).2).1.result = .ok (patches, warnings) ∧
    summary.patchWarnings = warnings.length
  /-- The maps are the files at the input path and below it that have the extension. -/
  found : maps.Nodup ∧ ∀ names, names ∈ maps ↔ IsMap s d names
  /-- Each of them is counted. -/
  counted : summary.written + summary.copied + summary.failed = maps.length
  /-- Each of them has a file at the same place below the output path, with what it was decided to have. -/
  output : ∀ names ∈ maps, ∃ raw m, d.at? (d.place s.input ++ names) = some (.file raw) ∧
    MapFile.decode raw = .ok m ∧ (run s d).2.at? (d.place s.output ++ names) =
      some (.file (verdict s catalog patches (mapName s names) raw m).2)
  /-- Its bytes, the catalog and the edits for it decide what it has. -/
  alone : ∀ names ∈ maps, ∀ raw, d.at? (d.place s.input ++ names) = some (.file raw) →
    (run s d).2.at? (d.place s.output ++ names) =
      some (.file (outcome s.recompileAll catalog (patches.edits? (mapName s names)) raw))
  /-- Files at the input path and below it stay as they are, and there are no new ones. -/
  input : ∀ l content, d.place s.input <+: l →
    ((run s d).2.at? l = some (.file content) ↔ d.at? l = some (.file content))
  /-- Another run has the same summary and leaves all files as they are. -/
  again : (run s (run s d).2).1.result = .ok summary ∧ ∀ l, (run s (run s d).2).2.at? l = (run s d).2.at? l

/-- If what a run reads is apart from what it writes, no listings are wanted and texts are no maps, then a run that ends
is complete: every map has been counted and has its own bytes, no file below the input path has changed, and another
run changes nothing. -/
theorem completed_of_run {s : Settings} {d : Disk} {summary : Summary} (wellFormed : d.WellFormed)
    (quiet : s.dumpText = false) (separate : Separate s d)
    (other : Text.sameUpToCase "txt".toList s.mapExtension.toList = false)
    (ended : (run s d).1.result = .ok summary) :
    ∃ catalog patches maps, Completed s d summary catalog patches maps := by
  have ends : Ends (run s) d summary (run s d).2 := ⟨ended, rfl⟩
  obtain ⟨d₁, catalog, patches, warnings, maps, results, course, rfl⟩ :=
    course_of_run wellFormed quiet separate other ends
  obtain ⟨directs, -⟩ := prepared_output course.prepared
  obtain ⟨d'', ⟨again, last⟩, same⟩ := course.again wellFormed quiet separate
  have found := found_maps wellFormed course.there directs course.walked
  exact ⟨catalog, patches, maps, {
    defined := course.prepared.2 ▸ course.defined.1
    patched := ⟨warnings, course.prepared.2 ▸ course.patched.1, rfl⟩
    found := found
    counted := (count_ofResults results _).trans course.settled.length_eq.symm
    output := fun _ mem => course.output wellFormed separate mem
    alone := by
      intro names mem raw here
      obtain ⟨raw', m, here', decoded, there⟩ := course.output wellFormed separate mem
      cases here.symm.trans here'
      rw [there, snd_verdict decoded]
    input := fun _ _ inside => course.input separate inside
    again := ⟨again, fun l => last ▸ same.at? l⟩ }⟩

/-- The bytes of a map with one unit. -/
def signMap : Bytes :=
  (Container.empty.replaceUnits [{
    header := { name := "Sign", scriptLength := 1 }, strings := [], vars := [], code := [13], attributes := [] }]
    >>= Container.encode).toOption.getD []

/-- A disk with definition files, a patch for two of three maps, and a file that is no map. -/
def coastDisk : Disk where
  working := ["home"]
  nodes :=
    [(["defs"], .directory), (["defs", Table.routines.file], .file (Utf8.encode "2 = Wait 1")),
     (["defs", Table.flags.file], .file []), (["defs", Table.items.file], .file []),
     (["defs", Table.maps.file], .file []), (["defs", Table.references.file], .file []),
     (["defs", Table.attributes.file], .file []), (["home"], .directory), (["home", "in"], .directory),
     (["home", "in", "compile_log.txt"], .file [1]), (["home", "in", "cove.map"], .file signMap),
     (["home", "in", "reef.map"], .file signMap), (["home", "in", "sea"], .directory),
     (["home", "in", "sea", "isle.MAP"], .file [0x45, 0x4E, 0x44, 0x20, 0, 0, 0, 0]),
     (["mod.patch"], .file (Utf8.encode "reef\n  2\tkind = 4\ncove\n  2\tx\n"))]

/-- Settings of a run with a protocol. -/
def coastSettings : Settings :=
  { definitions := "/defs", input := "in/.", output := "out/first", patchSources := ["/mod.patch"], debug := true }

/-- The catalog of the definition files. -/
def coastCatalog : Catalog := ⟨[⟨2, "Wait", 1, .task⟩], ⟨[]⟩, ⟨[]⟩, ⟨[]⟩, ⟨[]⟩, ⟨[]⟩, []⟩

/-- The edits of the patch. -/
def coastPatches : PatchSet :=
  ⟨[("cove", [(2, { inserted := ["x"] })]), ("reef", [(2, { inserted := ["kind = 4"] })])]⟩

/-- The maps that the run finds. -/
def coastMaps : List Location := [["cove.map"], ["reef.map"], ["sea", "isle.MAP"]]

/-- What becomes of them. -/
def coastResults : List Result := [.failed (.line "cove" 3 (.unknownSymbol "x")), .written 1 486, .copied]

theorem result_run_coast : (run coastSettings coastDisk).1.result = .ok ⟨1, 1, 1, 0⟩ := by
  let d₁ := (prepareOutput coastSettings coastDisk).2
  let d₂ := (coastMaps.mapM (processMap coastSettings coastCatalog coastPatches) d₁).2
  have prepared : Ends (prepareOutput coastSettings) coastDisk () d₁ := ⟨eq_ok_of_toOption (by decide +kernel), rfl⟩
  have defined : Ends (Catalog.load coastSettings.definitions) d₁ coastCatalog d₁ :=
    ⟨eq_ok_of_toOption (by decide +kernel), by decide +kernel⟩
  have patched : Ends (Patch.load coastSettings.patchSources) d₁ (coastPatches, []) d₁ :=
    ⟨eq_ok_of_toOption (by decide +kernel), by decide +kernel⟩
  -- Sorting does not evaluate, but the files are in order already.
  have files : d₁.filesBelow (d₁.place coastSettings.input) = ["compile_log.txt"] :: coastMaps := by decide +kernel
  have sorted : (["compile_log.txt"] :: coastMaps).mergeSort Disk.comesBefore = ["compile_log.txt"] :: coastMaps :=
    List.mergeSort_of_pairwise (by decide +kernel)
  have walked : Ends (findMaps coastSettings) d₁ coastMaps d₁ := by
    refine ends_findMaps.mpr ⟨_, Disk.filesUnder_eq_ok.mpr (.inr ⟨eq_ok_of_toOption (by decide +kernel), rfl⟩), ?_, rfl⟩
    rw [files, sorted]
    decide +kernel
  have evaluated : (coastMaps.mapM (processMap coastSettings coastCatalog coastPatches) d₁).1.result.toOption =
      some coastResults ∧
      (report coastSettings (protocol coastSettings coastPatches [] coastMaps coastResults) d₂).1.result.toOption =
        some () := by
    decide +kernel
  have worked : Ends (coastMaps.mapM (processMap coastSettings coastCatalog coastPatches)) d₁ coastResults d₂ :=
    ⟨eq_ok_of_toOption evaluated.1, rfl⟩
  have reported : Ends (report coastSettings (protocol coastSettings coastPatches [] coastMaps coastResults)) d₂ () _ :=
    ⟨eq_ok_of_toOption evaluated.2, rfl⟩
  exact (ends_run.mpr ⟨by decide +kernel, d₁, coastCatalog, d₁, coastPatches, [], d₁, coastMaps, d₁, coastResults, d₂,
    prepared, defined, patched, walked, worked, rfl, reported⟩).1

/-- One map is assembled again, the edits for another do not give a text, and the third has none. -/
theorem completed_of_run_coast : (run coastSettings coastDisk).1.result = .ok ⟨1, 1, 1, 0⟩ ∧
    ∃ catalog patches maps, Completed coastSettings coastDisk ⟨1, 1, 1, 0⟩ catalog patches maps := by
  have wellFormed : coastDisk.WellFormed :=
    ⟨by decide +kernel, by decide +kernel, by decide +kernel, by decide +kernel⟩
  have separate : Separate coastSettings coastDisk := ⟨by decide +kernel, by decide +kernel, by decide +kernel⟩
  exact ⟨result_run_coast, completed_of_run wellFormed rfl separate (by decide +kernel) result_run_coast⟩

end Batch

end EventScript
