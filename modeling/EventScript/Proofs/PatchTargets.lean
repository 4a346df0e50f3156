import EventScript.Batch.Basic
import EventScript.Proofs.CatalogNames
import EventScript.Proofs.Changes
import Mathlib.Data.List.TakeWhile

/-!
# The maps that a change is for

A change stands under a heading. Both the heading and the path of a map are brought to a key, and that key to a
key once more, before they are compared: a change is made to the maps for which the outcome is the same, and for
all others it does not exist (`processMap_loaded`). The second time matters only for names with more than one
dot: `island.old.map` and `island.map` have different keys, but the keys of these keys are the same, so that a
change for one of them is made to both.
-/

namespace EventScript

namespace Patch

/-- A line without the carriage returns at its end. -/
def bare (raw : List Char) : List Char := (raw.reverse.dropWhile fun c => c == '\r').reverse

/-- The heading on a line, without blanks around it. -/
def heading? (raw : List Char) : Option String :=
  if (Text.trim raw).isEmpty || isIndented raw || (Text.after? ['#'] (Text.trim raw)).isSome
    || (Text.after? ['/', '/'] (Text.trim raw)).isSome then none
  else some (String.ofList (Text.trim raw))

/-- The change on a line below a heading. -/
def changeOn? (current : Option String) (raw : List Char) : Option Change :=
  match current, Content.ofLine raw with
  | some heading, .edit position entry => some ⟨heading, position, entry⟩
  | _, _ => none

/-- The changes on lines, the first of which are below a heading. -/
def writtenBelow (current : Option String) : List (List Char) → List Change
  | [] => []
  | line :: lines =>
    (changeOn? current (bare line)).toList ++ writtenBelow ((heading? (bare line)).or current) lines

/-- The changes in a patch file, each with the heading it stands under. -/
def written (text : String) : List Change := writtenBelow none (Text.lines text.toList)

theorem ofLine_of_heading {raw : List Char} {heading : String} (h : heading? raw = some heading) :
    Content.ofLine raw = .heading (mapKey heading) := by
  rw [heading?] at h
  split at h
  · cases h
  · next plain =>
    simp only [Bool.or_eq_true, not_or] at plain
    obtain ⟨⟨⟨blank, indented⟩, hash⟩, slashes⟩ := plain
    cases h
    simp [Content.ofLine, blank, indented, hash, slashes]

theorem ofIndented_ne_heading (raw : List Char) (key : String) : Content.ofIndented raw ≠ .heading key := by
  unfold Content.ofIndented
  repeat' split
  all_goals exact fun h => by cases h

theorem ofLine_ne_heading {raw : List Char} (h : heading? raw = none) (key : String) :
    Content.ofLine raw ≠ .heading key := by
  intro content
  rw [Content.ofLine] at content
  split at content
  · cases content
  · next blank =>
    split at content
    · exact ofIndented_ne_heading raw key content
    · next indented =>
      dsimp only at content
      split at content
      · cases content
      · next plain =>
        simp only [Bool.or_eq_true, not_or] at plain
        simp [heading?, blank, indented, plain] at h

/-- One line adds the change on it, and may change the heading. -/
theorem State.step_eq (source : String) {s : State} {current : Option String}
    (known : s.current = current.map mapKey) (line : Nat × List Char) :
    (s.step source line).set = (changeOn? current (bare line.2)).toList.foldl PatchSet.addChange s.set ∧
      (s.step source line).current = ((heading? (bare line.2)).or current).map mapKey := by
  have raw : (line.2.reverse.dropWhile fun c => c == '\r').reverse = bare line.2 := rfl
  unfold State.step changeOn?
  simp only [raw]
  cases found : heading? (bare line.2) with
  | some heading =>
    rw [ofLine_of_heading found]
    cases current <;> exact ⟨rfl, rfl⟩
  | none =>
    cases content : Content.ofLine (bare line.2) with
    | nothing => cases current <;> exact ⟨rfl, known⟩
    | heading key => exact absurd content (ofLine_ne_heading found key)
    | edit position entry =>
      rw [known]
      cases current <;> exact ⟨rfl, rfl⟩
    | bad reason =>
      rw [known]
      cases current <;> exact ⟨rfl, rfl⟩

theorem foldl_step (source : String) (lines : List (Nat × List Char)) : ∀ {s : State} {current : Option String},
    s.current = current.map mapKey → (lines.foldl (State.step source) s).set =
      (writtenBelow current (lines.map Prod.snd)).foldl PatchSet.addChange s.set := by
  induction lines with
  | nil => exact fun _ => rfl
  | cons line lines ih =>
    intro s current known
    obtain ⟨set, later⟩ := State.step_eq source known line
    rw [List.foldl_cons, ih later, set, List.map_cons, writtenBelow, List.foldl_append]

/-- Reading a patch file gives the patch set with the changes that are written in it. -/
theorem fst_read (source text : String) : (read source text).1 = PatchSet.ofChanges (written text) := by
  have lines : (Text.numbered (Text.lines text.toList)).map Prod.snd = Text.lines text.toList := by
    rw [Text.numbered, List.map_map]
    exact List.zipIdx_map_fst 0 _
  have start : ({} : State).current = (none : Option String).map mapKey := rfl
  have run := foldl_step source (Text.numbered (Text.lines text.toList)) start
  rw [lines] at run
  exact run

/-! ## Loading -/

variable {d : Disk} {path : String} {paths : List String} {files : List (String × String)}

/-- The changes in files, in their order. -/
def writtenIn (files : List (String × String)) : List Change := files.flatMap fun f => written f.2

/-- Files that were fetched are always read, and the disk stays. -/
theorem mapM_readNamed (files : List (String × String)) (d : Disk) :
    ((files.mapM fun f => readNamed f.1 f.2) d).1.result = .ok (files.map fun f => read f.1 f.2) ∧
      ((files.mapM fun f => readNamed f.1 f.2) d).2 = d := by
  induction files with
  | nil => exact ⟨rfl, rfl⟩
  | cons f files ih =>
    have first : (readNamed f.1 f.2 d).1.result = .ok (read f.1 f.2) := rfl
    rw [List.mapM_cons, Job.bind_of_ok first]
    have same : (readNamed f.1 f.2 d).2 = d := rfl
    rw [same, Job.bind_of_ok ih.1]
    exact ⟨rfl, ih.2⟩

/-- The warnings about files, in their order. -/
def warningsIn (files : List (String × String)) : List Warning := files.flatMap fun f => (read f.1 f.2).2

theorem loadSource_of_files (fetched : (filesOf path d).1.result = .ok files) :
    (loadSource path d).1.result = .ok (PatchSet.ofChanges (writtenIn files), warningsIn files) ∧
      (loadSource path d).2 = (filesOf path d).2 := by
  obtain ⟨result, same⟩ := mapM_readNamed files (filesOf path d).2
  have sets : (files.map fun f => read f.1 f.2).map Prod.fst =
      (files.map fun f => written f.2).map PatchSet.ofChanges := by
    rw [List.map_map, List.map_map]
    exact List.map_congr_left fun f _ => fst_read f.1 f.2
  rw [loadSource, Job.bind_of_ok fetched, Job.bind_of_ok result]
  refine ⟨?_, same⟩
  show Except.ok _ = Except.ok _
  rw [sets, PatchSet.merge_ofChanges, ← List.flatMap_def, List.flatMap_map]
  rfl

/-- The files of all sources are fetched one after another, and nothing that is done between changes the disk. -/
theorem mapM_loadSource : ∀ {paths : List String} {d : Disk} {sources : List (List (String × String))},
    ((paths.mapM filesOf) d).1.result = .ok sources → ((paths.mapM loadSource) d).1.result =
      .ok (sources.map fun files => (PatchSet.ofChanges (writtenIn files), warningsIn files)) := by
  intro paths
  induction paths with
  | nil =>
    intro d sources fetched
    cases fetched
    rfl
  | cons path paths ih =>
    intro d sources fetched
    rw [List.mapM_cons] at fetched ⊢
    obtain ⟨files, first, fetched⟩ := Job.result_bind_eq_ok.mp fetched
    obtain ⟨others, rest, last⟩ := Job.result_bind_eq_ok.mp fetched
    cases last
    obtain ⟨result, same⟩ := loadSource_of_files first
    refine Job.result_bind_eq_ok.mpr ⟨_, result, ?_⟩
    rw [same]
    exact Job.result_bind_eq_ok.mpr ⟨_, ih rest, rfl⟩

/-- Loading sources gives the changes of all their files. -/
theorem load_of_files {sources : List (List (String × String))}
    (fetched : ((paths.mapM filesOf) d).1.result = .ok sources) : (load paths d).1.result =
      .ok (PatchSet.ofChanges (writtenIn sources.flatten), warningsIn sources.flatten) := by
  have result := mapM_loadSource fetched
  have sets : (sources.map fun files => (PatchSet.ofChanges (writtenIn files), warningsIn files)).map Prod.fst =
      (sources.map writtenIn).map PatchSet.ofChanges := by
    rw [List.map_map, List.map_map]
    rfl
  refine Job.result_bind_eq_ok.mpr ⟨_, result, ?_⟩
  show Except.ok _ = Except.ok _
  rw [sets, PatchSet.merge_ofChanges, ← List.flatMap_def, List.flatMap_map, ← List.flatMap_id, writtenIn,
    warningsIn, List.flatMap_assoc, List.flatMap_assoc]
  rfl

end Patch

/-! ## Keys -/

namespace Text

/-- Lower case changes nothing or gives a character that comes after all capitals. -/
theorem lower_eq_or (c : Char) : lower c = c ∨ 'a' ≤ lower c := by
  by_cases capital : ('A' ≤ c && c ≤ 'Z') = true
  · right
    rw [lower, if_pos capital]
    simp only [Bool.and_eq_true, decide_eq_true_eq] at capital
    have low : 65 ≤ c.toNat := capital.1
    have high : c.toNat ≤ 90 := capital.2
    have code : (Char.ofNat (c.toNat + 32)).toNat = c.toNat + 32 := by
      rw [Char.ofNat, dif_pos (.inl (by omega))]
      rfl
    show 97 ≤ (Char.ofNat (c.toNat + 32)).toNat
    omega
  · exact .inl (if_neg capital)

theorem lower_lower (c : Char) : lower (lower c) = lower c := by
  obtain same | low := lower_eq_or c
  · rw [same, same]
  · refine if_neg fun capital => ?_
    simp only [Bool.and_eq_true, decide_eq_true_eq] at capital
    exact absurd (Char.le_trans low capital.2) (by decide)

theorem mem_of_mem_stem {cs : List Char} {c : Char} (mem : c ∈ stem cs) : c ∈ cs := by
  rw [stem] at mem
  split at mem
  · exact mem
  · exact mem
  · exact List.mem_reverse.mp ((List.dropWhile_subset _) (List.mem_reverse.mp (List.dropLast_subset _ mem)))

/-- A name without a dot behind its first character is its own stem. -/
theorem stem_of_notMem {cs : List Char} (single : '.' ∉ cs.tail) : stem cs = cs := by
  cases cs with
  | nil => rfl
  | cons c cs =>
    have others : ∀ a ∈ cs.reverse, (a != '.') = true := fun a mem => by
      rw [bne_iff_ne]
      rintro rfl
      exact single (List.mem_reverse.mp mem)
    rw [stem, List.reverse_cons, List.dropWhile_append_of_pos others]
    by_cases dot : c = '.'
    · simp [dot]
    · simp [dot]

end Text

/-- The characters of a key separate no directories. -/
theorem separates_mapKey {name : String} {c : Char} (mem : c ∈ (mapKey name).toList) :
    (c == '/' || c == '\\') = false := by
  rw [mapKey, String.toList_ofList] at mem
  obtain ⟨b, found, rfl⟩ := List.mem_map.mp mem
  have plain := List.mem_takeWhile_imp (List.mem_reverse.mp (Text.mem_of_mem_stem found))
  obtain same | low := Text.lower_eq_or b
  · rw [same]
    simpa using plain
  · have apart : ∀ d : Char, ¬ 'a' ≤ d → Text.lower b ≠ d := fun d below equal => below (equal ▸ low)
    rw [Bool.or_eq_false_iff, beq_eq_false_iff_ne, beq_eq_false_iff_ne]
    exact ⟨apart _ (by decide), apart _ (by decide)⟩

/-- A key without a dot behind its first character is its own key. -/
theorem mapKey_mapKey {name : String} (single : '.' ∉ (mapKey name).toList.tail) :
    mapKey (mapKey name) = mapKey name := by
  have whole : Text.afterLast (fun c => c == '/' || c == '\\') (mapKey name).toList = (mapKey name).toList := by
    rw [Text.afterLast, List.takeWhile_eq_self_iff.mpr, List.reverse_reverse]
    intro c mem
    rw [separates_mapKey (List.mem_reverse.mp mem)]
    rfl
  have low : (mapKey name).toList.map Text.lower = (mapKey name).toList := by
    rw [mapKey, String.toList_ofList, List.map_map]
    exact List.map_congr_left fun c _ => Text.lower_lower c
  rw [mapKey, whole, Text.stem_of_notMem single, low, String.ofList_toList]

namespace Batch

variable {s : Settings} {catalog : Catalog} {a b : PatchSet} {names : Location}

theorem apply_congr {map : String} (same : a.edits? map = b.edits? map) (lines : List String) :
    (a.apply map lines : Traced Notice Fault _) = b.apply map lines := by
  rw [PatchSet.apply, same, PatchSet.apply]

/-- What becomes of a map depends on the edits for it only. -/
theorem processMap_congr (same : a.edits? (mapName s names) = b.edits? (mapName s names)) :
    processMap s catalog a names = processMap s catalog b names := by
  have apply := apply_congr same
  unfold processMap conclude recompile MapFile.recompile PatchSet.hasMap
  simp only [apply, same]

/-- A change in the patch files of a run is for the maps that have the key of its heading's key: such a map has
edits, and the change is made to it at its place among the others. For all other maps everything is as it is
without the change. Names with no dot but that of their extension need their key only once. -/
theorem processMap_loaded {paths : List String} {d : Disk} {sources : List (List (String × String))}
    (fetched : ((paths.mapM Patch.filesOf) d).1.result = .ok sources) {before after : List Change} {w : Change}
    (stands : Patch.writtenIn sources.flatten = before ++ w :: after) :
    ∃ patches warnings, (Patch.load paths d).1.result = .ok (patches, warnings) ∧
      ∀ (s : Settings) (catalog : Catalog) (names : Location),
        (w.key ≠ mapKey (mapName s names) →
          patches.hasMap (mapName s names) = (PatchSet.ofChanges (before ++ after)).hasMap (mapName s names) ∧
          (∀ lines, (patches.apply (mapName s names) lines : Traced Notice Fault _) =
            (PatchSet.ofChanges (before ++ after)).apply (mapName s names) lines) ∧
          processMap s catalog patches names =
            processMap s catalog (PatchSet.ofChanges (before ++ after)) names) ∧
        (w.key = mapKey (mapName s names) →
          patches.hasMap (mapName s names) = true ∧
          ∀ lines, (patches.apply (mapName s names) lines : Traced Notice Fault _).result =
            .ok (overlay (changesFor w.key before ++ w :: changesFor w.key after) 1 lines)) ∧
        ('.' ∉ (mapKey w.heading).toList.tail → '.' ∉ (mapName s names).toList.tail →
          (w.key = mapKey (mapName s names) ↔ mapKey w.heading = mapName s names)) := by
  have loaded := Patch.load_of_files fetched
  rw [stands] at loaded
  refine ⟨_, _, loaded, fun s catalog names => ⟨fun other => ?_, fun here => ?_, fun heading name => ?_⟩⟩
  · have same : (PatchSet.ofChanges (before ++ w :: after)).edits? (mapName s names) =
        (PatchSet.ofChanges (before ++ after)).edits? (mapName s names) := by
      rw [PatchSet.edits?_ofChanges, PatchSet.edits?_ofChanges, changesFor_of_ne other]
    exact ⟨congrArg Option.isSome same, apply_congr same, processMap_congr same⟩
  · constructor
    · rw [PatchSet.hasMap_ofChanges, ← here, changesFor_of_eq rfl]
      exact List.append_ne_nil_of_right_ne_nil _ (List.cons_ne_nil _ _)
    · intro lines
      rw [PatchSet.result_apply_ofChanges, ← here, changesFor_of_eq rfl]
  · rw [Change.key, mapKey_mapKey heading, mapName, mapKey_mapKey name]

/-- A patch file with changes for two maps, the first of which has a dot in its name. -/
def islandPatch : String := "in/island.old.map\n  2\tkind = 4\nharbour\n  3\tnull\n"

/-- The change for the first map. -/
def islandChange : Change := ⟨"in/island.old.map", 2, .insert "kind = 4"⟩

/-- The change for the second map. -/
def harbourChange : Change := ⟨"harbour", 3, .delete⟩

/-- A disk with the patch file. -/
def islandDisk : Disk := ⟨[(["mod.patch"], .file (Utf8.encode islandPatch))], []⟩

/-- Settings of a run with the patch file. -/
def islandSettings : Settings :=
  { definitions := "defs", input := "in", output := "out", patchSources := ["mod.patch"] }

/-- The change for `island.old.map` is also made to `island.map`, which has another key. It is not made to
`harbour.map`. -/
theorem processMap_loaded_island : ∃ patches warnings,
    (Patch.load islandSettings.patchSources islandDisk).1.result = .ok (patches, warnings) ∧
      mapName islandSettings ["island.map"] ≠ mapKey islandChange.heading ∧
      patches.hasMap (mapName islandSettings ["island.map"]) = true ∧
      (patches.apply (mapName islandSettings ["island.map"]) ["unit", "return"] : Traced Notice Fault _).result =
        .ok ["unit", "return", "kind = 4"] ∧
      patches.hasMap (mapName islandSettings ["island.old.map"]) = true ∧
      processMap islandSettings .village patches ["harbour.map"] =
        processMap islandSettings .village (PatchSet.ofChanges [harbourChange]) ["harbour.map"] := by
  have fetched : ((islandSettings.patchSources.mapM Patch.filesOf) islandDisk).1.result =
      .ok [[("mod.patch", islandPatch)]] := eq_ok_of_toOption (by decide +kernel)
  have stands : Patch.writtenIn [[("mod.patch", islandPatch)]].flatten = [] ++ islandChange :: [harbourChange] := by
    decide +kernel
  obtain ⟨patches, warnings, loaded, reach⟩ := processMap_loaded fetched stands
  obtain ⟨seen, made⟩ := (reach islandSettings .village ["island.map"]).2.1 (by decide +kernel)
  obtain ⟨named, -⟩ := (reach islandSettings .village ["island.old.map"]).2.1 (by decide +kernel)
  obtain ⟨-, -, other⟩ := (reach islandSettings .village ["harbour.map"]).1 (by decide +kernel)
  refine ⟨patches, warnings, loaded, by decide +kernel, seen, ?_, named, other⟩
  rw [made]
  decide +kernel

end Batch

end EventScript
