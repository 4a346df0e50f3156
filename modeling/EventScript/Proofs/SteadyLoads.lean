import EventScript.Batch.Basic
import EventScript.Proofs.Growth

/-!
# Loads that give the same again

What a run reads apart from its output does not change while the output grows: the definition files
(`Catalog.steady_loadCatalog`), the patches (`Patch.steady_loadPatches`) and the maps that there are
(`Batch.steady_findMaps`). The dialogue file may be missing, and then stays missing, since the directory of the
definition files is there.
-/

namespace EventScript

namespace Job

variable {α β : Type} {d d' : Disk}

/-- If a job ends on one disk, it does so without a change, and with the same value on another disk. -/
def Steady (d d' : Disk) (x : Job α) : Prop := ∀ a m, Ends x d a m → m = d ∧ Ends x d' a d'

theorem Steady.bind {x : Job α} {f : α → Job β} (first : Steady d d' x)
    (rest : ∀ a, Ends x d a d → Steady d d' (f a)) : Steady d d' (x >>= f) := by
  intro b m ends
  obtain ⟨a, m', ends_, later⟩ := ends_bind.mp ends
  obtain ⟨rfl, again⟩ := first a m' ends_
  obtain ⟨same, then_⟩ := rest a ends_ b m later
  exact ⟨same, ends_bind.mpr ⟨a, d', again, then_⟩⟩

/-- A job that does without the disk. -/
theorem steady_of_const {x : Job α} {t : Traced Notice Fault α} (h : ∀ d, x d = (t, d)) : Steady d d' x := by
  rintro a m ⟨ok, rfl⟩
  rw [Ends, h d']
  rw [h d] at ok ⊢
  exact ⟨rfl, ok, rfl⟩

theorem steady_pure (a : α) : Steady d d' (pure a : Job α) := steady_of_const (t := Traced.value a) fun _ => rfl

theorem steady_mapM {f : α → Job β} : ∀ {as : List α}, (∀ a ∈ as, Steady d d' (f a)) → Steady d d' (as.mapM f)
  | [], _ => by
    rw [List.mapM_nil]
    exact steady_pure []
  | a :: as, h => by
    obtain ⟨first, others⟩ := List.forall_mem_cons.mp h
    rw [List.mapM_cons]
    exact first.bind fun _ _ => (steady_mapM others).bind fun _ _ => steady_pure _

theorem ends_look {f : Disk → α} {a : α} : Ends (look f) d a d' ↔ a = f d ∧ d' = d := by
  constructor
  · rintro ⟨ok, rfl⟩
    cases ok
    exact ⟨rfl, rfl⟩
  · rintro ⟨rfl, rfl⟩
    exact ⟨rfl, rfl⟩

theorem ends_fetch {path : String} {content : Bytes} :
    Ends (fetch path) d content d' ↔ d.read path = .ok content ∧ d' = d :=
  and_congr mapError_eq_ok eq_comm

theorem ends_ofExcept {x : Except Fault α} {a : α} : Ends (ofExcept x) d a d' ↔ x = .ok a ∧ d' = d :=
  and_congr Iff.rfl eq_comm

theorem ends_attempt {x : Traced Notice Fault α} {r : Except Fault α} :
    Ends (ofTraced x).attempt d r d' ↔ r = x.result ∧ d' = d :=
  and_congr ⟨fun h => (Except.ok.inj h).symm, fun h => congrArg Except.ok h.symm⟩ eq_comm

theorem ends_then_pure {x : Job Unit} {a b : α} : Ends (do x; return a) d b d' ↔ b = a ∧ Ends x d () d' := by
  rw [ends_bind]
  constructor
  · rintro ⟨_, m, ends, rest⟩
    obtain ⟨rfl, rfl⟩ := ends_pure.mp rest
    exact ⟨rfl, ends⟩
  · rintro ⟨rfl, ends⟩
    exact ⟨(), d', ends, ends_pure.mpr ⟨rfl, rfl⟩⟩

theorem ends_note_then {n : Notice} {x : Job α} {a : α} : Ends (do note n; x) d a d' ↔ Ends x d a d' := by
  rw [ends_bind]
  constructor
  · rintro ⟨_, _, ⟨-, rfl⟩, rest⟩
    exact rest
  · exact fun rest => ⟨(), d, ⟨rfl, rfl⟩, rest⟩

theorem ends_filesUnder {path : String} {files : List Location} :
    Ends (filesUnder path) d files d' ↔ d.filesUnder path = .ok files ∧ d' = d := by
  rw [Ends, filesUnder]
  cases d.filesUnder path with
  | error e =>
    constructor
    · rintro ⟨⟨⟩, -⟩
    · rintro ⟨⟨⟩, -⟩
  | ok found =>
    constructor
    · rintro ⟨⟨⟩, rfl⟩
      exact ⟨rfl, rfl⟩
    · rintro ⟨⟨⟩, rfl⟩
      exact ⟨rfl, rfl⟩

theorem steady_look {f : Disk → α} (same : f d' = f d) : Steady d d' (look f) := by
  intro a m ends
  obtain ⟨rfl, rfl⟩ := ends_look.mp ends
  exact ⟨rfl, ends_look.mpr ⟨same.symm, rfl⟩⟩

theorem steady_take {f : Disk → Except Disk.Fault α} (same : ∀ a, f d = .ok a → f d' = .ok a) :
    Steady d d' (take f) := by
  rintro a m ⟨ok, rfl⟩
  exact ⟨rfl, mapError_eq_ok.mpr (same a (mapError_eq_ok.mp ok)), rfl⟩

end Job

open Job

namespace Disk

variable {d d' : Disk} {path base name : String} {out root : Location} {written : Location → Prop} {content : Bytes}

theorem readText_eq_ok {text : String} : d.readText path = .ok text ↔
    ∃ content, d.read path = .ok content ∧ Utf8.decode? content = some text := by
  rw [readText, bind_eq_ok]
  refine exists_congr fun content => and_congr_right fun _ => ?_
  cases Utf8.decode? content with
  | none =>
    constructor
    · rintro ⟨⟩
    · rintro ⟨⟩
  | some text' => exact ⟨fun h => congrArg some (Except.ok.inj h), fun h => congrArg Except.ok (Option.some.inj h)⟩

namespace Grows

theorem read_apart (grows : Grows out written d d') (apart : Apart root out) (inside : root <+: d.place path)
    (read : d.read path = .ok content) : d'.read path = .ok content :=
  grows.toKeeps.read read (grows.reads apart inside)

theorem steady_fetch (grows : Grows out written d d') (apart : Apart root out) (inside : root <+: d.place path) :
    Steady d d' (fetch path) :=
  steady_take fun _ => grows.read_apart apart inside

theorem steady_fetchText (grows : Grows out written d d') (apart : Apart root out) (inside : root <+: d.place path) :
    Steady d d' (fetchText path) := by
  refine steady_take fun text read => ?_
  obtain ⟨content, read, decoded⟩ := readText_eq_ok.mp read
  exact readText_eq_ok.mpr ⟨content, grows.read_apart apart inside read, decoded⟩

theorem node_apart (grows : Grows out written d d') (apart : Apart (d.place path) out) {n : Node}
    (found : d.node path = .ok n) : d'.node path = .ok n := by
  rw [node_eq_ok] at found ⊢
  rw [grows.toKeeps.place, grows.reads apart List.prefix_rfl]
  exact ⟨grows.toKeeps.reaches found.1, found.2⟩

theorem steady_filesUnder (grows : Grows out written d d') (apart : Apart (d.place path) out) :
    Steady d d' (Job.filesUnder path) := by
  intro files m ends
  obtain ⟨found, rfl⟩ := ends_filesUnder.mp ends
  refine ⟨rfl, ends_filesUnder.mpr ⟨?_, rfl⟩⟩
  rw [filesUnder_eq_ok] at found ⊢
  rw [grows.toKeeps.place, grows.filesBelow _ apart]
  rcases found with ⟨⟨content, node⟩, same⟩ | ⟨node, same⟩
  · exact .inl ⟨⟨content, grows.node_apart apart node⟩, same⟩
  · exact .inr ⟨grows.node_apart apart node, same⟩

/-! ### Definition files -/

/-- A file in a directory that a path leads to is found, or not found, as before. -/
theorem readText_join (grows : Grows out written d d') (apart : Apart (d.place base) out) (proper : Path.Proper name)
    (led : d.Leads (if Path.isAbsolute base then [] else d.working) (Path.parts base)) :
    d'.readText (Path.join base name) = d.readText (Path.join base name) := by
  have single := List.forall_mem_singleton.mpr proper
  have joined : Path.join base name = Path.join base (Path.ofSegments [name]) := by
    rw [Path.ofSegments, String.intercalate_singleton]
  have located : d'.locate (Path.join base name) = d.locate (Path.join base name) := by
    rw [locate, locate, grows.working, joined, Path.isAbsolute_join (Path.isAbsolute_ofSegments single),
      Path.parts_join_ofSegments base single, follow_concat.mpr ⟨led, rfl⟩,
      follow_concat.mpr ⟨grows.toKeeps.leads led, rfl⟩]
  have found : d'.node (Path.join base name) = d.node (Path.join base name) := by
    rw [node, node, located]
    cases place : d.locate (Path.join base name) with
    | error e => rfl
    | ok l =>
      obtain rfl := eq_place_of_locate place
      have inside : d.place base <+: d.place (Path.join base name) := by
        rw [d.place_join_single base proper]
        exact List.prefix_append _ _
      rw [ok_bind, ok_bind, lookup, lookup, grows.reads apart inside]
  rw [readText, readText, read, read, found]

theorem leads_of_readText {text : String} (proper : Path.Proper name)
    (read : d.readText (Path.join base name) = .ok text) :
    d.Leads (if Path.isAbsolute base then [] else d.working) (Path.parts base) := by
  have single := List.forall_mem_singleton.mpr proper
  have joined : Path.join base name = Path.join base (Path.ofSegments [name]) := by
    rw [Path.ofSegments, String.intercalate_singleton]
  obtain ⟨content, read, -⟩ := readText_eq_ok.mp read
  have followed := (locate_eq_ok.mp (read_eq_ok.mp read).1.1).2
  rw [joined, Path.isAbsolute_join (Path.isAbsolute_ofSegments single),
    Path.parts_join_ofSegments base single] at followed
  exact (follow_concat.mp followed).1

end Grows

end Disk

variable {d d' : Disk} {path directory : String} {out : Location} {written : Location → Prop}

namespace Catalog

theorem proper_file (table : Table) : Path.Proper table.file := by
  cases table <;> exact ⟨by decide, by decide, by decide, by decide⟩

theorem proper_dialogueFile : Path.Proper dialogueFile := ⟨by decide, by decide, by decide, by decide⟩

theorem steady_loadTable {table : Table}
    (same : d'.readText (Path.join directory table.file) = d.readText (Path.join directory table.file)) :
    Steady d d' (loadTable directory table) := by
  refine (steady_look same).bind fun text _ => ?_
  cases text with
  | ok text => exact steady_pure text
  | error e => exact steady_of_const fun _ => rfl

theorem steady_loadDialogue
    (same : d'.readText (Path.join directory dialogueFile) = d.readText (Path.join directory dialogueFile)) :
    Steady d d' (loadDialogue directory) := by
  refine (steady_look same).bind fun text _ => ?_
  cases text with
  | ok text => exact steady_pure (some text)
  | error e => exact Steady.bind (steady_of_const fun _ => rfl) fun _ _ => steady_pure none

theorem readText_of_loadTable {table : Table} {text : String} {m : Disk}
    (ends : Ends (loadTable directory table) d text m) :
    d.readText (Path.join directory table.file) = .ok text := by
  obtain ⟨found, m', looked, rest⟩ := ends_bind.mp ends
  obtain ⟨same, rfl⟩ := ends_look.mp looked
  cases found with
  | ok text' =>
    obtain ⟨rfl, -⟩ := ends_pure.mp rest
    exact same.symm
  | error e => cases rest.1

/-- The definition files are read again as they were. That they can be read shows that the directory is there. -/
theorem steady_loadCatalog (grows : Disk.Grows out written d d') (apart : Disk.Apart (d.place directory) out) :
    Steady d d' (load directory) := by
  intro catalog m ends
  -- The first table comes after the dialogue file, which may be missing.
  have led : d.Leads (if Path.isAbsolute directory then [] else d.working) (Path.parts directory) := by
    obtain ⟨sources, _, loaded, -⟩ := ends_bind.mp ends
    obtain ⟨dialogue, m₁, first, rest⟩ := ends_bind.mp loaded
    have quiet : Steady d d (loadDialogue directory) := steady_loadDialogue rfl
    obtain ⟨rfl, -⟩ := quiet dialogue m₁ first
    obtain ⟨routines, _, second, -⟩ := ends_bind.mp rest
    exact Disk.Grows.leads_of_readText (proper_file .routines) (readText_of_loadTable second)
  have table (t : Table) : Steady d d' (loadTable directory t) :=
    steady_loadTable (grows.readText_join apart (proper_file t) led)
  have dialogue : Steady d d' (loadDialogue directory) :=
    steady_loadDialogue (grows.readText_join apart proper_dialogueFile led)
  have sources : Steady d d' (Sources.load directory) :=
    dialogue.bind fun _ _ => (table .routines).bind fun _ _ => (table .flags).bind fun _ _ =>
      (table .items).bind fun _ _ => (table .maps).bind fun _ _ => (table .references).bind fun _ _ =>
        (table .attributes).bind fun _ _ => steady_pure _
  have whole : Steady d d' (load directory) := sources.bind fun _ _ => steady_of_const fun _ => rfl
  exact whole catalog m ends

end Catalog

/-! ### Patches -/

/-- The files of a disk have proper names. -/
def Disk.Named (d : Disk) : Prop := ∀ root, ∀ names ∈ d.filesBelow root, ∀ name ∈ names, Path.Proper name

theorem Disk.Named.filesUnder (named : d.Named) {files : List Location} (found : d.filesUnder path = .ok files) :
    ∀ names ∈ files, ∀ name ∈ names, Path.Proper name := by
  rcases Disk.filesUnder_eq_ok.mp found with ⟨-, rfl⟩ | ⟨-, rfl⟩
  · simp
  · intro names mem
    exact named (d.place path) names (List.mem_mergeSort.mp mem)

namespace Patch

theorem steady_directoryFiles (grows : Disk.Grows out written d d') (named : d.Named)
    (apart : Disk.Apart (d.place path) out) : Steady d d' (directoryFiles path) := by
  refine (grows.steady_filesUnder apart).bind fun found ends => steady_mapM fun p mem => ?_
  obtain ⟨names, inside, rfl⟩ := List.mem_map.mp (List.mem_filter.mp mem).1
  have proper := named.filesUnder (ends_filesUnder.mp ends).1 names inside
  have below : d.place path <+: d.place (Path.below path names) := by
    rw [d.place_below path proper]
    exact List.prefix_append _ _
  exact (grows.steady_fetchText apart below).bind fun _ _ => steady_pure _

/-- A file that can be read is no directory. -/
theorem isDirectory_of_read {content : Bytes} (read : d.read path = .ok content) : d.isDirectory path = false := by
  cases directory : d.isDirectory path with
  | false => rfl
  | true =>
    have there := (Disk.read_eq_ok.mp read).2.2
    rw [(Disk.isDirectory_iff.mp directory).2] at there
    cases there

/-- What the files of a source are taken from. -/
theorem ends_filesOf {files : List (String × String)} {m : Disk} : Ends (filesOf path) d files m ↔
    Ends (if d.isDirectory path then directoryFiles path
      else if Path.hasExtension path "zip" then archiveFiles path
      else do return [(path, ← fetchText path)]) d files m := by
  rw [filesOf, ends_bind]
  constructor
  · rintro ⟨_, _, ⟨⟨⟩, rfl⟩, rest⟩
    exact rest
  · exact fun rest => ⟨_, _, ⟨rfl, rfl⟩, rest⟩

theorem steady_filesOf (grows : Disk.Grows out written d d') (named : d.Named)
    (apart : Disk.Apart (d.place path) out) : Steady d d' (filesOf path) := by
  intro files m ends
  rw [ends_filesOf] at ends ⊢
  cases directory : d.isDirectory path with
  | true =>
    rw [directory] at ends
    rw [grows.toKeeps.isDirectory directory]
    exact steady_directoryFiles grows named apart files m ends
  | false =>
    rw [directory] at ends
    have fetched : Steady d d' (fetch path) := grows.steady_fetch apart List.prefix_rfl
    have text : Steady d d' (fetchText path) := grows.steady_fetchText apart List.prefix_rfl
    have archive : Steady d d' (archiveFiles path) :=
      fetched.bind fun _ _ => Steady.bind (steady_of_const fun _ => rfl) fun _ _ => steady_pure _
    -- What is read as a file is no directory on the other disk either.
    have still : d'.isDirectory path = false := by
      have read : ∃ content, d.read path = .ok content := by
        by_cases zip : Path.hasExtension path "zip" = true
        · rw [if_neg (by simp), if_pos zip] at ends
          obtain ⟨content, _, first, -⟩ := ends_bind.mp ends
          exact ⟨content, (ends_fetch.mp first).1⟩
        · rw [if_neg (by simp), if_neg zip] at ends
          obtain ⟨_, _, first, -⟩ := ends_bind.mp ends
          obtain ⟨content, read, -⟩ := Disk.readText_eq_ok.mp (mapError_eq_ok.mp first.1)
          exact ⟨content, read⟩
      obtain ⟨content, read⟩ := read
      exact isDirectory_of_read (grows.read_apart apart List.prefix_rfl read)
    rw [still]
    by_cases zip : Path.hasExtension path "zip" = true
    · rw [if_neg (by simp), if_pos zip] at ends ⊢
      exact archive files m ends
    · rw [if_neg (by simp), if_neg zip] at ends ⊢
      exact (text.bind fun _ _ => steady_pure _) files m ends

/-- The patches are read again as they were. -/
theorem steady_loadPatches (grows : Disk.Grows out written d d') (named : d.Named) {paths : List String}
    (apart : ∀ path ∈ paths, Disk.Apart (d.place path) out) : Steady d d' (load paths) := by
  refine (steady_mapM fun path mem => ?_).bind fun _ _ => steady_pure _
  refine (steady_filesOf grows named (apart path mem)).bind fun files _ => ?_
  have named_ (f : String × String) : Steady d d' (readNamed f.1 f.2) :=
    steady_of_const (t := (readNamed f.1 f.2 d).1) fun _ => rfl
  exact (steady_mapM fun f _ => named_ f).bind fun _ _ => steady_pure _

end Patch

/-- The maps are found again. -/
theorem Batch.steady_findMaps {s : Settings} (grows : Disk.Grows out written d d')
    (apart : Disk.Apart (d.place s.input) out) : Steady d d' (findMaps s) :=
  (grows.steady_filesUnder apart).bind fun _ _ => steady_pure _

end EventScript
