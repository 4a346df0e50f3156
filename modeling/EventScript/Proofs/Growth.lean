import EventScript.Proofs.Places

/-!
# Disks that grow below a location

Storing a file below a path that is there makes directories below its place, where nothing was, and puts the file in
place; everything else stays (`grows_of_store`). A file that is stored once more where it is already leaves the disk
as it is (`ends_store_again`).
-/

namespace EventScript

namespace Disk

variable {d d' d'' : Disk} {path base : String} {l out : Location} {region : Location → Prop}

/-! ### Directories -/

/-- One disk has come out of another by making directories, in a region, where nothing was. -/
structure Directs (region : Location → Prop) (d d' : Disk) : Prop where
  working : d'.working = d.working
  made : ∀ l, d'.at? l = d.at? l ∨ region l ∧ d.at? l = none ∧ d'.at? l = some .directory
  filesBelow : ∀ root, d'.filesBelow root = d.filesBelow root

theorem Directs.refl (d : Disk) : Directs region d d := ⟨rfl, fun _ => .inl rfl, fun _ => rfl⟩

theorem Directs.trans (h : Directs region d d') (h' : Directs region d' d'') : Directs region d d'' := by
  refine ⟨h'.working.trans h.working, fun l => ?_, fun root => (h'.filesBelow root).trans (h.filesBelow root)⟩
  rcases h'.made l with same | ⟨inside, free, made⟩
  · rw [same]
    exact h.made l
  · rcases h.made l with same | ⟨-, -, directory⟩
    · exact .inr ⟨inside, same ▸ free, made⟩
    · rw [directory] at free
      cases free

theorem Directs.keeps (h : Directs region d d') : Keeps d d' := by
  refine ⟨h.working, fun l directory => ?_⟩
  rcases h.made l with same | ⟨-, free, -⟩
  · rw [same, directory]
  · rw [directory] at free
    cases free

/-- Making directories neither brings files nor takes them away. -/
theorem Directs.file_iff (h : Directs region d d') {content : Bytes} :
    d'.at? l = some (.file content) ↔ d.at? l = some (.file content) := by
  rcases h.made l with same | ⟨-, free, made⟩
  · rw [same]
  · rw [free, made]
    constructor
    · rintro ⟨⟩
    · rintro ⟨⟩

theorem makeDirectory_eq_ok : d.makeDirectory path = .ok d' ↔
    d.Reaches path ∧ d.at? (d.place path) = none ∧ d' = d.set (d.place path) .directory := by
  rw [makeDirectory, bind_eq_ok]
  constructor
  · rintro ⟨l, led, rest⟩
    obtain ⟨found, looked, rest⟩ := bind_eq_ok.mp rest
    obtain ⟨reaches, rfl⟩ := (lookup_of_locate led).mp looked
    obtain rfl := eq_place_of_locate led
    split at rest
    · cases rest
    · next free =>
      cases rest
      exact ⟨reaches, free, rfl⟩
  · rintro ⟨reaches, free, rfl⟩
    refine ⟨_, reaches.1, bind_eq_ok.mpr ⟨_, (lookup_of_locate reaches.1).mpr ⟨reaches, rfl⟩, ?_⟩⟩
    rw [free]
    rfl

theorem directs_of_makeDirectory (h : d.makeDirectory path = .ok d') (inside : region (d.place path)) :
    Directs region d d' ∧ d'.isDirectory path = true := by
  obtain ⟨reaches, free, rfl⟩ := makeDirectory_eq_ok.mp h
  have below : d.place path ≠ [] := by
    intro root
    rw [root] at free
    cases free
  have directs : Directs region d (d.set (d.place path) .directory) := by
    refine ⟨rfl, fun l => ?_, fun root => filesBelow_set (.inr ⟨rfl, free⟩)⟩
    by_cases here : l = d.place path
    · rw [here]
      exact .inr ⟨inside, free, at?_set_self d below _⟩
    · exact .inl (at?_set_of_ne d here _)
  refine ⟨directs, isDirectory_iff.mpr ⟨directs.keeps.reaches reaches, ?_⟩⟩
  rw [directs.keeps.place]
  exact at?_set_self d below _

theorem isDirectory_of_makeDirectory (h : d.makeDirectory path = .ok d') : d'.isDirectory path = true := by
  have made : Directs (fun _ => True) d d' ∧ d'.isDirectory path = true := directs_of_makeDirectory h trivial
  exact made.2

/-- What making a directory, and those that lead to it, can come to. -/
inductive Making : Nat → Disk → String → Except Fault Unit × Disk → Prop where
  /-- There is nothing to make. -/
  | nothing {n : Nat} {d : Disk} {path : String} (h : n = 0 ∨ path = "") : Making n d path (.ok (), d)
  /-- The directory is made. -/
  | made {n : Nat} {d d' : Disk} {path : String} (h : d.makeDirectory path = .ok d') :
      Making (n + 1) d path (.ok (), d')
  /-- The directory is there already, or cannot be made. -/
  | kept {n : Nat} {d : Disk} {path : String} {r : Except Fault Unit} (h : r = .ok () → d.isDirectory path = true) :
      Making (n + 1) d path (r, d)
  /-- The directories that lead to it are made first, and then it is made, unless it is there or cannot be made. -/
  | after {n : Nat} {d d' d'' : Disk} {path up : String} {r r' : Except Fault Unit}
      (missing : d.makeDirectory path = .error .missing) (parent : Path.parent? path = some up)
      (above : Making n d up (r', d'))
      (last : d'.makeDirectory path = .ok d'' ∧ r = .ok () ∨ d'' = d' ∧ (r = .ok () → d'.isDirectory path = true)) :
      Making (n + 1) d path (r, d'')

/-- Whether a directory is there decides how a failure to make it ends. -/
theorem making_of_error {n : Nat} {e : Fault} :
    Making (n + 1) d path (if d.isDirectory path then (.ok (), d) else (.error e, d)) := by
  split
  · next there => exact .kept fun _ => there
  · exact .kept nofun

theorem making_makeDirectoriesWith (n : Nat) (d : Disk) (path : String) :
    Making n d path (d.makeDirectoriesWith n path) := by
  induction n generalizing path with
  | zero => exact .nothing (.inl rfl)
  | succ n ih =>
    rw [makeDirectoriesWith]
    split
    · next none_ => exact .nothing (.inr none_)
    · split
      · next made => exact .made made
      · next missing =>
        split
        · exact .kept nofun
        · next up parent =>
          have above := ih up
          split
          · next stopped =>
            rw [stopped] at above
            exact .after missing parent above (.inr ⟨rfl, nofun⟩)
          · next done =>
            rw [done] at above
            split
            · next made => exact .after missing parent above (.inl ⟨made, rfl⟩)
            · split
              · next there => exact .after missing parent above (.inr ⟨rfl, fun _ => there⟩)
              · exact .after missing parent above (.inr ⟨rfl, nofun⟩)
      · exact making_of_error

theorem Making.directs {n : Nat} {r : Except Fault Unit × Disk} (h : Making n d path r) :
    Directs (fun _ => True) d r.2 := by
  induction h with
  | nothing => exact .refl _
  | made made => exact (directs_of_makeDirectory made trivial).1
  | kept => exact .refl _
  | after _ _ _ last ih =>
    rcases last with ⟨made, -⟩ | ⟨rfl, -⟩
    · exact ih.trans (directs_of_makeDirectory made trivial).1
    · exact ih

/-- A directory that was made, with those that lead to it, is there. -/
theorem Making.isDirectory {n : Nat} {r : Except Fault Unit × Disk} (h : Making (n + 1) d path r)
    (ok : r.1 = .ok ()) : path = "" ∨ r.2.isDirectory path = true := by
  cases h with
  | nothing empty => exact .inl (empty.resolve_left (Nat.succ_ne_zero n))
  | made made => exact .inr (isDirectory_of_makeDirectory made)
  | kept there => exact .inr (there ok)
  | after _ _ _ last =>
    rcases last with ⟨made, -⟩ | ⟨rfl, there⟩
    · exact .inr (isDirectory_of_makeDirectory made)
    · exact .inr (there ok)

/-- Directories that are there are not made again. -/
theorem makeDirectories_of_isDirectory (h : path = "" ∨ d.isDirectory path = true) :
    d.makeDirectories path = (.ok (), d) := by
  rw [makeDirectories, makeDirectoriesWith]
  split
  · rfl
  · next named =>
    have there := h.resolve_left named
    obtain ⟨reaches, found⟩ := isDirectory_iff.mp there
    have occupied : d.makeDirectory path = .error .occupied := by
      rw [makeDirectory, reaches.1, ok_bind, (lookup_of_locate reaches.1).mpr ⟨reaches, found.symm⟩]
      rfl
    rw [occupied]
    simp only [there, if_true]

/-! ### Below a path that is there -/

/-- A location is below another. -/
def Beneath (out l : Location) : Prop := ∃ name rest, l = out ++ name :: rest

theorem follow_of_append {here : Location} {as bs : List String} (h : d.follow here (as ++ bs) = .ok l) :
    ∃ k, d.follow here as = .ok k := by
  rcases List.eq_nil_or_concat as with rfl | ⟨front, last, rfl⟩
  · exact ⟨here, rfl⟩
  · rw [List.concat_eq_append] at h ⊢
    refine ⟨_, follow_concat.mpr ⟨?_, rfl⟩⟩
    rcases List.eq_nil_or_concat bs with rfl | ⟨more, final, rfl⟩
    · rw [List.append_nil, follow_concat] at h
      exact h.1
    · rw [List.concat_eq_append, ← List.append_assoc, follow_concat] at h
      exact (leads_append.mp (leads_append.mp h.1).1).1

theorem foldl_enter_here (n : Nat) (here : Location) : (List.replicate n ".").foldl enter here = here := by
  induction n with
  | zero => rfl
  | succ n ih => exact ih

/-- Nothing is missing on the way of a path that can be followed. -/
theorem makeDirectory_ne_missing {k : Location} (named : path ≠ "")
    (led : d.follow (if Path.isAbsolute path then [] else d.working) (Path.parts path) = .ok k) :
    d.makeDirectory path ≠ .error .missing := by
  rw [makeDirectory]
  cases located : d.locate path with
  | error e =>
    rw [locate, led, if_neg named] at located
    split at located
    · cases located
      rintro ⟨⟩
    · split at located
      · cases located
        rintro ⟨⟩
      · cases located
  | ok l =>
    rw [ok_bind, lookup]
    split
    · rintro ⟨⟩
    · rw [ok_bind]
      split <;> rintro ⟨⟩

/-- The path that a name is joined to, as the directory of the joined path, is not made again if it is there. -/
theorem Making.solid {n : Nat} {name up : String} {r : Except Fault Unit × Disk} (proper : Path.Proper name)
    (ready : base = "" ∨ d.exists? base = true) (parent : Path.parent? (Path.join base name) = some up)
    (h : Making n d up r) : r.2 = d := by
  by_cases empty : base = ""
  · have joined : Path.join base name = name := by
      rw [empty, Path.join, if_pos (by simp)]
    have cut : Path.segments name = [] ++ [name] := Path.segments_of_notMem proper.single
    have top : Path.trimmed name = [] ++ [name] := Path.trimmed_of_last cut proper.isIdle
    rw [joined, Path.parent?, top, List.nil_append] at parent
    simp only [if_neg proper.ne_empty] at parent
    cases parent
    cases h with
    | nothing => rfl
    | made made => exact absurd (makeDirectory_eq_ok.mp made).1.1 (by rintro ⟨⟩)
    | kept => rfl
    | after _ above => cases above
  · obtain ⟨up', same, named, absolute, k, parts⟩ := Path.parent?_join_single proper empty
    cases same.symm.trans parent
    obtain ⟨node, found⟩ := exists?_iff.mp (ready.resolve_left empty)
    obtain ⟨reaches, here, -⟩ := node_eq_ok.mp found
    have place : d.place up = d.place base := by
      rw [Disk.place, Disk.place, absolute, parts, List.foldl_append, foldl_enter_here]
    have leads := (locate_eq_ok.mp reaches.1).2
    rw [parts, ← absolute] at leads
    obtain ⟨k, followed⟩ := follow_of_append leads
    have followable := makeDirectory_ne_missing named followed
    cases h with
    | nothing => rfl
    | made made =>
      obtain ⟨-, free, -⟩ := makeDirectory_eq_ok.mp made
      rw [place, here] at free
      cases free
    | kept => rfl
    | after missing => exact absurd missing followable

/-- Directories for names below a path that is there are made below its place. -/
theorem Making.directs_beneath {n : Nat} {r : Except Fault Unit × Disk} (h : Making n d path r) :
    ∀ names : List String, names ≠ [] → (∀ name ∈ names, Path.Proper name) →
      path = Path.join base (Path.ofSegments names) → base = "" ∨ d.exists? base = true →
      Directs (Beneath (d.place base)) d r.2 := by
  have inside : ∀ (d : Disk) (names : List String), names ≠ [] → (∀ name ∈ names, Path.Proper name) →
      Beneath (d.place base) (d.place (Path.join base (Path.ofSegments names))) := by
    intro d names some_ proper
    obtain ⟨name, rest, rfl⟩ := List.exists_cons_of_ne_nil some_
    exact ⟨name, rest, d.place_join base proper⟩
  induction h with
  | nothing =>
    intros
    exact .refl _
  | made made =>
    rintro names some_ proper rfl -
    exact (directs_of_makeDirectory made (inside _ names some_ proper)).1
  | kept =>
    intros
    exact .refl _
  | @after n d d' d'' path up r r' missing parent above last ih =>
    rintro names some_ proper rfl ready
    -- The directories above are those of the names before the last one, or the path that is there.
    have first : Directs (Beneath (d.place base)) d d' := by
      rcases Path.parent?_join_cases some_ proper parent with ⟨front, more, properFront, same⟩ | ⟨name, single, same⟩
      · exact ih front more properFront same ready
      · have unchanged : d' = d := above.solid single ready same
        rw [unchanged]
        exact .refl d
    rcases last with ⟨made, -⟩ | ⟨rfl, -⟩
    · have place := first.keeps.place base
      refine first.trans (directs_of_makeDirectory made ?_).1
      rw [← place]
      exact inside _ names some_ proper
    · exact first

/-! ### Growth -/

/-- Two locations neither of which is at or below the other. -/
def Apart (a b : Location) : Prop := ¬ a <+: b ∧ ¬ b <+: a

instance (a b : Location) : Decidable (Apart a b) := inferInstanceAs (Decidable (_ ∧ _))

theorem Apart.not_beneath {root : Location} (h : Apart root out) (inside : root <+: l) : ¬ Beneath out l := by
  rintro ⟨name, rest, rfl⟩
  rcases List.prefix_or_prefix_of_prefix inside (List.prefix_append out (name :: rest)) with first | second
  · exact h.1 first
  · exact h.2 second

/-- One disk has come out of another by changes below a location: directories stay, and so do files that were not
written. -/
structure Grows (out : Location) (written : Location → Prop) (d d' : Disk) : Prop extends Keeps d d' where
  outside : ∀ l, ¬ Beneath out l → d'.at? l = d.at? l
  file : ∀ l content, ¬ written l → d.at? l = some (.file content) → d'.at? l = some (.file content)
  filesBelow : ∀ root, Apart root out → d'.filesBelow root = d.filesBelow root

variable {written : Location → Prop}

theorem Grows.refl (d : Disk) : Grows out written d d :=
  ⟨⟨rfl, fun _ h => h⟩, fun _ _ => rfl, fun _ _ _ h => h, fun _ _ => rfl⟩

theorem Grows.trans (h : Grows out written d d') (h' : Grows out written d' d'') : Grows out written d d'' where
  working := h'.working.trans h.working
  directory l there := h'.directory l (h.directory l there)
  outside l away := (h'.outside l away).trans (h.outside l away)
  file l content unwritten there := h'.file l content unwritten (h.file l content unwritten there)
  filesBelow root apart := (h'.filesBelow root apart).trans (h.filesBelow root apart)

theorem Grows.mono {more : Location → Prop} (h : Grows out written d d') (sub : ∀ l, written l → more l) :
    Grows out more d d' :=
  { h with file := fun l content unwritten => h.file l content fun w => unwritten (sub l w) }

theorem Directs.grows (h : Directs (Beneath out) d d') : Grows out written d d' where
  toKeeps := h.keeps
  outside l away := (h.made l).resolve_right fun made => away made.1
  file _ _ _ := h.file_iff.mpr
  filesBelow root _ := h.filesBelow root

theorem Grows.reads {root : Location} (h : Grows out written d d') (apart : Apart root out)
    (inside : root <+: d.place path) : d'.at? (d.place path) = d.at? (d.place path) :=
  h.outside _ (apart.not_beneath inside)

theorem grows_set {content : Bytes} (free : d.at? l ≠ some .directory) (inside : Beneath out l) :
    Grows out (· = l) d (d.set l (.file content)) where
  working := rfl
  directory k there := by
    have differs : k ≠ l := by
      rintro rfl
      exact free there
    rw [at?_set_of_ne d differs, there]
  outside k away := by
    have differs : k ≠ l := by
      rintro rfl
      exact away inside
    exact at?_set_of_ne d differs _
  file k _ unwritten there := by rw [at?_set_of_ne d unwritten, there]
  filesBelow root apart := filesBelow_set (.inl fun above => apart.not_beneath above inside)

/-- Two disks have the same files and directories. -/
structure Same (d d' : Disk) : Prop where
  working : d'.working = d.working
  at? : ∀ l, d'.at? l = d.at? l

theorem Same.refl (d : Disk) : Same d d := ⟨rfl, fun _ => rfl⟩

theorem Same.trans (h : Same d d') (h' : Same d' d'') : Same d d'' :=
  ⟨h'.working.trans h.working, fun l => (h'.at? l).trans (h.at? l)⟩

theorem Same.keeps (h : Same d d') : Keeps d d' := ⟨h.working, fun l there => (h.at? l).trans there⟩

theorem same_set {content : Bytes} (there : d.at? l = some (.file content)) : Same d (d.set l (.file content)) := by
  refine ⟨rfl, fun k => ?_⟩
  by_cases here : k = l
  · have below : l ≠ [] := by
      rintro rfl
      cases there
    rw [here, at?_set_self d below, there]
  · exact at?_set_of_ne d here _

/-- A file that can be stored at a path is there already. -/
structure Holds (d : Disk) (path : String) (content : Bytes) : Prop where
  read : d.read path = .ok content
  above : ∀ up, Path.parent? path = some up → up = "" ∨ d.isDirectory up = true

theorem Keeps.holds {content : Bytes} (h : Keeps d d') (kept : d'.at? (d.place path) = d.at? (d.place path))
    (holds : Holds d path content) : Holds d' path content :=
  ⟨h.read holds.read kept, fun up parent => (holds.above up parent).imp_right h.isDirectory⟩

end Disk

/-! ### Jobs -/

namespace Job

variable {α β : Type} {d d' : Disk} {path base : String} {content : Bytes}

/-- A job ends with a value and leaves a disk. -/
def Ends (x : Job α) (d : Disk) (a : α) (d' : Disk) : Prop := (x d).1.result = .ok a ∧ (x d).2 = d'

theorem ends_bind {x : Job α} {f : α → Job β} {b : β} : Ends (x >>= f) d b d' ↔
    ∃ a m, Ends x d a m ∧ Ends (f a) m b d' := by
  cases result : (x d).1.result with
  | error e =>
    rw [Ends, bind_of_error result]
    constructor
    · rintro ⟨⟨⟩, -⟩
    · rintro ⟨a, m, ⟨ok, -⟩, -⟩
      rw [result] at ok
      cases ok
  | ok a =>
    rw [Ends, bind_of_ok result]
    constructor
    · exact fun ends => ⟨a, _, ⟨result, rfl⟩, ends⟩
    · rintro ⟨a', m, ⟨ok, rfl⟩, ends⟩
      cases result.symm.trans ok
      exact ends

theorem ends_pure {a b : α} : Ends (pure a : Job α) d b d' ↔ b = a ∧ d' = d := by
  constructor
  · rintro ⟨ok, rfl⟩
    cases ok
    exact ⟨rfl, rfl⟩
  · rintro ⟨rfl, rfl⟩
    exact ⟨rfl, rfl⟩

theorem ends_put : Ends (put path content) d () d' ↔ d.write path content = .ok d' := by
  rw [Ends, put]
  split
  · next written =>
    rw [written]
    exact ⟨fun h => congrArg Except.ok h.2, fun h => ⟨rfl, Except.ok.inj h⟩⟩
  · next failed =>
    rw [failed]
    constructor
    · rintro ⟨⟨⟩, -⟩
    · rintro ⟨⟩

theorem ends_makeDirectories : Ends (makeDirectories path) d () d' ↔ d.makeDirectories path = (.ok (), d') := by
  rw [Ends, makeDirectories, Prod.ext_iff]
  exact and_congr_left fun _ => mapError_eq_ok

/-- A file that was put below a path is there, and only it has changed. -/
theorem grows_of_put {out : Location} (ends : Ends (put path content) d () d')
    (inside : Disk.Beneath out (d.place path)) :
    Disk.Grows out (· = d.place path) d d' ∧ d'.read path = .ok content := by
  have written := ends_put.mp ends
  refine ⟨?_, Disk.read_write written⟩
  obtain ⟨l, led, -, -, free, rfl⟩ := Disk.eq_set_of_write written
  obtain rfl := Disk.eq_place_of_locate led
  exact Disk.grows_set free inside

/-- A file that is put where it is already leaves the disk as it is. -/
theorem ends_put_again (there : d.read path = .ok content) :
    ∃ d', Ends (put path content) d () d' ∧ Disk.Same d d' := by
  obtain ⟨reaches, closed, found⟩ := Disk.read_eq_ok.mp there
  refine ⟨_, ends_put.mpr ?_, Disk.same_set found⟩
  rw [Disk.write, reaches.1, ok_bind, if_neg (by simp [closed]),
    (Disk.lookup_of_locate reaches.1).mpr ⟨reaches, found.symm⟩]
  rfl

/-- Storing a file makes the directories that lead to it and puts it there. -/
theorem ends_store : Ends (store path content) d () d' ↔
    ∃ m, Ends (match Path.parent? path with
      | some up => makeDirectories up
      | none => pure ()) d () m ∧ Ends (put path content) m () d' := by
  have steps : store path content = (match Path.parent? path with
      | some up => makeDirectories up
      | none => pure ()) >>= fun _ => put path content := by
    rw [store]
    cases Path.parent? path <;> rfl
  rw [steps, ends_bind]
  exact ⟨fun ⟨_, m, first, last⟩ => ⟨m, first, last⟩, fun ⟨m, first, last⟩ => ⟨(), m, first, last⟩⟩

/-- A file that was stored below a path that was there is there, and what else has changed are directories that lead
to it. -/
theorem grows_of_store {names : List String} (some_ : names ≠ []) (proper : ∀ name ∈ names, Path.Proper name)
    (ready : base = "" ∨ d.exists? base = true)
    (ends : Ends (store (Path.join base (Path.ofSegments names)) content) d () d') :
    Disk.Grows (d.place base) (· = d.place base ++ names) d d' ∧
      Disk.Holds d' (Path.join base (Path.ofSegments names)) content := by
  obtain ⟨m, above, put_⟩ := ends_store.mp ends
  have prepared : Disk.Directs (Disk.Beneath (d.place base)) d m ∧
      ∀ up, Path.parent? (Path.join base (Path.ofSegments names)) = some up →
        up = "" ∨ m.isDirectory up = true := by
    cases parent : Path.parent? (Path.join base (Path.ofSegments names)) with
    | none =>
      rw [parent] at above
      obtain ⟨-, rfl⟩ := ends_pure.mp above
      exact ⟨.refl _, nofun⟩
    | some up =>
      rw [parent] at above
      have made := ends_makeDirectories.mp above
      have making := Disk.making_makeDirectoriesWith ((Path.segments up).length + 1) d up
      rw [Disk.makeDirectories] at made
      rw [made] at making
      constructor
      · rcases Path.parent?_join_cases some_ proper parent with ⟨front, more, properFront, same⟩ | ⟨name, single, same⟩
        · exact making.directs_beneath front more properFront same ready
        · have unchanged : m = d := making.solid single ready same
          rw [unchanged]
          exact .refl d
      · rintro _ ⟨⟩
        exact making.isDirectory rfl
  obtain ⟨directs, there⟩ := prepared
  have place : m.place (Path.join base (Path.ofSegments names)) = d.place base ++ names := by
    rw [directs.keeps.place, d.place_join base proper]
  have inside : Disk.Beneath (d.place base) (m.place (Path.join base (Path.ofSegments names))) := by
    obtain ⟨name, rest, rfl⟩ := List.exists_cons_of_ne_nil some_
    exact ⟨name, rest, place⟩
  obtain ⟨grows, read⟩ := grows_of_put put_ inside
  rw [place] at grows
  exact ⟨directs.grows.trans grows, read, fun up parent => (there up parent).imp_right grows.toKeeps.isDirectory⟩

/-- A file that is stored where it is already leaves the disk as it is. -/
theorem ends_store_again (h : Disk.Holds d path content) :
    ∃ d', Ends (store path content) d () d' ∧ Disk.Same d d' := by
  obtain ⟨d', put_, same⟩ := ends_put_again h.read
  refine ⟨d', ends_store.mpr ⟨d, ?_, put_⟩, same⟩
  cases parent : Path.parent? path with
  | none => exact ends_pure.mpr ⟨rfl, rfl⟩
  | some up => exact ends_makeDirectories.mpr (Disk.makeDirectories_of_isDirectory (h.above up parent))

end Job

end EventScript
