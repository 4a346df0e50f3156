import EventScript.Proofs.Segments
import EventScript.Proofs.Storing

/-!
# Where paths lead

The location that a path leads to is found in its names alone (`place`); the disk only decides whether the path leads
there (`Reaches`). Directories that stay keep a path that leads somewhere leading there (`Keeps.reaches`), so what is
read at a path changes only if what is at its place does.
-/

namespace EventScript.Disk

variable {d d' d'' : Disk} {path : String} {l here : Location}

/-- The location that a path leads to, if it leads anywhere. -/
def place (d : Disk) (path : String) : Location :=
  (Path.parts path).foldl enter (if Path.isAbsolute path then [] else d.working)

theorem place_congr (h : d'.working = d.working) (path : String) : d'.place path = d.place path := by
  rw [place, place, h]

theorem foldl_enter {names : List String} (proper : ∀ n ∈ names, Path.Proper n) (here : Location) :
    names.foldl enter here = here ++ names := by
  induction names generalizing here with
  | nil => exact (List.append_nil here).symm
  | cons name names ih =>
    obtain ⟨first, rest⟩ := List.forall_mem_cons.mp proper
    have entered : enter here name = here ++ [name] := by
      rw [enter, if_neg first.ne_here, if_neg first.ne_above]
    rw [List.foldl_cons, ih rest, entered, List.append_assoc]
    rfl

/-- Proper names that are joined to a path lead on from its place. -/
theorem place_join (d : Disk) (base : String) {names : List String} (proper : ∀ n ∈ names, Path.Proper n) :
    d.place (Path.join base (Path.ofSegments names)) = d.place base ++ names := by
  rw [place, Path.parts_join_ofSegments base proper, Path.isAbsolute_join (Path.isAbsolute_ofSegments proper),
    List.foldl_append, foldl_enter proper]
  rfl

theorem place_join_single (d : Disk) (base : String) {name : String} (proper : Path.Proper name) :
    d.place (Path.join base name) = d.place base ++ [name] := by
  have whole := d.place_join base (List.forall_mem_singleton.mpr proper)
  rwa [Path.ofSegments, String.intercalate_singleton] at whole

theorem place_below (d : Disk) (path : String) {names : List String} (proper : ∀ n ∈ names, Path.Proper n) :
    d.place (Path.below path names) = d.place path ++ names := by
  rw [Path.below]
  split
  · next none_ => rw [none_, List.append_nil]
  · exact d.place_join path proper

/-! ### Ways -/

/-- Names lead through directories only. -/
def Leads (d : Disk) : Location → List String → Prop
  | _, [] => True
  | here, name :: names => d.lookup (enter here name) = .ok (some .directory) ∧ d.Leads (enter here name) names

theorem leads_append {as bs : List String} :
    d.Leads here (as ++ bs) ↔ d.Leads here as ∧ d.Leads (as.foldl enter here) bs := by
  induction as generalizing here with
  | nil => exact ⟨fun h => ⟨trivial, h⟩, And.right⟩
  | cons name as ih => rw [List.cons_append, Leads, ih, Leads, and_assoc, List.foldl_cons]

/-- A way ends where its last name leads, and goes through directories before that. -/
theorem follow_concat {names : List String} {last : String} :
    d.follow here (names ++ [last]) = .ok l ↔ d.Leads here names ∧ l = enter (names.foldl enter here) last := by
  induction names generalizing here with
  | nil => exact ⟨fun h => ⟨trivial, (Except.ok.inj h).symm⟩, fun h => congrArg Except.ok h.2.symm⟩
  | cons name names ih =>
    obtain ⟨next, rest, same⟩ := List.exists_cons_of_ne_nil (l := names ++ [last]) (by simp)
    rw [List.cons_append, same, follow_cons_eq_ok, ← same, ih, Leads, and_assoc, List.foldl_cons]

theorem eq_foldl_of_follow {names : List String} (h : d.follow here names = .ok l) : l = names.foldl enter here := by
  rcases List.eq_nil_or_concat names with rfl | ⟨front, last, rfl⟩
  · exact (Except.ok.inj h).symm
  · rw [List.concat_eq_append, follow_concat] at h
    rw [List.concat_eq_append, List.foldl_append, h.2]
    rfl

/-- A path that can be followed at all: it is not empty, not too long, and without the character zero. -/
structure Usable (path : String) : Prop where
  named : path ≠ ""
  short : path.utf8ByteSize ≤ longestPath
  plain : path.toList.contains (Char.ofNat 0) = false

theorem locate_eq_ok : d.locate path = .ok l ↔
    Usable path ∧ d.follow (if Path.isAbsolute path then [] else d.working) (Path.parts path) = .ok l := by
  unfold locate
  split
  · next zero =>
    constructor
    · rintro ⟨⟩
    · rintro ⟨usable, -⟩
      rw [usable.plain] at zero
      cases zero
  · next plain =>
    split
    · next none_ =>
      constructor
      · rintro ⟨⟩
      · exact fun h => absurd none_ h.1.named
    · next named =>
      split
      · next long =>
        constructor
        · rintro ⟨⟩
        · exact fun h => absurd h.1.short (Nat.not_le_of_lt long)
      · next short => exact ⟨fun h => ⟨⟨named, Nat.le_of_not_lt short, by simpa using plain⟩, h⟩, And.right⟩

theorem eq_place_of_locate (h : d.locate path = .ok l) : l = d.place path :=
  eq_foldl_of_follow (locate_eq_ok.mp h).2

/-- A path leads to its place. -/
def Reaches (d : Disk) (path : String) : Prop :=
  d.locate path = .ok (d.place path) ∧ ((d.place path).getLast?.getD "").utf8ByteSize ≤ longestName

theorem lookup_of_locate {n : Option Node} (h : d.locate path = .ok l) : d.lookup l = .ok n ↔
    d.Reaches path ∧ n = d.at? (d.place path) := by
  obtain rfl := eq_place_of_locate h
  rw [lookup_eq_ok, Reaches, and_iff_right h]

theorem node_eq_ok {n : Node} : d.node path = .ok n ↔
    d.Reaches path ∧ d.at? (d.place path) = some n ∧ (Path.endsOpen path = true → n = .directory) := by
  rw [node, bind_eq_ok]
  constructor
  · rintro ⟨l, led, rest⟩
    obtain ⟨found, looked, rest⟩ := bind_eq_ok.mp rest
    obtain ⟨reaches, rfl⟩ := (lookup_of_locate led).mp looked
    refine ⟨reaches, ?_⟩
    split at rest
    · cases rest
    · next content here =>
      split at rest
      · cases rest
      · next closed =>
        cases rest
        exact ⟨here, fun opens => absurd opens closed⟩
    · next here =>
      cases rest
      exact ⟨here, fun _ => rfl⟩
  · rintro ⟨reaches, here, closed⟩
    refine ⟨_, reaches.1, bind_eq_ok.mpr ⟨_, (lookup_of_locate reaches.1).mpr ⟨reaches, rfl⟩, ?_⟩⟩
    rw [here]
    cases n with
    | directory => rfl
    | file content =>
      have shut : Path.endsOpen path = false := by
        cases opens : Path.endsOpen path with
        | false => rfl
        | true => cases closed opens
      simp only [shut]
      rfl

theorem isDirectory_iff : d.isDirectory path = true ↔ d.Reaches path ∧ d.at? (d.place path) = some .directory := by
  have known : d.isDirectory path = true ↔ d.node path = .ok .directory := by
    rw [isDirectory]
    split
    · next here => simp [here]
    · next other => simpa using other
  rw [known, node_eq_ok]
  exact ⟨fun h => ⟨h.1, h.2.1⟩, fun h => ⟨h.1, h.2, fun _ => rfl⟩⟩

theorem read_eq_ok {content : Bytes} : d.read path = .ok content ↔
    d.Reaches path ∧ Path.endsOpen path = false ∧ d.at? (d.place path) = some (.file content) := by
  have known : d.read path = .ok content ↔ d.node path = .ok (.file content) := by
    rw [read, bind_eq_ok]
    constructor
    · rintro ⟨n, here, rest⟩
      cases n with
      | directory => cases rest
      | file content' =>
        cases rest
        exact here
    · exact fun here => ⟨_, here, rfl⟩
  rw [known, node_eq_ok]
  constructor
  · rintro ⟨reaches, here, closed⟩
    refine ⟨reaches, ?_, here⟩
    cases opens : Path.endsOpen path with
    | false => rfl
    | true => cases closed opens
  · rintro ⟨reaches, closed, here⟩
    exact ⟨reaches, here, fun opens => absurd opens (by simp [closed])⟩

theorem exists?_iff : d.exists? path = true ↔ ∃ n, d.node path = .ok n := by
  rw [exists?]
  cases d.node path with
  | error e => simp [Except.isOk, Except.toBool]
  | ok n => simp [Except.isOk, Except.toBool]

/-! ### Disks with more on them -/

/-- One disk keeps the directories of another. -/
structure Keeps (d d' : Disk) : Prop where
  working : d'.working = d.working
  directory : ∀ l, d.at? l = some .directory → d'.at? l = some .directory

theorem Keeps.place (h : Keeps d d') (path : String) : d'.place path = d.place path := place_congr h.working path

theorem Keeps.leads (h : Keeps d d') {names : List String} (led : d.Leads here names) : d'.Leads here names := by
  induction names generalizing here with
  | nil => trivial
  | cons name names ih =>
    obtain ⟨short, found⟩ := lookup_eq_ok.mp led.1
    exact ⟨lookup_eq_ok.mpr ⟨short, (h.directory _ found.symm).symm⟩, ih led.2⟩

theorem Keeps.follow (h : Keeps d d') {names : List String} (led : d.follow here names = .ok l) :
    d'.follow here names = .ok l := by
  rcases List.eq_nil_or_concat names with rfl | ⟨front, last, rfl⟩
  · exact led
  · rw [List.concat_eq_append, follow_concat] at led ⊢
    exact ⟨h.leads led.1, led.2⟩

/-- A path that leads somewhere leads there on a disk that keeps the directories. -/
theorem Keeps.reaches (h : Keeps d d') (reaches : d.Reaches path) : d'.Reaches path := by
  rw [Reaches, h.place, locate_eq_ok, h.working]
  obtain ⟨located, short⟩ := reaches
  obtain ⟨usable, led⟩ := locate_eq_ok.mp located
  exact ⟨⟨usable, h.follow led⟩, short⟩

theorem Keeps.isDirectory (h : Keeps d d') (found : d.isDirectory path = true) : d'.isDirectory path = true := by
  rw [isDirectory_iff] at found ⊢
  rw [h.place]
  exact ⟨h.reaches found.1, h.directory _ found.2⟩

/-- What is read at a path stays if what is at its place does. -/
theorem Keeps.read (h : Keeps d d') {content : Bytes} (found : d.read path = .ok content)
    (kept : d'.at? (d.place path) = d.at? (d.place path)) : d'.read path = .ok content := by
  rw [read_eq_ok] at found ⊢
  rw [h.place, kept]
  exact ⟨h.reaches found.1, found.2⟩

theorem Keeps.exists? (h : Keeps d d') (found : d.exists? path = true)
    (kept : d'.at? (d.place path) = d.at? (d.place path)) : d'.exists? path = true := by
  rw [exists?_iff] at found ⊢
  obtain ⟨n, node⟩ := found
  refine ⟨n, ?_⟩
  rw [node_eq_ok] at node ⊢
  rw [h.place, kept]
  exact ⟨h.reaches node.1, node.2⟩

/-! ### Files below a location -/

/-- The names that lead from a location to what is at another, if that is a file below it. -/
def fileBelow? (root : Location) (e : Location × Node) : Option Location :=
  match e.2 with
  | .file _ => below? root e.1
  | .directory => none

/-- The names that lead from a location to the files below it, as the disk has them. -/
def filesBelow (d : Disk) (root : Location) : List Location := d.nodes.filterMap (fileBelow? root)

theorem below?_eq_some {root rest : Location} : below? root l = some rest ↔ l = root ++ rest := by
  induction root generalizing l with
  | nil => exact ⟨Option.some.inj, congrArg some⟩
  | cons a as ih =>
    cases l with
    | nil => simp [below?]
    | cons b bs =>
      rw [below?]
      by_cases same : a = b
      · rw [if_pos same, ih, same]
        simp
      · rw [if_neg same]
        constructor
        · rintro ⟨⟩
        · intro h
          exact absurd (List.cons.inj h).1.symm same

/-- The files that a walk of a path finds. -/
theorem filesUnder_eq_ok {files : List Location} : d.filesUnder path = .ok files ↔
    (∃ content, d.node path = .ok (.file content)) ∧ files = [[]] ∨
      d.node path = .ok .directory ∧ files = (d.filesBelow (d.place path)).mergeSort comesBefore := by
  rw [filesUnder, bind_eq_ok]
  constructor
  · rintro ⟨root, led, rest⟩
    obtain rfl := eq_place_of_locate led
    obtain ⟨n, node, rest⟩ := bind_eq_ok.mp rest
    cases n with
    | file content =>
      cases rest
      exact .inl ⟨⟨content, node⟩, rfl⟩
    | directory => exact .inr ⟨node, (Except.ok.inj rest).symm⟩
  · rintro (⟨⟨content, node⟩, rfl⟩ | ⟨node, rfl⟩)
    · exact ⟨_, (node_eq_ok.mp node).1.1, bind_eq_ok.mpr ⟨_, node, rfl⟩⟩
    · exact ⟨_, (node_eq_ok.mp node).1.1, bind_eq_ok.mpr ⟨_, node, rfl⟩⟩

theorem filterMap_filter_of_none {α β : Type} {f : α → Option β} {keep : α → Bool} {xs : List α}
    (h : ∀ x ∈ xs, keep x = false → f x = none) : (xs.filter keep).filterMap f = xs.filterMap f := by
  induction xs with
  | nil => rfl
  | cons x xs ih =>
    obtain ⟨first, rest⟩ := List.forall_mem_cons.mp h
    cases kept : keep x with
    | true => rw [List.filter_cons_of_pos kept, List.filterMap_cons, ih rest, List.filterMap_cons]
    | false => rw [List.filter_cons_of_neg (by simp [kept]), ih rest, List.filterMap_cons_none (first kept)]

/-- Putting something at a location does not count among the files below another, if it is not below it, or if it is
a directory where nothing was. -/
theorem filesBelow_set {n : Node} {root : Location}
    (h : ¬ root <+: l ∨ n = .directory ∧ d.at? l = none) : (d.set l n).filesBelow root = d.filesBelow root := by
  have uncounted : ∀ e ∈ (l, n) :: d.nodes, e.1 = l → fileBelow? root e = none := by
    intro e mem here
    rcases h with apart | ⟨rfl, free⟩
    · rw [fileBelow?]
      split
      · refine Option.eq_none_iff_forall_ne_some.mpr fun rest found => ?_
        exact apart ⟨rest, (here ▸ below?_eq_some.mp found).symm⟩
      · rfl
    · rcases List.mem_cons.mp mem with rfl | mem
      · rfl
      · rw [at?] at free
        split at free
        · cases free
        · exact absurd (List.lookup_eq_none_iff.mp free e mem) (by simp [here])
  obtain ⟨new, old⟩ := List.forall_mem_cons.mp uncounted
  have first : fileBelow? root (l, n) = none := new rfl
  rw [filesBelow, set, List.filterMap_cons_none first]
  exact filterMap_filter_of_none fun e mem out => old e mem (by simpa using out)

end EventScript.Disk
