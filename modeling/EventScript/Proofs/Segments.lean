import EventScript.Path

/-!
# Segments of joined paths

A path is its segments (`ofSegments_segments`), and a path that is joined to another has the segments of both
(`segments_join`). So the directory that holds the last of some proper names is that of the names before it
(`parent?_join_concat`), and that of a single name is the path the name was joined to, but for idle segments at its
end (`parent?_join_single`).
-/

namespace EventScript.Path

/-! ### Cutting and joining -/

theorem splitAt_ne_nil (d : Char) (cs : List Char) : splitAt d cs ≠ [] := by
  cases cs with
  | nil => exact List.cons_ne_nil _ _
  | cons c cs =>
    rw [splitAt]
    split
    · exact List.cons_ne_nil _ _
    · split <;> exact List.cons_ne_nil _ _

theorem splitAt_append (d : Char) (as bs : List Char) :
    splitAt d (as ++ d :: bs) = splitAt d as ++ splitAt d bs := by
  induction as with
  | nil => simp [splitAt]
  | cons c as ih =>
    rw [List.cons_append, splitAt, splitAt, ih]
    split
    · rfl
    · cases pieces : splitAt d as with
      | nil => exact absurd pieces (splitAt_ne_nil d as)
      | cons => rfl

theorem splitAt_of_notMem {d : Char} {cs : List Char} (h : d ∉ cs) : splitAt d cs = [cs] := by
  induction cs with
  | nil => rfl
  | cons c cs ih =>
    rw [List.mem_cons, not_or] at h
    rw [splitAt, if_neg (Ne.symm h.1), ih h.2]

theorem notMem_of_mem_splitAt {d : Char} {cs : List Char} : ∀ piece ∈ splitAt d cs, d ∉ piece := by
  induction cs with
  | nil => simp [splitAt]
  | cons c cs ih =>
    rw [splitAt]
    split
    · simpa using ih
    · next differs =>
      cases pieces : splitAt d cs with
      | nil => exact absurd pieces (splitAt_ne_nil d cs)
      | cons piece pieces' =>
        rw [pieces, List.forall_mem_cons] at ih
        simpa [Ne.symm differs] using ih

theorem segments_ne_nil (path : String) : segments path ≠ [] :=
  fun none_ => splitAt_ne_nil '/' path.toList (List.map_eq_nil_iff.mp none_)

theorem segments_append (a b : String) : segments (a ++ "/" ++ b) = segments a ++ segments b := by
  have text : (a ++ "/" ++ b).toList = a.toList ++ '/' :: b.toList := by simp [String.toList_append]
  rw [segments, text, splitAt_append, List.map_append]
  rfl

theorem segments_of_notMem {name : String} (h : '/' ∉ name.toList) : segments name = [name] := by
  rw [segments, splitAt_of_notMem h, List.map_singleton, String.ofList_toList]

theorem notMem_of_mem_segments {path segment : String} (mem : segment ∈ segments path) : '/' ∉ segment.toList := by
  obtain ⟨piece, cut, rfl⟩ := List.mem_map.mp mem
  rw [String.toList_ofList]
  exact notMem_of_mem_splitAt piece cut

theorem ofSegments_cons (first : String) {rest : List String} (h : rest ≠ []) :
    ofSegments (first :: rest) = first ++ "/" ++ ofSegments rest := by
  cases rest with
  | nil => exact absurd rfl h
  | cons next rest => exact String.intercalate_cons_cons

theorem segments_ofSegments : ∀ {names : List String}, names ≠ [] → (∀ n ∈ names, '/' ∉ n.toList) →
    segments (ofSegments names) = names
  | [], h, _ => absurd rfl h
  | [name], _, h => by
    rw [ofSegments, String.intercalate_singleton, segments_of_notMem (h name (List.mem_singleton_self name))]
  | name :: next :: names, _, h => by
    obtain ⟨here, others⟩ := List.forall_mem_cons.mp h
    rw [ofSegments_cons name (List.cons_ne_nil _ _), segments_append, segments_of_notMem here,
      segments_ofSegments (List.cons_ne_nil _ _) others]
    rfl

theorem ofSegments_map_splitAt (cs : List Char) :
    (ofSegments ((splitAt '/' cs).map String.ofList)).toList = cs := by
  induction cs with
  | nil => rfl
  | cons c cs ih =>
    have some_ : (splitAt '/' cs).map String.ofList ≠ [] := fun h => splitAt_ne_nil '/' cs (List.map_eq_nil_iff.mp h)
    rw [splitAt]
    split
    · next slash =>
      rw [List.map_cons, ofSegments_cons _ some_, String.toList_append, String.toList_append, ih, slash]
      rfl
    · cases pieces : splitAt '/' cs with
      | nil => exact absurd pieces (splitAt_ne_nil '/' cs)
      | cons piece rest =>
        rw [pieces, List.map_cons] at ih
        show (ofSegments (String.ofList (c :: piece) :: rest.map String.ofList)).toList = c :: cs
        by_cases last : rest.map String.ofList = []
        · rw [last, ofSegments, String.intercalate_singleton, String.toList_ofList] at ih ⊢
          rw [ih]
        · rw [ofSegments_cons _ last, String.toList_append, String.toList_append, String.toList_ofList] at ih ⊢
          rw [List.cons_append, List.cons_append, ih]

/-- A path is its segments. -/
theorem ofSegments_segments (path : String) : ofSegments (segments path) = path :=
  String.toList_inj.mp (ofSegments_map_splitAt path.toList)

/-! ### Joined paths -/

/-- The segments that come first in what is joined to a path. -/
def lead (base : String) : List String :=
  if base = "" then []
  else if base.toList.getLast? = some '/' then (segments base).dropLast
  else segments base

theorem segments_of_open {base : String} (h : base.toList.getLast? = some '/') :
    ∃ front, base = front ++ "/" ∧ segments base = segments front ++ [""] := by
  obtain ⟨cs, same⟩ := List.getLast?_eq_some_iff.mp h
  have text : base = String.ofList cs ++ "/" := by
    rw [← String.toList_inj, same, String.toList_append, String.toList_ofList]
    rfl
  refine ⟨String.ofList cs, text, ?_⟩
  have whole := segments_append (String.ofList cs) ""
  rwa [String.append_empty, ← text] at whole

theorem segments_join {base path : String} (relative : isAbsolute path = false) :
    segments (join base path) = lead base ++ segments path := by
  rw [join, lead, relative, Bool.false_or]
  by_cases none_ : base = ""
  · rw [if_pos (decide_eq_true none_), if_pos none_]
    rfl
  · rw [if_neg (by simpa using none_), if_neg none_]
    by_cases closed : base.toList.getLast? = some '/'
    · obtain ⟨front, rfl, cut⟩ := segments_of_open closed
      rw [if_pos closed, if_pos closed, cut, List.dropLast_concat, segments_append]
    · rw [if_neg closed, if_neg closed, segments_append]

/-- A path joined with nothing is empty or ends open. -/
theorem join_nothing (base : String) :
    join base (ofSegments []) = "" ∨ endsOpen (join base (ofSegments [])) = true := by
  rw [show ofSegments [] = "" from rfl, join]
  by_cases empty : base = ""
  · exact .inl (if_pos (by simp [empty]))
  · right
    rw [if_neg (by simp [empty, isAbsolute]), endsOpen]
    by_cases opens : base.toList.getLast? = some '/'
    · rw [if_pos opens, String.append_empty, opens]
      rfl
    · rw [if_neg opens, String.append_empty, String.toList_append]
      simp

theorem lead_ne_nil {base : String} (h : base ≠ "") : lead base ≠ [] := by
  rw [lead, if_neg h]
  split
  · next closed =>
    obtain ⟨front, -, cut⟩ := segments_of_open closed
    rw [cut, List.dropLast_concat]
    exact segments_ne_nil front
  · exact segments_ne_nil base

theorem mem_segments_of_mem_lead {base segment : String} (mem : segment ∈ lead base) : segment ∈ segments base := by
  rw [lead] at mem
  split at mem
  · cases mem
  · split at mem
    · exact List.dropLast_subset _ mem
    · exact mem

theorem parts_eq_lead (base : String) : parts base = (lead base).filter fun s => s != "" := by
  rw [lead, parts]
  split
  · next none_ =>
    rw [none_]
    rfl
  · split
    · next closed =>
      obtain ⟨front, -, cut⟩ := segments_of_open closed
      rw [cut, List.dropLast_concat, List.filter_append]
      exact List.append_nil _
    · rfl

/-- The names of a joined path are those of both. -/
theorem parts_join {base path : String} (relative : isAbsolute path = false) :
    parts (join base path) = parts base ++ parts path := by
  rw [parts, segments_join relative, List.filter_append, ← parts_eq_lead]
  rfl

theorem isAbsolute_iff {path : String} (h : path ≠ "") :
    isAbsolute path = true ↔ (segments path).head? = some "" := by
  have chars : path.toList ≠ [] := fun none_ => h (String.toList_inj.mp none_)
  rw [isAbsolute, decide_eq_true_iff, segments]
  cases cs : path.toList with
  | nil => exact absurd cs chars
  | cons c rest =>
    rw [splitAt]
    by_cases slash : c = '/'
    · simp [slash]
    · rw [if_neg slash]
      cases pieces : splitAt '/' rest with
      | nil => exact absurd pieces (splitAt_ne_nil '/' rest)
      | cons piece others =>
        simp [slash]

theorem head?_lead {base : String} (h : base ≠ "") : (lead base).head? = (segments base).head? := by
  rw [lead, if_neg h]
  split
  · next closed =>
    obtain ⟨front, -, cut⟩ := segments_of_open closed
    obtain ⟨first, rest, same⟩ := List.exists_cons_of_ne_nil (segments_ne_nil front)
    rw [cut, List.dropLast_concat, same]
    rfl
  · rfl

theorem isAbsolute_join {base path : String} (relative : isAbsolute path = false) :
    isAbsolute (join base path) = isAbsolute base := by
  by_cases none_ : base = ""
  · rw [join, none_, if_pos (by simp), relative]
    rfl
  · have some_ : join base path ≠ "" := by
      intro empty
      have cut : segments (join base path) = lead base ++ segments path := segments_join relative
      rw [empty] at cut
      have lengths := congrArg List.length cut
      have first := List.length_pos_iff.mpr (lead_ne_nil none_)
      have second := List.length_pos_iff.mpr (segments_ne_nil path)
      rw [List.length_append] at lengths
      have single : (segments "").length = 1 := rfl
      omega
    obtain ⟨first, rest, same⟩ := List.exists_cons_of_ne_nil (lead_ne_nil none_)
    rw [Bool.eq_iff_iff, isAbsolute_iff some_, isAbsolute_iff none_, segments_join relative, ← head?_lead none_, same]
    exact Iff.rfl

/-! ### Proper names -/

/-- A name that leads from a directory to something in it. -/
structure Proper (name : String) : Prop where
  single : '/' ∉ name.toList
  ne_empty : name ≠ ""
  ne_here : name ≠ "."
  ne_above : name ≠ ".."

instance (name : String) : Decidable (Proper name) :=
  decidable_of_iff ('/' ∉ name.toList ∧ name ≠ "" ∧ name ≠ "." ∧ name ≠ "..")
    ⟨fun ⟨single, ne_empty, ne_here, ne_above⟩ => ⟨single, ne_empty, ne_here, ne_above⟩,
      fun h => ⟨h.single, h.ne_empty, h.ne_here, h.ne_above⟩⟩

theorem Proper.isIdle {name : String} (h : Proper name) : isIdle name = false := by
  simp [Path.isIdle, h.ne_empty, h.ne_here]

theorem isAbsolute_ofSegments {names : List String} (proper : ∀ n ∈ names, Proper n) :
    isAbsolute (ofSegments names) = false := by
  cases names with
  | nil => rfl
  | cons name rest =>
    have some_ : ofSegments (name :: rest) ≠ "" := by
      intro none_
      have cut := segments_ofSegments (List.cons_ne_nil name rest) fun n mem => (proper n mem).single
      rw [none_] at cut
      cases cut
      exact (proper "" (List.mem_singleton_self _)).ne_empty rfl
    rw [← Bool.not_eq_true, isAbsolute_iff some_,
      segments_ofSegments (List.cons_ne_nil name rest) fun n mem => (proper n mem).single]
    intro first
    exact (proper name List.mem_cons_self).ne_empty (Option.some.inj first)

theorem parts_ofSegments {names : List String} (proper : ∀ n ∈ names, Proper n) : parts (ofSegments names) = names := by
  cases names with
  | nil => rfl
  | cons name rest =>
    rw [parts, segments_ofSegments (List.cons_ne_nil name rest) fun n mem => (proper n mem).single,
      List.filter_eq_self]
    exact fun n mem => bne_iff_ne.mpr (proper n mem).ne_empty

/-- The names of a path with proper names joined to it. -/
theorem parts_join_ofSegments (base : String) {names : List String} (proper : ∀ n ∈ names, Proper n) :
    parts (join base (ofSegments names)) = parts base ++ names := by
  rw [parts_join (isAbsolute_ofSegments proper), parts_ofSegments proper]

/-! ### Directories -/

theorem trimmed_of_last {path last : String} {front : List String} (cut : segments path = front ++ [last])
    (busy : isIdle last = false) : trimmed path = front ++ [last] := by
  rw [trimmed, cut]
  cases front with
  | nil => rfl
  | cons first rest =>
    simp only [List.cons_append, List.reverse_append, List.reverse_singleton, List.nil_append]
    rw [List.dropWhile_cons_of_neg (by simp [busy]), List.reverse_cons, List.reverse_reverse]

theorem segments_join_concat {base last : String} {names : List String} (proper : ∀ n ∈ names ++ [last], Proper n) :
    segments (join base (ofSegments (names ++ [last]))) = lead base ++ names ++ [last] := by
  have some_ : names ++ [last] ≠ [] := List.append_ne_nil_of_right_ne_nil _ (List.cons_ne_nil _ _)
  rw [segments_join (isAbsolute_ofSegments proper), segments_ofSegments some_ fun n mem => (proper n mem).single,
    List.append_assoc]

/-- The directory of the last of several segments. -/
theorem parent?_of_segments {path last : String} {front : List String} (cut : segments path = front ++ [last])
    (busy : isIdle last = false) (some_ : front ≠ []) :
    trimmed (ofSegments front) = [""] ∧ parent? path = some "/" ∨
      trimmed (ofSegments front) ≠ [""] ∧ parent? path = some (ofSegments (trimmed (ofSegments front))) := by
  rw [parent?, trimmed_of_last cut busy]
  split
  · next none_ => exact absurd none_ (by simp)
  · next single =>
    have lengths := congrArg List.length single
    have pos := List.length_pos_iff.mpr some_
    simp only [List.length_append, List.length_singleton] at lengths
    omega
  · rw [List.dropLast_concat]
    split
    · next root => exact .inl ⟨root, rfl⟩
    · next other => exact .inr ⟨other, rfl⟩

/-- The directory of the last of several proper names. -/
theorem parent?_join_concat (base : String) {names : List String} {name last : String}
    (proper : ∀ n ∈ names ++ [name] ++ [last], Proper n) :
    parent? (join base (ofSegments (names ++ [name] ++ [last]))) = some (join base (ofSegments (names ++ [name]))) := by
  obtain ⟨front, final⟩ := List.forall_mem_append.mp proper
  have lastBusy := (final last (List.mem_singleton_self _)).isIdle
  have nameProper := front name (List.mem_append_right _ (List.mem_singleton_self _))
  have inner : segments (join base (ofSegments (names ++ [name]))) = lead base ++ names ++ [name] :=
    segments_join_concat front
  have shown : ofSegments (lead base ++ names ++ [name]) = join base (ofSegments (names ++ [name])) := by
    rw [← inner, ofSegments_segments]
  have outer : segments (join base (ofSegments (names ++ [name] ++ [last]))) =
      (lead base ++ names ++ [name]) ++ [last] := by
    rw [segments_join_concat proper, ← List.append_assoc]
  have kept : trimmed (ofSegments (lead base ++ names ++ [name])) = lead base ++ names ++ [name] := by
    rw [shown]
    exact trimmed_of_last inner nameProper.isIdle
  rcases parent?_of_segments outer lastBusy (by simp) with ⟨root, -⟩ | ⟨-, up⟩
  · have same := congrArg List.getLast? (kept.symm.trans root)
    rw [List.getLast?_concat] at same
    exact absurd (Option.some.inj same) nameProper.ne_empty
  · rw [up, kept, shown]

theorem segments_join_single {base name : String} (proper : Proper name) :
    segments (join base name) = lead base ++ [name] := by
  have whole : segments (join base (ofSegments ([] ++ [name]))) = lead base ++ [] ++ [name] :=
    segments_join_concat (List.forall_mem_singleton.mpr proper)
  rwa [List.nil_append, ofSegments, String.intercalate_singleton, List.append_nil] at whole

/-- A proper name that is joined to a path is its file name. -/
theorem fileName?_join (base : String) {name : String} (proper : Proper name) :
    fileName? (join base name) = some name := by
  have other : ¬ (isIdle name || decide (name = "..")) = true := by simp [proper.isIdle, proper.ne_above]
  rw [fileName?, trimmed_of_last (segments_join_single proper) proper.isIdle, List.getLast?_concat]
  exact if_neg other

theorem filter_idle {idle : List String} (h : ∀ s ∈ idle, isIdle s = true) :
    ∃ n, (idle.filter fun s => s != "") = List.replicate n "." := by
  refine ⟨_, List.eq_replicate_iff.mpr ⟨rfl, fun s mem => ?_⟩⟩
  obtain ⟨inside, named⟩ := List.mem_filter.mp mem
  have possible := h s inside
  rw [isIdle, Bool.or_eq_true, decide_eq_true_iff, decide_eq_true_iff] at possible
  exact possible.resolve_left (bne_iff_ne.mp named)

/-- The directory of a single proper name is the path it was joined to, but for idle segments at the end. -/
theorem parent?_join_single {base name : String} (proper : Proper name) (h : base ≠ "") :
    ∃ up, parent? (join base name) = some up ∧ up ≠ "" ∧ isAbsolute up = isAbsolute base ∧
      ∃ n, parts base = parts up ++ List.replicate n "." := by
  have cut : segments (join base name) = lead base ++ [name] := segments_join_single proper
  obtain ⟨first, rest, split_⟩ := List.exists_cons_of_ne_nil (lead_ne_nil h)
  have slashless : ∀ n ∈ first :: rest, '/' ∉ n.toList := fun n mem =>
    notMem_of_mem_segments (mem_segments_of_mem_lead (split_ ▸ mem))
  have absolute : isAbsolute base = true ↔ first = "" := by
    rw [isAbsolute_iff h, ← head?_lead h, split_]
    exact ⟨Option.some.inj, congrArg some⟩
  -- What is left of the segments in front, and what is idle behind them.
  obtain ⟨kept, keptEq⟩ : ∃ kept, kept = (rest.reverse.dropWhile isIdle).reverse := ⟨_, rfl⟩
  obtain ⟨idle, idleEq⟩ : ∃ idle, idle = (rest.reverse.takeWhile isIdle).reverse := ⟨_, rfl⟩
  have whole : rest = kept ++ idle := by
    rw [keptEq, idleEq, ← List.reverse_append, List.takeWhile_append_dropWhile, List.reverse_reverse]
  have lazy : ∀ s ∈ idle, isIdle s = true := by
    intro s mem
    rw [idleEq, List.mem_reverse] at mem
    exact List.all_eq_true.mp List.all_takeWhile s mem
  have trimmed_ : trimmed (ofSegments (first :: rest)) = first :: kept := by
    rw [trimmed, segments_ofSegments (List.cons_ne_nil _ _) slashless, keptEq]
  obtain ⟨n, dots⟩ := filter_idle lazy
  have named : parts base = ((first :: kept).filter fun s => s != "") ++ List.replicate n "." := by
    rw [parts_eq_lead, split_, whole, ← dots, ← List.filter_append, List.cons_append]
  rcases parent?_of_segments cut proper.isIdle (lead_ne_nil h) with ⟨root, up⟩ | ⟨other, up⟩
  · rw [split_, trimmed_] at root
    rw [root] at named
    cases root
    refine ⟨"/", up, by decide, ?_, n, named⟩
    rw [absolute.mpr rfl]
    rfl
  · rw [split_, trimmed_] at other up
    have front : segments (ofSegments (first :: kept)) = first :: kept := by
      refine segments_ofSegments (List.cons_ne_nil _ _) fun n mem => slashless n ?_
      rw [whole, ← List.cons_append]
      exact List.mem_append_left _ mem
    have some_ : ofSegments (first :: kept) ≠ "" := by
      intro none_
      rw [none_] at front
      exact other front.symm
    refine ⟨_, up, some_, ?_, n, ?_⟩
    · rw [Bool.eq_iff_iff, isAbsolute_iff some_, front, absolute]
      exact ⟨Option.some.inj, congrArg some⟩
    · rw [named, parts, front]

/-- The directory of the last of some proper names is that of the names before it, or the path they were joined to. -/
theorem parent?_join_cases {base up : String} {names : List String} (some_ : names ≠ [])
    (proper : ∀ n ∈ names, Proper n) (parent : parent? (join base (ofSegments names)) = some up) :
    (∃ front, front ≠ [] ∧ (∀ n ∈ front, Proper n) ∧ up = join base (ofSegments front)) ∨
      ∃ name, Proper name ∧ parent? (join base name) = some up := by
  obtain ⟨front, last, rfl⟩ := (List.eq_nil_or_concat names).resolve_left some_
  rw [List.concat_eq_append] at proper parent
  rcases List.eq_nil_or_concat front with rfl | ⟨before, name, rfl⟩
  · rw [List.nil_append, ofSegments, String.intercalate_singleton] at parent
    exact .inr ⟨last, proper last (List.mem_singleton_self last), parent⟩
  · rw [List.concat_eq_append] at proper parent
    rw [parent?_join_concat base proper] at parent
    exact .inl ⟨before ++ [name], by simp, fun n mem => proper n (List.mem_append_left _ mem),
      (Option.some.inj parent).symm⟩

end EventScript.Path
