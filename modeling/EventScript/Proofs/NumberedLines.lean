import EventScript.Proofs.Run
import EventScript.Source.Line

/-!
# Lines and their numbers

The lines of a text are prepared one after another, and each keeps the number of its place. Two texts in a row are
prepared one after the other (`preparedFrom_append`), the second with numbers that go on after the first
(`preparedFrom_add`).
-/

namespace EventScript.Source

variable {catalog : Catalog} {n : Nat} {ls : List Line}

theorem preparedFrom_cons (n : Nat) (raw : String) (raws : List String) : preparedFrom catalog n (raw :: raws) =
    (prepared catalog raw.toList).mapError (Prod.mk n) >>= fun text =>
      preparedFrom catalog (n + 1) raws >>= fun rest => .ok ((text.map (Line.mk n)).toList ++ rest) := by
  rw [preparedFrom]
  rcases prepared catalog raw.toList with e | text | text
  · rfl
  · cases preparedFrom catalog (n + 1) raws <;> rfl
  · cases preparedFrom catalog (n + 1) raws <;> rfl

/-- Two texts in a row. -/
theorem preparedFrom_append (as bs : List String) : ∀ n, preparedFrom catalog n (as ++ bs) =
    preparedFrom catalog n as >>= fun la =>
      preparedFrom catalog (n + as.length) bs >>= fun lb => .ok (la ++ lb) := by
  induction as with
  | nil =>
    intro n
    show preparedFrom catalog n bs = preparedFrom catalog n bs >>= Except.ok
    cases preparedFrom catalog n bs <;> rfl
  | cons raw as ih =>
    intro n
    rw [List.cons_append, preparedFrom_cons, preparedFrom_cons, ih, List.length_cons, Nat.add_comm as.length,
      ← Nat.add_assoc]
    cases (prepared catalog raw.toList).mapError (Prod.mk n) with
    | error e => rfl
    | ok text =>
      cases preparedFrom catalog (n + 1) as with
      | error e => rfl
      | ok la =>
        cases preparedFrom catalog (n + 1 + as.length) bs with
        | error e => rfl
        | ok lb => exact congrArg Except.ok (List.append_assoc ..).symm

theorem preparedFrom_cons_eq_ok {raw : String} {raws : List String} :
    preparedFrom catalog n (raw :: raws) = .ok ls ↔ ∃ text rest, prepared catalog raw.toList = .ok text ∧
      preparedFrom catalog (n + 1) raws = .ok rest ∧ ls = (text.map (Line.mk n)).toList ++ rest := by
  simp only [preparedFrom_cons, bind_eq_ok, mapError_eq_ok, Except.ok.injEq, @eq_comm _ _ ls, exists_and_left]

theorem preparedFrom_append_eq_ok {as bs : List String} :
    preparedFrom catalog n (as ++ bs) = .ok ls ↔ ∃ la lb, preparedFrom catalog n as = .ok la ∧
      preparedFrom catalog (n + as.length) bs = .ok lb ∧ ls = la ++ lb := by
  simp only [preparedFrom_append, bind_eq_ok, Except.ok.injEq, @eq_comm _ _ ls, exists_and_left]

/-- A line that is prepared comes from a line of the text. -/
theorem exists_raw {l : Line} {raws : List String} (all : preparedFrom catalog n raws = .ok ls) (mem : l ∈ ls) :
    ∃ raw ∈ raws, prepared catalog raw.toList = .ok (some l.text) := by
  induction raws generalizing n ls with
  | nil =>
    cases all
    cases mem
  | cons raw raws ih =>
    obtain ⟨text, rest, first, others, rfl⟩ := preparedFrom_cons_eq_ok.mp all
    rcases List.mem_append.mp mem with mem | mem
    · obtain ⟨text, rfl, rfl⟩ := Option.map_eq_some_iff.mp (Option.mem_toList.mp mem)
      exact ⟨raw, List.mem_cons_self .., first⟩
    · obtain ⟨raw', mem', found⟩ := ih others mem
      exact ⟨raw', List.mem_cons_of_mem raw mem', found⟩

/-- A line of the text is among those that are prepared, unless it says nothing. -/
theorem exists_line {raw : String} {raws : List String} (all : preparedFrom catalog n raws = .ok ls)
    (mem : raw ∈ raws) :
    ∃ text, prepared catalog raw.toList = .ok text ∧ ∀ t ∈ text, ∃ l ∈ ls, l.text = t := by
  induction raws generalizing n ls with
  | nil => cases mem
  | cons first raws ih =>
    obtain ⟨text, rest, found, others, rfl⟩ := preparedFrom_cons_eq_ok.mp all
    rcases List.mem_cons.mp mem with rfl | later
    · refine ⟨text, found, fun t ht => ⟨⟨n, t⟩, ?_, rfl⟩⟩
      apply List.mem_append_left
      rw [Option.mem_toList, Option.mem_def.mp ht]
      rfl
    · obtain ⟨text', found', among⟩ := ih others later
      refine ⟨text', found', fun t ht => ?_⟩
      obtain ⟨l, hl, same⟩ := among t ht
      exact ⟨l, List.mem_append_right _ hl, same⟩

/-- Lines at the front of those that are prepared come from lines at the front of the text. -/
theorem exists_front {front : List Line} : ∀ {raws : List String} {n : Nat} {ls : List Line},
    preparedFrom catalog n raws = .ok ls → front <+: ls →
      ∃ raws', raws' <+: raws ∧ preparedFrom catalog n raws' = .ok front
  | [], _, _, all, part => by
    cases all
    obtain rfl := List.prefix_nil.mp part
    exact ⟨[], List.prefix_rfl, rfl⟩
  | raw :: raws, n, ls, all, part => by
    obtain ⟨text, rest, first, others, rfl⟩ := preparedFrom_cons_eq_ok.mp all
    cases front with
    | nil => exact ⟨[], List.nil_prefix, rfl⟩
    | cons l front =>
      -- a line that says nothing is not among those that are prepared
      obtain ⟨rest', part', same⟩ : ∃ rest', rest' <+: rest ∧ l :: front = (text.map (Line.mk n)).toList ++ rest' := by
        cases text with
        | none => exact ⟨_, part, rfl⟩
        | some text =>
          obtain ⟨rfl, part'⟩ := List.cons_prefix_cons.mp part
          exact ⟨front, part', rfl⟩
      obtain ⟨raws', shorter, taken⟩ := exists_front others part'
      exact ⟨raw :: raws', List.cons_prefix_cons.mpr ⟨rfl, shorter⟩,
        preparedFrom_cons_eq_ok.mpr ⟨text, rest', first, taken, same⟩⟩

/-! ### Other numbers -/

/-- A line with another number. -/
def Line.renumber (f : Nat → Nat) (l : Line) : Line := ⟨f l.number, l.text⟩

/-- A text that begins further down has the same lines with larger numbers. -/
theorem preparedFrom_add (k : Nat) (raws : List String) : ∀ n, preparedFrom catalog (n + k) raws =
    ((preparedFrom catalog n raws).map (List.map (Line.renumber (· + k)))).mapError fun e => (e.1 + k, e.2) := by
  induction raws with
  | nil => exact fun _ => rfl
  | cons raw raws ih =>
    intro n
    rw [preparedFrom_cons, preparedFrom_cons, Nat.add_right_comm, ih]
    rcases prepared catalog raw.toList with e | text | text
    · rfl
    · cases preparedFrom catalog (n + 1) raws <;> rfl
    · cases preparedFrom catalog (n + 1) raws <;> rfl

end EventScript.Source
