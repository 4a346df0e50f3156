import EventScript.Ordered

/-!
# What stands in a table

A table whose keys ascend is given by the value of each key (`Tidy.ext`), where keys that are not there count
as having a value `z`, with which no key is kept. An update changes the value of its key and no other
(`value_update`), and adding one table to another adds the values of each key (`value_foldl_update`).
-/

namespace EventScript.Ordered

variable {κ β : Type} [Ord κ] {key k : κ} {z : β} {f : Option β → β} {t : List (κ × β)}

/-- The value of a key, which is `z` if the key is not there. -/
def value (z : β) (key : κ) (t : List (κ × β)) : β := (find? key t).getD z

/-- The keys ascend. -/
def Ascending (t : List (κ × β)) : Prop := t.Pairwise fun a b => compare a.1 b.1 = .lt

/-- The keys ascend and none has the value `z`. -/
structure Tidy (z : β) (t : List (κ × β)) : Prop where
  ascending : Ascending t
  kept : ∀ e ∈ t, e.2 ≠ z

theorem tidy_nil : Tidy z ([] : List (κ × β)) := ⟨.nil, by simp⟩

theorem Tidy.tail {e : κ × β} (tidy : Tidy z (e :: t)) : Tidy z t :=
  ⟨(List.pairwise_cons.mp tidy.ascending).2, (List.forall_mem_cons.mp tidy.kept).2⟩

@[simp] theorem value_nil : value z key ([] : List (κ × β)) = z := rfl

theorem update_ne_nil (key : κ) (f : Option β → β) (t : List (κ × β)) : update key f t ≠ [] := by
  cases t with
  | nil => exact List.cons_ne_nil _ _
  | cons e t =>
    rw [update]
    split <;> exact List.cons_ne_nil _ _

theorem mem_of_find? {b : β} (found : find? key t = some b) : ∃ e ∈ t, compare key e.1 = .eq ∧ e.2 = b := by
  induction t with
  | nil => cases found
  | cons e t ih =>
    rw [find?] at found
    split at found
    · next same => exact ⟨e, List.mem_cons_self, same, Option.some.inj found⟩
    · obtain ⟨e', mem, h⟩ := ih found
      exact ⟨e', List.mem_cons_of_mem _ mem, h⟩

/-- A key below all others is not there. -/
theorem find?_of_lt (below : ∀ e ∈ t, compare key e.1 = .lt) : find? key t = none := by
  induction t with
  | nil => rfl
  | cons e t ih =>
    obtain ⟨first, others⟩ := List.forall_mem_cons.mp below
    rw [find?, if_neg (by rw [first]; decide), ih others]

theorem value_of_lt (below : ∀ e ∈ t, compare key e.1 = .lt) : value z key t = z := by
  rw [value, find?_of_lt below]
  rfl

/-- A tidy table has a key exactly if its value is not `z`. -/
theorem Tidy.find?_eq (tidy : Tidy z t) [DecidableEq β] :
    find? key t = if value z key t = z then none else some (value z key t) := by
  rw [value]
  cases found : find? key t with
  | none => exact (if_pos rfl).symm
  | some b =>
    obtain ⟨e, mem, -, rfl⟩ := mem_of_find? found
    exact (if_neg (tidy.kept e mem)).symm

section

variable [Std.TransOrd κ]

/-- Two updates of one key are one. -/
theorem update_update (g : Option β → β) (t : List (κ × β)) :
    update key f (update key g t) = update key (fun b => f (some (g b))) t := by
  induction t with
  | nil => simp [update, Std.ReflCmp.compare_self]
  | cons e t ih =>
    cases order : compare key e.1 with
    | lt => simp [update, order, Std.ReflCmp.compare_self]
    | eq => simp [update, order]
    | gt => simp [update, order, ih]

theorem mem_update {e : κ × β} (mem : e ∈ update key f t) :
    e ∈ t ∨ compare key e.1 = .eq ∧ ∃ b, e.2 = f b := by
  induction t with
  | nil =>
    obtain rfl := List.mem_singleton.mp mem
    exact .inr ⟨Std.ReflCmp.compare_self, _, rfl⟩
  | cons a t ih =>
    rw [update] at mem
    split at mem
    · obtain rfl | mem := List.mem_cons.mp mem
      · exact .inr ⟨Std.ReflCmp.compare_self, _, rfl⟩
      · exact .inl mem
    · next same =>
      obtain rfl | mem := List.mem_cons.mp mem
      · exact .inr ⟨same, _, rfl⟩
      · exact .inl (List.mem_cons_of_mem _ mem)
    · obtain rfl | mem := List.mem_cons.mp mem
      · exact .inl List.mem_cons_self
      · exact (ih mem).imp_left (List.mem_cons_of_mem _)

theorem Ascending.update (ascending : Ascending t) (key : κ) (f : Option β → β) :
    Ascending (update key f t) := by
  induction t with
  | nil => exact List.pairwise_singleton _ _
  | cons e t ih =>
    obtain ⟨above, others⟩ := List.pairwise_cons.mp ascending
    rw [Ordered.update]
    split
    · next less =>
      refine List.pairwise_cons.mpr ⟨List.forall_mem_cons.mpr ⟨less, fun a mem => ?_⟩, ascending⟩
      exact Std.TransCmp.lt_trans less (above a mem)
    · exact List.pairwise_cons.mpr ⟨above, others⟩
    · next more =>
      refine List.pairwise_cons.mpr ⟨fun a mem => ?_, ih others⟩
      obtain mem | ⟨same, -⟩ := mem_update mem
      · exact above a mem
      · rw [← Std.TransCmp.congr_right same]
        exact Std.OrientedCmp.gt_iff_lt.mp more

/-- An update that never gives `z` keeps a table tidy. -/
theorem Tidy.update (tidy : Tidy z t) (key : κ) (never : ∀ b, f b ≠ z) : Tidy z (update key f t) where
  ascending := tidy.ascending.update key f
  kept e mem := by
    obtain mem | ⟨-, b, equal⟩ := mem_update mem
    · exact tidy.kept e mem
    · rw [equal]
      exact never b

theorem Tidy.foldl_update {γ : Type} (op : β → γ → β) {s : List (κ × γ)} (never : ∀ e ∈ s, ∀ b, op b e.2 ≠ z)
    (tidy : Tidy z t) : Tidy z (s.foldl (fun t e => Ordered.update e.1 (fun b => op (b.getD z) e.2) t) t) := by
  induction s generalizing t with
  | nil => exact tidy
  | cons e s ih =>
    obtain ⟨first, others⟩ := List.forall_mem_cons.mp never
    exact ih others (tidy.update e.1 fun _ => first _)

end

section

variable [Std.LawfulEqOrd κ]

theorem value_cons_self (e : κ × β) (t : List (κ × β)) : value z e.1 (e :: t) = e.2 := by
  rw [value, find?, if_pos Std.ReflCmp.compare_self]
  rfl

theorem value_cons_of_ne {e : κ × β} (differs : k ≠ e.1) (t : List (κ × β)) :
    value z k (e :: t) = value z k t := by
  rw [value, find?, if_neg fun same => differs (Std.LawfulEqCmp.eq_of_compare same), value]

theorem find?_update_of_ne (differs : k ≠ key) (t : List (κ × β)) :
    find? k (update key f t) = find? k t := by
  have other : compare k key ≠ .eq := fun same => differs (Std.LawfulEqCmp.eq_of_compare same)
  induction t with
  | nil => simp [update, find?, other]
  | cons e t ih =>
    cases order : compare key e.1 with
    | lt => simp [update, find?, order, other]
    | eq =>
      obtain rfl := Std.LawfulEqCmp.eq_of_compare order
      simp [update, find?, other]
    | gt => simp [update, find?, order, ih]

variable [Std.TransOrd κ]

theorem find?_update_self (ascending : Ascending t) : find? key (update key f t) = some (f (find? key t)) := by
  induction t with
  | nil => simp [update, find?, Std.ReflCmp.compare_self]
  | cons e t ih =>
    obtain ⟨above, others⟩ := List.pairwise_cons.mp ascending
    cases order : compare key e.1 with
    | lt =>
      have absent : find? key t = none := find?_of_lt fun a mem => Std.TransCmp.lt_trans order (above a mem)
      simp [update, find?, order, absent, Std.ReflCmp.compare_self]
    | eq => simp [update, find?, order]
    | gt => simp [update, find?, order, ih others]

/-- An update that goes by the value of its key. -/
theorem value_update [DecidableEq κ] (ascending : Ascending t) (g : β → β) :
    value z k (update key (fun b => g (b.getD z)) t) = if k = key then g (value z key t) else value z k t := by
  split
  · next same =>
    rw [same, value, find?_update_self ascending]
    rfl
  · next differs => rw [value, find?_update_of_ne differs, value]

/-- Adding the entries of a table adds the values of each key. -/
theorem value_foldl_update [DecidableEq κ] {γ : Type} {y : γ} (op : β → γ → β) (neutral : ∀ b, op b y = b)
    {s : List (κ × γ)} (ascending : Ascending s) : ∀ {t : List (κ × β)}, Ascending t →
      value z k (s.foldl (fun t e => update e.1 (fun b => op (b.getD z) e.2) t) t) =
        op (value z k t) (value y k s) := by
  induction s with
  | nil => exact fun _ => (neutral _).symm
  | cons e s ih =>
    intro t h
    obtain ⟨above, others⟩ := List.pairwise_cons.mp ascending
    rw [List.foldl_cons, ih others (h.update _ _), value_update h (op · e.2)]
    by_cases same : k = e.1
    · -- the key does not come again
      rw [if_pos same, same, value_of_lt above, neutral, value_cons_self]
    · rw [if_neg same, value_cons_of_ne same]

/-- In tables with the same values, the first key of one is not below that of the other. -/
theorem Tidy.not_lt {a b : κ × β} {s : List (κ × β)} (left : Tidy z (a :: s)) (right : Tidy z (b :: t))
    (equal : ∀ key, value z key (a :: s) = value z key (b :: t)) : compare a.1 b.1 ≠ .lt := by
  intro less
  have above := (List.pairwise_cons.mp right.ascending).1
  have absent : value z a.1 (b :: t) = z :=
    value_of_lt (List.forall_mem_cons.mpr ⟨less, fun e mem => Std.TransCmp.lt_trans less (above e mem)⟩)
  refine left.kept a List.mem_cons_self ?_
  rw [← absent, ← equal, value_cons_self]

/-- Tables that give the same values are the same. -/
theorem Tidy.ext : ∀ {s t : List (κ × β)}, Tidy z s → Tidy z t →
    (∀ key, value z key s = value z key t) → s = t
  | [], [], _, _, _ => rfl
  | [], b :: t, _, right, equal => by
    refine absurd ?_ (right.kept b List.mem_cons_self)
    rw [← value_cons_self (z := z) b t, ← equal, value_nil]
  | a :: s, [], left, _, equal => by
    refine absurd ?_ (left.kept a List.mem_cons_self)
    rw [← value_cons_self (z := z) a s, equal, value_nil]
  | a :: s, b :: t, left, right, equal => by
    have same : a.1 = b.1 := by
      cases order : compare a.1 b.1 with
      | lt => exact absurd order (left.not_lt right equal)
      | eq => exact Std.LawfulEqCmp.eq_of_compare order
      | gt => exact absurd (Std.OrientedCmp.gt_iff_lt.mp order) (right.not_lt left fun key => (equal key).symm)
    have entry : a = b := by
      refine Prod.ext same ?_
      rw [← value_cons_self (z := z) a s, equal, same, value_cons_self]
    subst entry
    refine congrArg (a :: ·) (Tidy.ext left.tail right.tail fun key => ?_)
    by_cases first : key = a.1
    · rw [first, value_of_lt (List.pairwise_cons.mp left.ascending).1,
        value_of_lt (List.pairwise_cons.mp right.ascending).1]
    · rw [← value_cons_of_ne first s, equal, value_cons_of_ne first]

end

end EventScript.Ordered
