import EventScript.Traced

/-!
# Computations that end with a value

`Yields m s a s'` says that the computation `m` takes the state `s` to the state `s'` and ends with
the value `a`. A sequence of steps ends with a value exactly if each step does, and what each step
keeps is kept by all of them.
-/

namespace EventScript

variable {ν ε α β σ : Type}

/-! ### Sums -/

/-- The sum of a number for each member of a list. -/
def sumBy (f : α → Nat) : List α → Nat
  | [] => 0
  | x :: xs => f x + sumBy f xs

theorem sumBy_append (f : α → Nat) (xs ys : List α) : sumBy f (xs ++ ys) = sumBy f xs + sumBy f ys := by
  induction xs with
  | nil => exact (Nat.zero_add _).symm
  | cons x xs ih => rw [List.cons_append, sumBy, ih, sumBy, Nat.add_assoc]

theorem sumBy_congr {f g : α → Nat} {xs : List α} (h : ∀ x ∈ xs, f x = g x) : sumBy f xs = sumBy g xs := by
  induction xs with
  | nil => rfl
  | cons x xs ih =>
    obtain ⟨first, others⟩ := List.forall_mem_cons.mp h
    rw [sumBy, sumBy, first, ih others]

/-! ### Outcomes without a state -/

theorem bind_eq_ok {x : Except ε α} {f : α → Except ε β} {b : β} :
    x >>= f = .ok b ↔ ∃ a, x = .ok a ∧ f a = .ok b := by
  cases x with
  | error e =>
    constructor
    · intro h
      cases h
    · rintro ⟨a, ⟨⟩, -⟩
  | ok a =>
    constructor
    · exact fun h => ⟨a, rfl, h⟩
    · rintro ⟨a', ⟨⟩, h⟩
      exact h

theorem bind_eq_error {x : Except ε α} {f : α → Except ε β} {e : ε} :
    x >>= f = .error e ↔ x = .error e ∨ ∃ a, x = .ok a ∧ f a = .error e := by
  cases x with
  | error e' =>
    constructor
    · intro h
      exact .inl (congrArg Except.error (Except.error.inj h))
    · rintro (⟨⟨⟩⟩ | ⟨a, ⟨⟩, -⟩)
      rfl
  | ok a =>
    constructor
    · exact fun h => .inr ⟨a, rfl, h⟩
    · rintro (⟨⟨⟩⟩ | ⟨a', ⟨⟩, h⟩)
      exact h

theorem ok_bind (a : α) (f : α → Except ε β) : Except.ok a >>= f = f a := rfl

theorem mapError_eq_ok {δ : Type} {g : ε → δ} {x : Except ε α} {a : α} :
    x.mapError g = .ok a ↔ x = .ok a := by
  cases x with
  | error e =>
    constructor
    · intro h
      cases h
    · rintro ⟨⟩
  | ok b => exact ⟨fun h => congrArg Except.ok (Except.ok.inj h), fun h => congrArg Except.ok (Except.ok.inj h)⟩

theorem mapError_eq_error {δ : Type} {g : ε → δ} {x : Except ε α} {d : δ} :
    x.mapError g = .error d ↔ ∃ e, x = .error e ∧ g e = d := by
  cases x with
  | error e =>
    constructor
    · exact fun h => ⟨e, rfl, Except.error.inj h⟩
    · rintro ⟨e', ⟨⟩, rfl⟩
      rfl
  | ok b =>
    constructor
    · intro h
      cases h
    · rintro ⟨e, ⟨⟩, -⟩

/-- Outcomes that look alike are the same fault, or values that look alike. -/
theorem cases_of_map_eq {γ : Type} {f : α → γ} {x y : Except ε α} (h : x.map f = y.map f) :
    (∃ e, x = .error e ∧ y = .error e) ∨ ∃ a b, x = .ok a ∧ y = .ok b ∧ f a = f b := by
  cases x with
  | error e =>
    cases y with
    | error e' => exact .inl ⟨e, rfl, congrArg Except.error (Except.error.inj h).symm⟩
    | ok b => cases h
  | ok a =>
    cases y with
    | error e => cases h
    | ok b => exact .inr ⟨a, b, rfl, rfl, Except.ok.inj h⟩

/-- Steps that look alike, one after the other, look alike together. -/
theorem map_bind_congr {γ δ : Type} {f : α → γ} {h : β → δ} {x y : Except ε α} {g k : α → Except ε β}
    (first : x.map f = y.map f) (rest : ∀ a b, f a = f b → (g a).map h = (k b).map h) :
    (x >>= g).map h = (y >>= k).map h := by
  obtain ⟨e, rfl, rfl⟩ | ⟨a, b, rfl, rfl, same⟩ := cases_of_map_eq first
  · rfl
  · exact rest a b same

/-- Outcomes with decidable values can be compared, whatever the faults are. -/
theorem eq_ok_of_toOption {x : Except ε α} {a : α} (h : x.toOption = some a) : x = .ok a := by
  cases x with
  | error e => cases h
  | ok b => exact congrArg Except.ok (Option.some.inj h)

theorem exists_eq_ok_of_toOption {x : Except ε α} (h : x.toOption.isSome = true) : ∃ a, x = .ok a := by
  obtain ⟨a, found⟩ := Option.isSome_iff_exists.mp h
  exact ⟨a, eq_ok_of_toOption found⟩

theorem Traced.result_bind_eq_ok {x : Traced ν ε α} {f : α → Traced ν ε β} {b : β} :
    (x >>= f).result = .ok b ↔ ∃ a, x.result = .ok a ∧ (f a).result = .ok b := by
  rw [Traced.result_bind, bind_eq_ok]

theorem Traced.result_bind_eq_error {x : Traced ν ε α} {f : α → Traced ν ε β} {e : ε} :
    (x >>= f).result = .error e ↔ x.result = .error e ∨ ∃ a, x.result = .ok a ∧ (f a).result = .error e := by
  rw [Traced.result_bind, bind_eq_error]

/-- What relates the state to the elements so far, after every step, relates it to all of them at the end. -/
theorem foldlM_follows {f : σ → α → Except ε σ} {P : List α → σ → Prop}
    (step : ∀ before s x s', P before s → f s x = .ok s' → P (before ++ [x]) s') (before : List α) {xs : List α}
    {s s' : σ} (start : P before s) (run : xs.foldlM f s = .ok s') : P (before ++ xs) s' := by
  induction xs generalizing before s with
  | nil =>
    cases run
    rwa [List.append_nil]
  | cons x xs ih =>
    rw [List.foldlM_cons, bind_eq_ok] at run
    obtain ⟨t, first, rest⟩ := run
    have all := ih (before ++ [x]) (step before s x t start first) rest
    rwa [List.append_assoc, List.singleton_append] at all

/-- What every step keeps is kept by all of them. -/
theorem foldlM_keeps {f : σ → α → Except ε σ} {P : σ → Prop}
    (step : ∀ s x s', P s → f s x = .ok s' → P s') {xs : List α} {s s' : σ} (start : P s)
    (run : xs.foldlM f s = .ok s') : P s' :=
  foldlM_follows (P := fun _ => P) (fun _ => step) [] start run

theorem Traced.result_foldlM_cons {f : σ → α → Traced ν ε σ} {x : α} {xs : List α} {s s' : σ} :
    ((x :: xs).foldlM f s).result = .ok s' ↔
      ∃ t, (f s x).result = .ok t ∧ (xs.foldlM f t).result = .ok s' := by
  rw [List.foldlM_cons, result_bind_eq_ok]

theorem Traced.result_foldlM_append {f : σ → α → Traced ν ε σ} {xs ys : List α} {s s' : σ} :
    ((xs ++ ys).foldlM f s).result = .ok s' ↔
      ∃ t, (xs.foldlM f s).result = .ok t ∧ (ys.foldlM f t).result = .ok s' := by
  rw [List.foldlM_append, result_bind_eq_ok]

theorem Traced.result_foldlM (f : σ → α → Traced ν ε σ) (xs : List α) (s : σ) :
    (xs.foldlM f s).result = xs.foldlM (fun s x => (f s x).result) s := by
  induction xs generalizing s with
  | nil => rfl
  | cons x xs ih => simp only [List.foldlM_cons, result_bind, ih]

/-- What every step keeps is kept by all of them. -/
theorem Traced.foldlM_keeps {f : σ → α → Traced ν ε σ} {P : σ → Prop}
    (step : ∀ s x s', P s → (f s x).result = .ok s' → P s') {xs : List α} {s s' : σ} (start : P s)
    (run : (xs.foldlM f s).result = .ok s') : P s' := by
  rw [result_foldlM] at run
  exact EventScript.foldlM_keeps step start run

/-! ### Outcomes with a state -/

/-- The computation ends with a value and a state. -/
def Yields (m : StateT σ (Traced ν ε) α) (s : σ) (a : α) (s' : σ) : Prop :=
  (m s).result = .ok (a, s')

theorem yields_pure {s s' : σ} {a b : α} :
    Yields (pure a : StateT σ (Traced ν ε) α) s b s' ↔ b = a ∧ s' = s := by
  constructor
  · intro h
    cases h
    exact ⟨rfl, rfl⟩
  · rintro ⟨rfl, rfl⟩
    rfl

theorem yields_bind {m : StateT σ (Traced ν ε) α} {f : α → StateT σ (Traced ν ε) β} {s s'' : σ}
    {b : β} :
    Yields (m >>= f) s b s'' ↔ ∃ a s', Yields m s a s' ∧ Yields (f a) s' b s'' := by
  constructor
  · intro h
    obtain ⟨⟨a, s'⟩, first, rest⟩ := Traced.result_bind_eq_ok.mp h
    exact ⟨a, s', first, rest⟩
  · rintro ⟨a, s', first, rest⟩
    exact Traced.result_bind_eq_ok.mpr ⟨(a, s'), first, rest⟩

theorem yields_lift {x : Except ε α} {s s' : σ} {a : α} :
    Yields (liftM x : StateT σ (Traced ν ε) α) s a s' ↔ x = .ok a ∧ s' = s := by
  cases x with
  | error e =>
    constructor
    · intro h
      cases h
    · rintro ⟨⟨⟩, -⟩
  | ok b =>
    constructor
    · intro h
      cases h
      exact ⟨rfl, rfl⟩
    · rintro ⟨⟨⟩, rfl⟩
      rfl

theorem Yields.unique {m : StateT σ (Traced ν ε) α} {s s' s'' : σ} {a b : α} (h : Yields m s a s')
    (h' : Yields m s b s'') : a = b ∧ s' = s'' := by
  have same := h.symm.trans h'
  cases same
  exact ⟨rfl, rfl⟩

end EventScript
