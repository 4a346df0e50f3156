/-!
# Computations with notices

A computation of type `Traced ν ε α` ends with a value or a fault, and leaves a list of notices in
the order in which they arose; a fault keeps those made before it. What it ends with never depends
on notices: `result` is a homomorphism into `Except`.
-/

namespace EventScript

/-- The weight of a notice. -/
inductive Level where
  | error
  | warn
  | info
  | debug
  deriving DecidableEq, Repr

/-- A line for the log. -/
structure Notice where
  level : Level
  text : String
  deriving DecidableEq, Repr

namespace Level

/-- The word that stands for a level in a log. -/
def word : Level → String
  | error => "ERROR"
  | warn => "WARN"
  | info => "INFO"
  | debug => "DEBUG"

end Level

/-- A log line as it is written: level, space, text. -/
def Notice.line (n : Notice) : String := n.level.word ++ " " ++ n.text

/-- The outcome of a computation that may fail, with the notices it made. -/
structure Traced (ν ε α : Type) where
  notices : List ν
  result : Except ε α

namespace Traced

variable {ν ε α β : Type}

/-- A value without notices. -/
def value (a : α) : Traced ν ε α := ⟨[], .ok a⟩

/-- A fault without notices. -/
def fail (e : ε) : Traced ν ε α := ⟨[], .error e⟩

/-- One notice. -/
def note (n : ν) : Traced ν ε Unit := ⟨[n], .ok ()⟩

/-- A notice if the condition holds. -/
def noteIf (b : Bool) (n : ν) : Traced ν ε Unit := if b then note n else value ()

/-- A plain outcome, which makes no notices. -/
def ofExcept (r : Except ε α) : Traced ν ε α := ⟨[], r⟩

/-- Goes on after a value with `f`; a fault ends the computation. -/
def andThen (x : Traced ν ε α) (f : α → Traced ν ε β) : Traced ν ε β :=
  match x.result with
  | .ok a => ⟨x.notices ++ (f a).notices, (f a).result⟩
  | .error e => ⟨x.notices, .error e⟩

/-- The same outcome with its notices and fault seen differently. -/
def mapBoth {μ δ : Type} (f : ν → List μ) (g : ε → δ) (x : Traced ν ε α) : Traced μ δ α :=
  ⟨x.notices.flatMap f, x.result.mapError g⟩

/-- The same outcome with its fault seen differently. -/
def mapFault {δ : Type} (g : ε → δ) (x : Traced ν ε α) : Traced ν δ α :=
  ⟨x.notices, x.result.mapError g⟩

instance : Monad (Traced ν ε) where
  pure := value
  bind := andThen

instance : MonadExceptOf ε (Traced ν ε) where
  throw := fail
  tryCatch x handle :=
    match x.result with
    | .ok a => ⟨x.notices, .ok a⟩
    | .error e => ⟨x.notices ++ (handle e).notices, (handle e).result⟩

instance : MonadLift (Except ε) (Traced ν ε) where
  monadLift := ofExcept

@[simp] theorem result_pure (a : α) : (pure a : Traced ν ε α).result = .ok a := rfl

@[simp] theorem result_value (a : α) : (value a : Traced ν ε α).result = .ok a := rfl

@[simp] theorem result_fail (e : ε) : (fail e : Traced ν ε α).result = .error e := rfl

@[simp] theorem result_throw (e : ε) : (throw e : Traced ν ε α).result = .error e := rfl

@[simp] theorem result_note (n : ν) : (note n : Traced ν ε Unit).result = .ok () := rfl

@[simp] theorem result_noteIf (b : Bool) (n : ν) :
    (noteIf b n : Traced ν ε Unit).result = .ok () := by
  cases b <;> rfl

@[simp] theorem result_ofExcept (r : Except ε α) : (ofExcept r : Traced ν ε α).result = r := rfl

@[simp] theorem result_bind (x : Traced ν ε α) (f : α → Traced ν ε β) :
    (x >>= f).result = x.result >>= fun a => (f a).result := by
  rcases x with ⟨ns, e | a⟩ <;> rfl

@[simp] theorem result_mapFault {δ : Type} (g : ε → δ) (x : Traced ν ε α) :
    (x.mapFault g).result = x.result.mapError g := rfl

theorem map_id_self (x : Traced ν ε α) : id <$> x = x := by
  rcases x with ⟨ns, e | a⟩ <;> simp [Functor.map, andThen, value]

theorem value_andThen (a : α) (f : α → Traced ν ε β) : (pure a : Traced ν ε α) >>= f = f a := by
  simp [bind, pure, andThen, value]

theorem andThen_andThen {γ : Type} (x : Traced ν ε α) (f : α → Traced ν ε β)
    (g : β → Traced ν ε γ) : x >>= f >>= g = x >>= fun a => f a >>= g := by
  rcases x with ⟨ns, e | a⟩
  · rfl
  · rcases h : f a with ⟨ms, e | b⟩ <;> simp [bind, andThen, h]

instance : LawfulMonad (Traced ν ε) :=
  LawfulMonad.mk' _ map_id_self value_andThen andThen_andThen

end Traced

end EventScript
