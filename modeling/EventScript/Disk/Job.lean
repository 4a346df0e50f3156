import EventScript.Disk.Basic
import EventScript.Fault
import EventScript.Traced

/-!
# Jobs

A job works on a disk, may fail, and leaves notices. What it did to the disk stays when it fails.
-/

namespace EventScript

/-- A computation that works on a disk. -/
def Job (α : Type) : Type := Disk → Traced Notice Fault α × Disk

namespace Job

variable {α β : Type}

/-- A value, with the disk left as it is. -/
def value (a : α) : Job α := fun d => (Traced.value a, d)

/-- Goes on after a value with `f`; a fault ends the job. -/
def andThen (x : Job α) (f : α → Job β) : Job β := fun d =>
  match (x d).1.result with
  | .error e => (⟨(x d).1.notices, .error e⟩, (x d).2)
  | .ok a =>
    let y := f a (x d).2
    (⟨(x d).1.notices ++ y.1.notices, y.1.result⟩, y.2)

instance : Monad Job where
  pure := value
  bind := andThen

theorem bind_of_ok {x : Job α} {f : α → Job β} {d : Disk} {a : α} (h : (x d).1.result = .ok a) :
    (x >>= f) d =
      (⟨(x d).1.notices ++ (f a (x d).2).1.notices, (f a (x d).2).1.result⟩, (f a (x d).2).2) := by
  simp only [bind, andThen, h]

theorem bind_of_error {x : Job α} {f : α → Job β} {d : Disk} {e : Fault}
    (h : (x d).1.result = .error e) : (x >>= f) d = (⟨(x d).1.notices, .error e⟩, (x d).2) := by
  simp only [bind, andThen, h]

theorem map_id_self (x : Job α) : id <$> x = x := by
  funext d
  rcases h : x d with ⟨⟨ns, e | a⟩, d'⟩ <;> simp [Functor.map, andThen, value, Traced.value, h]

theorem value_andThen (a : α) (f : α → Job β) : (pure a : Job α) >>= f = f a := by
  funext d
  simp [bind, pure, andThen, value, Traced.value]

theorem andThen_andThen {γ : Type} (x : Job α) (f : α → Job β) (g : β → Job γ) :
    x >>= f >>= g = x >>= fun a => f a >>= g := by
  funext d
  rcases h : x d with ⟨⟨ns, e | a⟩, d'⟩
  · simp [bind, andThen, h]
  · rcases hf : f a d' with ⟨⟨ms, e | b⟩, d''⟩ <;> simp [bind, andThen, h, hf]

instance : LawfulMonad Job :=
  LawfulMonad.mk' _ map_id_self value_andThen andThen_andThen

/-- Ends a job. -/
def fail (e : Fault) : Job α := fun d => (Traced.fail e, d)

/-- A computation that needs no disk. -/
def ofTraced (x : Traced Notice Fault α) : Job α := fun d => (x, d)

/-- A plain outcome. -/
def ofExcept (x : Except Fault α) : Job α := fun d => (Traced.ofExcept x, d)

instance : MonadLift (Traced Notice Fault) Job where
  monadLift := ofTraced

instance : MonadLift (Except Fault) Job where
  monadLift := ofExcept

/-- One notice. -/
def note (n : Notice) : Job Unit := ofTraced (Traced.note n)

/-- The outcome of a job as a value. -/
def attempt (x : Job α) : Job (Except Fault α) := fun d =>
  let y := x d
  (⟨y.1.notices, .ok y.1.result⟩, y.2)

/-- Looks at the disk. -/
def look (f : Disk → α) : Job α := fun d => (Traced.value (f d), d)

/-- Takes something from the disk. -/
def take (f : Disk → Except Disk.Fault α) : Job α := fun d =>
  (Traced.ofExcept ((f d).mapError Fault.file), d)

/-- The content of a file. -/
def fetch (path : String) : Job Bytes := take fun d => d.read path

/-- The content of a file, as text. -/
def fetchText (path : String) : Job String := take fun d => d.readText path

/-- Writes a file, whose directory has to be there. -/
def put (path : String) (content : Bytes) : Job Unit := fun d =>
  match d.write path content with
  | .ok d => (Traced.value (), d)
  | .error e => (Traced.fail (.file e), d)

/-- Makes a directory and those that lead to it. -/
def makeDirectories (path : String) : Job Unit := fun d =>
  let r := d.makeDirectories path
  (Traced.ofExcept (r.1.mapError Fault.file), r.2)

/-- Writes a file and makes the directories that lead to it. -/
def store (path : String) (content : Bytes) : Job Unit := do
  match Path.parent? path with
  | some up => makeDirectories up
  | none => pure ()
  put path content

/-- The files at a path and below it, by the names that lead to them from there. A path that leads
nowhere cannot be walked. -/
def filesUnder (path : String) : Job (List Location) := fun d =>
  match d.filesUnder path with
  | .ok files => (Traced.value files, d)
  | .error _ => (Traced.fail .walk, d)

end Job

end EventScript
