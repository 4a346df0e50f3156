/-!
# Entries in ascending order

A table is a list of keys with values, in ascending order of the keys, each key once.
-/

namespace EventScript.Ordered

variable {κ β : Type} [Ord κ]

/-- Changes the value of a key, which is added if it is not there. -/
def update (key : κ) (f : Option β → β) : List (κ × β) → List (κ × β)
  | [] => [(key, f none)]
  | e :: es =>
    match compare key e.1 with
    | .lt => (key, f none) :: e :: es
    | .eq => (e.1, f (some e.2)) :: es
    | .gt => e :: update key f es

/-- The value of a key. -/
def find? (key : κ) : List (κ × β) → Option β
  | [] => none
  | e :: es => if compare key e.1 = .eq then some e.2 else find? key es

end EventScript.Ordered
