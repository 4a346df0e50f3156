/-!
# Lines of a text

A line ends with a line feed, which may have one carriage return in front; neither belongs to the
line. A text that ends with a line feed has no empty line after it.
-/

namespace EventScript.Text

/-- The lines of a text, without their ends. -/
def lines : List Char → List (List Char)
  | [] => []
  | '\n' :: cs => [] :: lines cs
  | '\r' :: '\n' :: cs => [] :: lines cs
  | c :: cs =>
    match lines cs with
    | [] => [[c]]
    | l :: ls => (c :: l) :: ls

/-- Items with their positions, counted from one. -/
def numbered {α : Type} (xs : List α) : List (Nat × α) :=
  xs.zipIdx.map fun p => (p.2 + 1, p.1)

end EventScript.Text
