/-!
# Meaning of call arguments

A few arguments of well-known routines are more than numbers: a dialogue label, an item or a map.
-/

namespace EventScript

/-- What an argument stands for. -/
inductive ArgumentKind where
  /-- A dialogue label, given as an index into the strings of the unit. -/
  | dialogue
  /-- An ordinal of the item table. -/
  | item
  /-- An ordinal of the map table. -/
  | map
  deriving DecidableEq, Repr

namespace ArgumentKind

/-- Routine, position and meaning of each argument that is more than a number. -/
def slots : List (String × Nat × ArgumentKind) :=
  [("Message", 0, dialogue), ("Talk", 0, dialogue), ("Ask", 0, dialogue), ("Ask", 1, dialogue),
   ("Ask", 2, dialogue), ("ShopMessage", 1, dialogue), ("GiveItem", 0, item),
   ("TakeItem", 0, item), ("HasItem", 0, item), ("ItemCount", 0, item), ("SetChest", 1, item),
   ("ShopMessage", 0, item), ("Warp", 0, map), ("WarpTo", 0, map), ("SetReturnMap", 0, map),
   ("IsMapVisited", 0, map)]

/-- What the argument at a position, counted from zero, of a routine stands for. -/
def of? (routine : String) (index : Nat) : Option ArgumentKind :=
  (slots.find? fun s => s.1 == routine && s.2.1 == index).map fun s => s.2.2

end ArgumentKind

end EventScript
