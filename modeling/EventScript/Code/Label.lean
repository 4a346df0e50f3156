import EventScript.Code.Encoding

/-!
# Labels of a script

The labels that jumps go to, the addresses that marks give to labels, and the addresses at which
statements begin.
-/

namespace EventScript.Code

/-- The label that a statement without a block jumps to. -/
def Action.target? : Action → Option UInt32
  | goto target => target
  | stop target => target
  | gosub target => some target
  | pause target => some target
  | _ => none

mutual

/-- The labels that a statement jumps to. -/
def Statement.targets : Statement → List UInt32
  | .action a => a.target?.toList
  | .block _ body => blockTargets body
  | .mark _ => []

/-- The labels that a block jumps to. -/
def blockTargets : List Statement → List UInt32
  | [] => []
  | s :: ss => s.targets ++ blockTargets ss

end

mutual

/-- The labels marked in a statement that begins at an address, with their addresses. -/
def Statement.marks (start : Nat) : Statement → List (UInt32 × Nat)
  | .action _ => []
  | .block guard body => blockMarks (start + guard.size) body
  | .mark label => [(label, start)]

/-- The labels marked in a block that begins at an address, with their addresses. -/
def blockMarks (start : Nat) : List Statement → List (UInt32 × Nat)
  | [] => []
  | s :: ss => s.marks start ++ blockMarks (start + s.size) ss

end

/-- Adds a label to an ascending list, once. -/
def insertLabel (label : UInt32) : List UInt32 → List UInt32
  | [] => [label]
  | l :: ls =>
    if label < l then label :: l :: ls
    else if label = l then l :: ls
    else l :: insertLabel label ls

/-- Labels in ascending order, each once. -/
def ascending (labels : List UInt32) : List UInt32 := labels.foldr insertLabel []

end EventScript.Code
