import Holdem.Search.Node

/-!
# Outlines of search trees

An outline has a line for each node, indented by its depth: the edge that leads to it, what kind of
node it is, the street, the pot and the value, or a question mark while it has none.
-/

set_option autoImplicit false

namespace Holdem

namespace Ending

/-- The name of an ending. -/
def name : Ending → String
  | showdown => "showdown"
  | uncontested => "uncontested"
  | folded => "folded"
  | exhausted => "exhausted"

end Ending

namespace Node

/-- The kind of a node, in words. -/
def kindText {α : Type} : Node α → String
  | choice here _ =>
    let name := match here.turn with
      | .decision => "decision"
      | .chance => "chance"
    if here.expired then name ++ " (expired)" else name
  | leaf here => here.ending.name

/-- The line of a node. -/
def lineText (n : Node Float) (depth : Nat) (edge : String) : Outcome String := do
  let pot ← n.table.pot
  let value := match n.value with
    | some value => Text.fixed 2 value
    | none => "?"
  return s!"{Text.blanks (2 * depth)}{edge} {n.kindText} {n.table.street.text} " ++
    s!"pot {pot} ev {value}\n"

mutual

/-- The lines of a node and all nodes below it. -/
def outlineAt (depth : Nat) (edge : String) : Node Float → Outcome String
  | n@(.choice _ children) => do
    let head ← n.lineText depth edge
    return head ++ (← outlineOfChildren (depth + 1) children)
  | n@(.leaf _) => n.lineText depth edge

/-- The lines of the nodes below some edges. -/
def outlineOfChildren (depth : Nat) : List (Child Float) → Outcome String
  | [] => return ""
  | c :: cs => do
    let head ← outlineOfChild depth c
    return head ++ (← outlineOfChildren depth cs)

/-- The lines of the nodes below an edge. -/
def outlineOfChild (depth : Nat) : Child Float → Outcome String
  | .mk edge node =>
    outlineAt depth (edge.action.text ++ " w" ++ Text.fixed 2 edge.weight) node

end

/-- The outline of the tree below a node. -/
def outline (n : Node Float) : Outcome String := outlineAt 0 "*" n

end Node

end Holdem
