import Holdem.Order.Insertion
import Holdem.Scalar
import Holdem.Table.Event
import Holdem.Text.Column
import Holdem.Text.Decimal

/-!
# Candidates

A candidate is an action with the probability that it is taken. Lists of candidates are shown with
the likelier first; among equally likely ones, actions of one kind go from large to small, and
kinds go by name.
-/

set_option autoImplicit false

namespace Holdem

/-- An action with the probability that it is taken. -/
structure Candidate (α : Type) where
  action : Action
  probability : α
  deriving Repr

namespace Candidate

variable {α : Type} [Scalar α]

/-- Some actions, all equally likely. -/
def uniform (actions : List Action) : List (Candidate α) :=
  actions.map (fun a => ⟨a, Scalar.ratio 1 (max actions.length 1)⟩)

/-- The order in which candidates are shown. -/
def order (c d : Candidate α) : Ordering :=
  (Scalar.compare d.probability c.probability).then <|
    if c.action.label = d.action.label then Ord.compare d.action.amount c.action.amount
    else Ord.compare c.action.label d.action.label

/-- Whether a candidate is shown before another. -/
def before (c d : Candidate α) : Bool := c.order d == .lt

/-- The candidates in the order in which they are shown. -/
def sort (cs : List (Candidate α)) : List (Candidate α) := Order.insertionSort before cs

/-- The text of a candidate: its action, then its probability with three places. -/
def text (c : Candidate Float) : String :=
  Text.padRight 12 c.action.text ++ " " ++ Text.fixed 3 c.probability

end Candidate

end Holdem
