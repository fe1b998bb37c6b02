import Holdem.Checked
import Holdem.Opponent.Candidate
import Holdem.Table.Basic

/-!
# Models of opponents

A model says how likely an opponent is to take each of some actions. The uniform model finds all
of them equally likely. A tally learns habits: it counts how often the opponent folded, checked or
called, and bet or raised; a style's share is one more than its count, shared evenly among the
actions of that style. Any other rule can be a model as well, and may fail.
-/

set_option autoImplicit false

namespace Holdem

/-- How often an opponent was seen to act in each style. -/
structure Tally where
  folds : Nat := 0
  passive : Nat := 0
  aggressive : Nat := 0
  deriving DecidableEq, Repr

namespace Tally

/-- How often a style was seen. -/
def count (t : Tally) : Style → Nat
  | .fold => t.folds
  | .passive => t.passive
  | .aggressive => t.aggressive

/-- The tally with one more sight of a style. Counters go round to zero after their largest
value. -/
def record (t : Tally) : Style → Tally
  | .fold => { t with folds := (t.folds + 1) % countLimit }
  | .passive => { t with passive := (t.passive + 1) % countLimit }
  | .aggressive => { t with aggressive := (t.aggressive + 1) % countLimit }

/-- The share of a style before sharing it out: one more than its count. -/
def weight {α : Type} [Scalar α] (t : Tally) (s : Style) : Outcome α := do
  return Scalar.ofNat (← addCounts (t.count s) 1)

/-- How many of some actions are of a style. -/
def members (actions : List Action) (s : Style) : Nat := actions.countP (fun a => a.style == s)

/-- The probability of an action among some actions. -/
def probability {α : Type} [Scalar α] (t : Tally) (action : Action) (actions : List Action) :
    Outcome α := do
  let present := Style.all.filter (fun s => 0 < members actions s)
  let total : α := Scalar.sum (← present.mapM t.weight)
  let share : α ← t.weight action.style
  return share / total / Scalar.ofNat (members actions action.style)

end Tally

/-- How an opponent is expected to act. -/
inductive Model (α : Type) where
  | uniform
  | habits (tally : Tally)
  /-- Any rule from the player, an action, the table and the actions to choose from. -/
  | rule (answer : Player → Action → Table → List Action → Outcome α)

namespace Model

variable {α : Type} [Scalar α]

/-- The probability that a player takes an action, out of some actions. -/
def probability (m : Model α) (p : Player) (a : Action) (t : Table) (actions : List Action) :
    Outcome α :=
  match m with
  | .uniform =>
    if actions.isEmpty then .error (.refusal .noCandidates)
    else if actions.contains a then .ok (Scalar.ratio 1 actions.length)
    else .ok (Scalar.ofNat 0)
  | .habits tally =>
    if actions.isEmpty then .error (.refusal .noCandidates)
    else if actions.contains a then tally.probability a actions
    else .ok (Scalar.ofNat 0)
  | .rule answer => answer p a t actions

/-- The model after a move of its player was seen. -/
def observe (m : Model α) (move : Move) : Model α :=
  match m with
  | .habits tally => .habits (tally.record move.style)
  | .uniform => .uniform
  | .rule answer => .rule answer

/-- The tally of a model that learns habits. -/
def tally? : Model α → Option Tally
  | .habits tally => some tally
  | .uniform | .rule _ => none

end Model

end Holdem
