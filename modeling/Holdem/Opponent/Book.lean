import Holdem.Opponent.Model

/-!
# The book on the opponents

The book holds a model for each player it has one for, and one model for all others. What is seen
of a player goes to the model that answers for that player. The replies of a player are the
model's probabilities made to sum to one; where the model fails, or its answers are no
probabilities, every action is taken to be equally likely.
-/

set_option autoImplicit false

namespace Holdem

/-- The models of the opponents. -/
structure Book (α : Type) where
  bound : List (Player × Model α) := []
  /-- The model of every player without one of their own. -/
  fallback : Model α := .uniform

namespace Book

variable {α : Type} [Scalar α]

/-- The model bound to a player. -/
def model? (b : Book α) (p : Player) : Option (Model α) := b.bound.lookup p

/-- The model that answers for a player. -/
def model (b : Book α) (p : Player) : Model α := (b.model? p).getD b.fallback

/-- The book without a model for a player. -/
def remove (b : Book α) (p : Player) : Book α :=
  { b with bound := b.bound.filter (fun e => e.1 != p) }

/-- The book with a model for a player, in place of any other. -/
def insert (b : Book α) (p : Player) (m : Model α) : Book α :=
  { b with bound := (p, m) :: (b.remove p).bound }

/-- The book after an event was seen: a move goes to the model that answers for its player. -/
def observe (b : Book α) : Event → Book α
  | .move p m =>
    match b.model? p with
    | some model => b.insert p (model.observe m)
    | none => { b with fallback := b.fallback.observe m }
  | .turn _ | .round _ _ => b

/-- Whether some values, with their sum, can be made into probabilities. -/
def areWeights (values : List α) (total : α) : Bool :=
  values.all (fun x => Scalar.isFinite x && !Scalar.lt x (Scalar.ofNat 0)) &&
    !Scalar.le total (Scalar.ofNat 0)

/-- How likely a player is to take each of some actions. -/
def replies (b : Book α) (p : Player) (t : Table) (actions : List Action) :
    Outcome (List (Candidate α)) := do
  let answers := actions.mapM (fun a => (b.model p).probability p a t actions)
  match ← answers.attempt with
  | none => return Candidate.uniform actions
  | some values =>
    let total := Scalar.sum values
    if areWeights values total then
      return actions.zipWith (fun a x => ⟨a, x / total⟩) values
    else return Candidate.uniform actions

end Book

end Holdem
