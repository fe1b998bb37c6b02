import Holdem.Chance.Words
import Holdem.Opponent.Candidate
import Holdem.Table.Play

/-!
# Sampling candidates

A distribution over candidates is reduced to a few branches by drawing from it. Each draw is a
number between zero and one, and falls on the first candidate up to which the probabilities sum to
more than it. Candidates drawn several times become one branch with that count. The branches share
the tokens of the node they leave from, either in proportion to their counts or evenly.
-/

set_option autoImplicit false

namespace Holdem

/-- How the tokens of a node are shared among its children. -/
inductive Split where
  /-- In proportion to how often a child was drawn. -/
  | proportional
  /-- The same for every child. -/
  | uniform
  deriving DecidableEq, Repr

/-- How a searching player's own options are expanded. -/
inductive Decisions where
  /-- Every candidate becomes a child. -/
  | exhaustive
  /-- Candidates are drawn, all equally likely. -/
  | sampled
  deriving DecidableEq, Repr

/-- A candidate, and how often it was drawn. -/
structure Draw (α : Type) where
  candidate : Candidate α
  count : Nat

/-- One way to go on: an action, the table it leads to, its share of the tokens and its weight. -/
structure Branch (α : Type) where
  action : Action
  table : Table
  tokens : Nat
  weight : α
  count : Nat

/-- How candidates are sampled. -/
structure Sampling where
  /-- The most draws for one node. -/
  samples : Nat := 100
  split : Split := .proportional
  deriving DecidableEq, Repr

namespace Sampling

variable {α σ : Type} [Scalar α] [WordSource σ]

/-- How many draws a budget of tokens buys: never none. -/
def draws (s : Sampling) (tokens : Nat) : Nat := max (min s.samples tokens) 1

/-- The sums of the probabilities up to each candidate. -/
def cumulative (sum : α) : List (Candidate α) → List α
  | [] => []
  | c :: cs => (sum + c.probability) :: cumulative (sum + c.probability) cs

/-- The place of the first sum above a number, or the last place. -/
def placeOf (sums : List α) (u : α) : Nat :=
  (sums.findIdx? (fun sum => Scalar.lt u sum)).getD (sums.length - 1)

/-- The places of `n` draws. -/
def drawPlaces (sums : List α) : Nat → Random σ (List Nat)
  | 0 => return []
  | n + 1 => do
    let place := placeOf sums (← Random.unit)
    return place :: (← drawPlaces sums n)

/-- The candidates drawn, with their counts, in the order in which candidates are shown. -/
def collect (cs : List (Candidate α)) (places : List Nat) : List (Draw α) :=
  let counted := cs.mapIdx (fun i c => (⟨c, places.count i⟩ : Draw α))
  Order.insertionSort (fun a b => a.candidate.before b.candidate)
    (counted.filter (fun d => 0 < d.count))

/-- Draws from some candidates. -/
def sample (s : Sampling) (cs : List (Candidate α)) (tokens : Nat) : Random σ (List (Draw α)) := do
  if cs.isEmpty then return []
  let places ← drawPlaces (cumulative (Scalar.ofNat 0) cs) (s.draws tokens)
  return collect cs places

/-- The tokens of a child that was drawn `count` times out of `draws` and is one of `distinct`. -/
def allot (split : Split) (tokens count draws distinct : Nat) : Outcome Nat :=
  match split with
  | .proportional => do return (← mulCounts tokens count) / max draws 1
  | .uniform => .ok (tokens / max distinct 1)

/-- The branch of a draw, out of `total` draws of `distinct` candidates. -/
def branch (s : Sampling) (t : Table) (tokens total distinct : Nat) (d : Draw α) :
    Outcome (Branch α) := do
  let table ← t.play d.candidate.action
  let share ← allot s.split tokens d.count total distinct
  return ⟨d.candidate.action, table, share, Scalar.ratio d.count total, d.count⟩

/-- Draws from some candidates and plays each candidate drawn. -/
def expand (s : Sampling) (t : Table) (cs : List (Candidate α)) (tokens : Nat) :
    Random σ (List (Branch α)) := do
  let drawn ← s.sample cs tokens
  let total := (drawn.map Draw.count).foldr (· + ·) 0
  drawn.mapM (fun d => s.branch t tokens total drawn.length d)

end Sampling

end Holdem
