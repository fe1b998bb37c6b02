import Holdem.Opponent.Book
import Holdem.Settings

/-!
# The search tree

A node of the search tree is a table at which somebody has to choose, or a leaf at which betting
ends for the searching player. Its value is the number of chips with which that player can expect
to end the hand: the stack and what is collected from the pot. At the player's own decisions that
is the value of the best child, and at the others' the mean of the children by their weights.

Expanding a node finds its children and their values. Each node carries the seed of its own draws,
so what lies below a node does not depend on its siblings; the generator that a seed starts is the
one of the search's context. A node keeps the value it was found to
have; one whose expansion failed has none and can be expanded again.
-/

set_option autoImplicit false

namespace Holdem

/-- Whose choice a node is. -/
inductive Turn where
  /-- The searching player's. -/
  | decision
  /-- An opponent's. -/
  | chance
  deriving DecidableEq, Repr

/-- Why a leaf has no children. -/
inductive Ending where
  /-- Betting is over and the hands are compared. -/
  | showdown
  /-- Everyone else folded. -/
  | uncontested
  /-- The searching player folded. -/
  | folded
  /-- The tokens ran out; the pot is fought for as it stands. -/
  | exhausted
  deriving DecidableEq, Repr

/-- What a search knows at every node. All draws are made with generators of the type `σ`, and
values are numbers of the type `α`. -/
structure Context (σ α : Type) where
  bot : Player
  decisions : Decisions
  sizing : Sizing
  sampling : Sampling
  showdown : Showdown
  book : Book α
  /-- Whether the time for the decision is over when the search comes to a table. -/
  late : Table → Bool

/-- An edge of the tree. -/
structure Edge (α : Type) where
  action : Action
  weight : α
  /-- How often the action was drawn. -/
  count : Nat
  /-- The tokens allotted to the node below. -/
  tokens : Nat

/-- A choice to be made at a table. -/
structure Choice (α : Type) where
  turn : Turn
  table : Table
  tokens : Nat
  seed : UInt64
  value : Option α := none
  /-- Whether the value was estimated for want of time. -/
  expired : Bool := false

/-- A table at which betting ends for the searching player. -/
structure Leaf (α : Type) where
  ending : Ending
  table : Table
  seed : UInt64
  value : Option α := none

mutual

/-- A node of the search tree. -/
inductive Node (α : Type) where
  | choice (here : Choice α) (children : List (Child α))
  | leaf (here : Leaf α)

/-- An edge with the node it leads to. -/
inductive Child (α : Type) where
  | mk (edge : Edge α) (node : Node α)

end

namespace Child

variable {α : Type}

/-- The edge that leads to the child. -/
def edge : Child α → Edge α
  | mk edge _ => edge

/-- The node below the edge. -/
def node : Child α → Node α
  | mk _ node => node

end Child

namespace Node

variable {α : Type}

/-- The table at the node. -/
def table : Node α → Table
  | choice here _ => here.table
  | leaf here => here.table

/-- The value of a node, once it is expanded. -/
def value : Node α → Option α
  | choice here _ => here.value
  | leaf here => here.value

/-- The value of a node; reading it before the node is expanded is a defect. -/
def readValue (n : Node α) : Outcome α :=
  match n.value with
  | some value => .ok value
  | none => .error (.defect .unexpanded)

/-- The children of a choice; a leaf has none. -/
def children : Node α → List (Child α)
  | choice _ children => children
  | leaf _ => []

/-- Why the tree ends at a leaf. -/
def ending : Node α → Option Ending
  | choice _ _ => none
  | leaf here => some here.ending

mutual

/-- The number of nodes of the tree below a node, itself included. -/
def size : Node α → Nat
  | .choice _ children => 1 + sizeOfChildren children
  | .leaf _ => 1

/-- The number of nodes of the trees below some edges. -/
def sizeOfChildren : List (Child α) → Nat
  | [] => 0
  | c :: cs => sizeOfChild c + sizeOfChildren cs

/-- The number of nodes of the tree below an edge. -/
def sizeOfChild : Child α → Nat
  | .mk _ node => node.size

end

/-! ## Making nodes -/

/-- Why a table is a leaf for a player, if it is. -/
def endingAt (bot : Player) (t : Table) (tokens : Nat) : Option Ending :=
  if !t.isActive bot then some .folded
  else if t.activeCount ≤ 1 then some .uncontested
  else if t.isHandOver then some .showdown
  else if tokens = 0 then some .exhausted
  else none

/-- The unexpanded node of a table. -/
def ofTable (bot : Player) (t : Table) (tokens : Nat) (seed : UInt64) : Node α :=
  match endingAt bot t tokens with
  | some ending => leaf { ending, table := t, seed }
  | none =>
    let turn := if t.nextToAct = some bot then Turn.decision else Turn.chance
    choice { turn, table := t, tokens, seed } []

/-- The unexpanded node of the table at which the searching player must act; it is a choice
however few tokens there are. -/
def root (t : Table) (tokens : Nat) (seed : UInt64) : Node α :=
  choice { turn := .decision, table := t, tokens, seed } []

end Node

variable {σ α : Type} [SeededSource σ] [Scalar α]

/-- The value of a leaf. -/
def Leaf.resolve (ctx : Context σ α) (l : Leaf α) : Outcome α := do
  let stack : α := Scalar.ofNat (← l.table.seat ctx.bot).stack
  match l.ending with
  | .folded => return stack
  | .uncontested => return stack + Scalar.ofNat (← l.table.pot)
  | .showdown | .exhausted =>
    let (bag, _) ← (ctx.showdown.estimate ctx.bot l.table).run (SeededSource.ofSeed l.seed : σ)
    return stack + bag.mean?.getD (Scalar.ofNat 0)

/-- The leaf with its value. -/
def Leaf.expand (ctx : Context σ α) (l : Leaf α) : Outcome α × Leaf α :=
  match l.value with
  | some value => (.ok value, l)
  | none =>
    match l.resolve ctx with
    | .ok value => (.ok value, { l with value := some value })
    | .error failure => (.error failure, l)

namespace Choice

/-- The value that stands for a choice for want of time: an even share of the pot. -/
def neutral (ctx : Context σ α) (c : Choice α) : Outcome α := do
  let stack : α := Scalar.ofNat (← c.table.seat ctx.bot).stack
  return stack + Scalar.ratio (← c.table.pot) (max c.table.activeCount 1)

/-- The actions to consider; without any there is no actor. -/
def options (ctx : Context σ α) (c : Choice α) : Outcome (List Action) := do
  match ← ctx.sizing.candidates c.table with
  | [] => throw (.defect .noActor)
  | actions => return actions

/-- The branch of an action that is one of `n`. -/
def evenBranch (c : Choice α) (n : Nat) (a : Action) : Outcome (Branch α) := do
  return ⟨a, ← c.table.play a, c.tokens / n, Scalar.ratio 1 n, 1⟩

/-- The branches of the searching player's own choice. -/
def decisions (ctx : Context σ α) (c : Choice α) : Random σ (List (Branch α)) := do
  let actions ← c.options ctx
  match ctx.decisions with
  | .sampled => ctx.sampling.expand c.table (Candidate.uniform actions) c.tokens
  | .exhaustive => actions.mapM (fun a => (c.evenBranch actions.length a : Outcome (Branch α)))

/-- The branches of an opponent's choice. -/
def responses (ctx : Context σ α) (c : Choice α) : Random σ (List (Branch α)) := do
  let some opponent := c.table.nextToAct | throw (.defect .noActor)
  let actions ← c.options ctx
  let candidates ← ctx.book.replies opponent c.table actions
  ctx.sampling.expand c.table candidates c.tokens

/-- The unexpanded child of a branch. -/
def childOf (bot : Player) (b : Branch α) : Random σ (Child α) := do
  let seed ← Random.word
  return ⟨⟨b.action, b.weight, b.count, b.tokens⟩, Node.ofTable bot b.table b.tokens seed⟩

/-- The unexpanded children of a choice. All draws are made from the seed of the choice: first
those of the branches, then the seeds of the children. -/
def freshChildren (ctx : Context σ α) (c : Choice α) : Outcome (List (Child α)) := do
  let draws : Random σ (List (Child α)) := do
    let branches ← match c.turn with
      | .decision => c.decisions ctx
      | .chance => c.responses ctx
    branches.mapM (childOf ctx.bot)
  return (← draws.run (SeededSource.ofSeed c.seed)).1

/-- The value of a choice from the values of its children. -/
def combine (c : Choice α) (children : List (Child α)) (values : List α) : Outcome α :=
  match c.turn with
  | .decision =>
    match Scalar.maximum? values with
    | some value => .ok value
    | none => .error (.defect .noActor)
  | .chance => .ok (Scalar.sum (children.zipWith (fun child x => child.edge.weight * x) values))

end Choice

namespace Node

/-- Expands the nodes of some children in order. The first failure ends it; the children after it
stay as they were. -/
def expandChildren (expand : Node α → Outcome α × Node α) :
    List (Child α) → Outcome (List α) × List (Child α)
  | [] => (.ok [], [])
  | .mk edge node :: children =>
    match expand node with
    | (.error failure, node) => (.error failure, .mk edge node :: children)
    | (.ok value, node) =>
      match expandChildren expand children with
      | (.error failure, children) => (.error failure, .mk edge node :: children)
      | (.ok values, children) => (.ok (value :: values), .mk edge node :: children)

/-- Expands a node with at most a given number of choices above one another. -/
def expandWithin (ctx : Context σ α) : Nat → Node α → Outcome α × Node α
  | _, leaf here =>
    let (value, here) := here.expand ctx
    (value, leaf here)
  | 0, n@(choice here _) =>
    match here.value with
    | some value => (.ok value, n)
    | none => (.error (.defect .unexpanded), n)
  | depth + 1, n@(choice here _) =>
    match here.value with
    | some value => (.ok value, n)
    | none =>
      if ctx.late here.table then
        match here.neutral ctx with
        | .ok value =>
          (.ok value, choice { here with value := some value, expired := true } n.children)
        | .error failure => (.error failure, n)
      else
        match here.freshChildren ctx with
        | .error failure => (.error failure, n)
        | .ok fresh =>
          match expandChildren (expandWithin ctx depth) fresh with
          | (.error failure, children) => (.error failure, choice here children)
          | (.ok values, children) =>
            match here.combine children values with
            | .ok value => (.ok value, choice { here with value := some value } children)
            | .error failure => (.error failure, choice here children)

/-- Expands a node: its value, and the node with everything found below it. Every edge plays an
action, so no path has more choices than actions can be played. -/
def expand (ctx : Context σ α) (n : Node α) : Outcome α × Node α :=
  n.expandWithin ctx (n.table.playsLeft + 1)

end Node

end Holdem
