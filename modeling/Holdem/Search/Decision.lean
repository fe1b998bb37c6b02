import Holdem.Search.Node

/-!
# Deciding

A search ranks the actions of one player by the values of the tree below them and chooses the best.
Values that are all but equal count as ties, and a tie goes to the cheaper action. A search may
fail, but a decision is always made: without a ranking the player checks or folds.
-/

set_option autoImplicit false

namespace Holdem

/-- A search on behalf of one player. -/
structure Search (σ α : Type) where
  bot : Player
  settings : Settings
  judge : Judge
  book : Book α
  /-- The seed of the tree's root. -/
  seed : UInt64
  /-- Whether the time for the decision is over when the search comes to a table. A table holds all
  that happened, so no two nodes of a tree need give the same answer. -/
  late : Table → Bool := fun _ => settings.isExpired

namespace Search

variable {σ α : Type} [SeededSource σ] [Scalar α]

/-- A search by given settings; a seed that they leave open is given. -/
def ofSettings (bot : Player) (settings : Settings) (judge : Judge) (book : Book α)
    (seed : UInt64) : Search σ α :=
  { bot, settings, judge, book, seed := settings.seed.getD seed }

/-- What the nodes of the search know. -/
def context (s : Search σ α) : Context σ α where
  bot := s.bot
  decisions := s.settings.decisions
  sizing := s.settings.sizing
  sampling := s.settings.sampling
  showdown := s.settings.showdown s.judge
  book := s.book
  late := s.late

/-- The expanded tree of a table at which the player must act. -/
def tree (s : Search σ α) (t : Table) (tokens : Nat) : Outcome (Node α) := do
  if t.nextToAct ≠ some s.bot then throw (.defect .noActor)
  let (value, node) := (Node.root t tokens s.seed).expand s.context
  let _ ← value
  return node

/-- Whether an action is ranked before another: by value, then by preference. -/
def rankedBefore (a b : Action × α) : Bool :=
  match Scalar.compare b.2 a.2 with
  | .lt => true
  | .gt => false
  | .eq => a.1.preferredTo b.1

/-- The actions of a tree's root with their values, best first. -/
def rankingOf (node : Node α) : Outcome (List (Action × α)) := do
  let valued ← node.children.mapM (fun c => do return (c.edge.action, ← c.node.readValue))
  return Order.insertionSort rankedBefore valued

/-- The actions at a table with their values, best first. -/
def ranking (s : Search σ α) (t : Table) (tokens : Nat) : Outcome (List (Action × α)) := do
  rankingOf (← s.tree t tokens)

/-- Values no further apart than this are ties. -/
def tolerance : α := Scalar.ratio 1 1000000000

/-- The most preferred of some actions, the first of equally preferred ones. -/
def mostPreferred : List Action → Option Action
  | [] => none
  | a :: rest => some (rest.foldl (fun best b => if b.preferredTo best then b else best) a)

/-- The best action of a ranking: the most preferred of those whose value ties with the largest. -/
def best (ranking : List (Action × α)) : Option Action :=
  match Scalar.maximum? (ranking.map Prod.snd) with
  | none => none
  | some top =>
    mostPreferred ((ranking.filter (fun e => Scalar.le (top - e.2) tolerance)).map Prod.fst)

/-- The action to take at a table. -/
def decide (s : Search σ α) (t : Table) (tokens : Nat) : Outcome Action := do
  if t.nextToAct ≠ some s.bot then return t.passive
  match ← s.settings.sizing.candidates t with
  | [] => return t.passive
  | [only] => return only
  | _ =>
    match ← (s.ranking t tokens).attempt with
    | some ranking => return (best ranking).getD t.passive
    | none => return t.passive

end Search

end Holdem
