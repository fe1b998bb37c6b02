import Holdem.Search.Payouts
import Holdem.Strength
import Holdem.Table.Basic

/-!
# Showdowns

What a showdown pays is estimated by trials. A trial completes the board from the cards that nobody
is known to hold, deals two more to every opponent whose cards are unknown, and pays the whole pot
to a player who beats every opponent. Unknown hands are dealt independently of each other, unless
they are to come from one deck; a tie pays nothing, unless the pot is to be split. There are no
side pots.
-/

set_option autoImplicit false

namespace Holdem

/-- What is known of a showdown before its cards are dealt. -/
structure Contest where
  pot : Chips
  /-- The player's own two cards. -/
  hole : Hand
  board : Board
  /-- The opponents' two cards, as far as they are known. -/
  opponents : List (Option Hand)
  /-- The cards that cannot be dealt: all of the above. -/
  known : Hand
  deriving DecidableEq

namespace Contest

/-- The contest for a pot between a player and some opponents, no two of whom may be known to hold
one card. -/
def between (pot : Chips) (hero : Seat) (opponents : List Seat) (board : Board) :
    Outcome Contest := do
  let some hole := hero.hole | throw (.defect (.unknownHole hero.player))
  let holes := opponents.map (fun seat => seat.hole.map Hole.cards)
  let seen ← hole.cards.join board.cards
  let known ← (holes.filterMap id).foldlM Hand.join seen
  return { pot, hole := hole.cards, board, opponents := holes, known }

end Contest

/-- The cards of a trial: the whole board and every opponent's two cards. -/
structure Deal where
  board : Hand
  holes : List Hand
  deriving DecidableEq

/-- How showdowns are estimated. -/
structure Showdown where
  judge : Judge := Judge.standard
  trials : Nat := 20
  /-- Whether all unknown hands of a trial come from one deck. -/
  exclusive : Bool := false
  /-- Whether a tie pays an equal share of the pot. -/
  splitPots : Bool := false

namespace Showdown

variable {σ : Type} [WordSource σ]

/-- Deals `n` cards, or fails if there are not enough. -/
def deal (n : Nat) (d : Deck) : Random σ (Hand × Deck) := do
  match ← d.deal n with
  | (some hand, rest) => return (hand, rest)
  | (none, _) => throw (.defect (.deckExhausted n d.size))

/-- The hands of the opponents, dealt where they are unknown. -/
def dealHoles (s : Showdown) : List (Option Hand) → Deck → Random σ (List Hand)
  | [], _ => return []
  | some hole :: others, d => do return hole :: (← s.dealHoles others d)
  | none :: others, d => do
    let (hole, rest) ← deal 2 d
    return hole :: (← s.dealHoles others (if s.exclusive then rest else d))

/-- The cards of one trial: first what the board lacks is dealt, then what the opponents lack. -/
def dealOut (s : Showdown) (c : Contest) : Random σ Deal := do
  let (opened, deck) ← deal c.board.missing (Deck.without c.known)
  let board ← c.board.cards.join opened
  return ⟨board, ← s.dealHoles c.opponents deck⟩

/-- What a player of a given strength is paid: nothing as soon as an opponent cannot be ranked or
is stronger, and otherwise by the number of ties. -/
def payout (s : Showdown) (pot : Chips) (hero : Strength) (board : Hand) :
    (ties : Nat) → List Hand → Outcome Chips
  | 0, [] => .ok pot
  | ties + 1, [] => .ok (if s.splitPots then pot / (ties + 2) else 0)
  | ties, hole :: holes => do
    match s.judge (← hole.join board) with
    | none => return 0
    | some villain =>
      match villain.compare hero with
      | .gt => return 0
      | .eq => s.payout pot hero board (ties + 1) holes
      | .lt => s.payout pot hero board ties holes

/-- What the player of a contest is paid once the cards are dealt. -/
def award (s : Showdown) (c : Contest) (d : Deal) : Outcome Chips := do
  match s.judge (← c.hole.join d.board) with
  | none => return 0
  | some hero => s.payout c.pot hero d.board 0 d.holes

/-- One trial. -/
def trial (s : Showdown) (c : Contest) : Random σ Chips := do
  s.award c (← s.dealOut c)

/-- The payouts of some trials, added to a bag. -/
def runTrials (trial : Random σ Chips) : Nat → Payouts → Random σ Payouts
  | 0, bag => return bag
  | n + 1, bag => do runTrials trial n (bag.add (← trial))

/-- What a showdown pays a player. A player who folded is paid nothing, and one without opponents
the pot. -/
def estimate (s : Showdown) (p : Player) (t : Table) : Random σ Payouts := do
  let pot ← t.pot
  let hero ← t.seat p
  if !hero.isActive then return Payouts.ofList [0]
  let opponents ← t.opponents p
  if opponents.isEmpty then return Payouts.ofList [pot]
  let contest ← Contest.between pot hero opponents t.board
  runTrials (s.trial contest) s.trials {}

end Showdown

end Holdem
