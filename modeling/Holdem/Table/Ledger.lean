import Holdem.Table.Snapshot

/-!
# The ledger

The ledger is the bookkeeping of the betting: what lies in the pot, what must be matched, who is to
act. It keeps one row for each seat, in clockwise order, so that stakes and standings are read
without looking for the seats themselves. Each event at the table makes a new ledger from the one
before.
-/

set_option autoImplicit false

namespace Holdem

/-- What the ledger keeps of one seat. -/
structure Row where
  player : Player
  stake : Chips
  /-- Whether the player competes for the pot. -/
  active : Bool
  /-- Whether the player can still make decisions. -/
  live : Bool
  /-- Whether the player has acted since the last bet or raise. -/
  acted : Bool
  deriving DecidableEq, Repr

/-- The bookkeeping of the betting. -/
structure Ledger where
  street : Street
  board : Board
  /-- The chips of earlier rounds. -/
  carried : Chips
  /-- The chips committed in this round. -/
  round : Chips
  largest : Chips
  minRaise : Chips
  raises : Nat
  next : Option Player
  bettor : Option Player
  rows : List Row
  deriving DecidableEq

namespace Ledger

/-- The row of a player. -/
def row? (l : Ledger) (p : Player) : Option Row := l.rows.find? (fun r => r.player == p)

/-- What a row lacks of the largest bet. -/
def deficitOf (l : Ledger) (r : Row) : Chips := l.largest - r.stake

/-- What a player lacks of the largest bet; a stranger lacks nothing. -/
def deficit (l : Ledger) (p : Player) : Chips := ((l.row? p).map l.deficitOf).getD 0

/-- The rows clockwise after a player, up to the player's own, which is left out. -/
def around (l : Ledger) (p : Player) : List Row :=
  match l.rows.dropWhile (fun r => r.player != p) with
  | [] => []
  | _ :: after => after ++ l.rows.takeWhile (fun r => r.player != p)

/-- The first player clockwise after another who can still make decisions. -/
def nextAfter (l : Ledger) (p : Player) : Option Player :=
  ((l.around p).find? Row.live).map Row.player

/-- The first player clockwise after the dealer, the dealer last, who can make decisions. -/
def firstAfter (l : Ledger) (dealer : Player) : Option Player :=
  ((l.around dealer ++ (l.row? dealer).toList).find? Row.live).map Row.player

/-- How many players compete for the pot. -/
def activeCount (l : Ledger) : Nat := l.rows.countP Row.active

/-- How many players can still make decisions. -/
def liveCount (l : Ledger) : Nat := l.rows.countP Row.live

/-- Whether everyone who can still make decisions has matched the largest bet. -/
def isMatched (l : Ledger) : Bool := l.rows.all (fun r => !r.live || l.largest ≤ r.stake)

/-- Whether everyone who can still make decisions has acted. -/
def allActed (l : Ledger) : Bool := l.rows.all (fun r => !r.live || r.acted)

/-- Whether the betting of the round is complete: at most one player competes, nobody can decide
anything, or all who can have matched the largest bet and, unless there is only one, acted. -/
def isRoundOver (l : Ledger) : Bool :=
  l.activeCount ≤ 1 || l.liveCount == 0 ||
    (l.isMatched && (l.liveCount == 1 || l.allActed))

/-- Whether there is no more betting. -/
def isHandOver (l : Ledger) : Bool := l.activeCount ≤ 1 || l.street == .showdown

/-- The ledger with the row of one player changed. -/
def update (l : Ledger) (p : Player) (f : Row → Row) : Ledger :=
  { l with rows := l.rows.map (fun r => if r.player = p then f r else r) }

/-- The ledger after a player acted: the turn is over. -/
def closeTurn (l : Ledger) (p : Player) : Ledger :=
  { l.update p (fun r => { r with acted := true }) with next := none }

/-- The ledger after a player folded. -/
def fold (l : Ledger) (p : Player) : Ledger :=
  (l.update p (fun r => { r with active := false, live := false })).closeTurn p

/-- The ledger in which a player's stake is the new largest bet: everyone has to act again. -/
def reopen (l : Ledger) (p : Player) (stake : Chips) : Outcome Ledger := do
  let raises ← addCounts l.raises 1
  return { l with
    largest := stake
    minRaise := max l.minRaise (stake - l.largest)
    raises
    bettor := some p
    rows := l.rows.map (fun r => { r with acted := false }) }

/-- Moves chips from a seat into the pot. A stake above the largest bet reopens the betting. -/
def wager (l : Ledger) (seat : Seat) (n : Chips) : Outcome (Ledger × Seat) := do
  let seat ← seat.bet n
  let round ← addChips l.round n
  let staked := { l with round }.update seat.player (fun r =>
    { r with stake := seat.stake, live := r.live && seat.status != Status.allIn })
  let opened ← if l.largest < seat.stake then staked.reopen seat.player seat.stake else pure staked
  return (opened.closeTurn seat.player, seat)

/-- The ledger at the start of a new street: the chips of the round join the pot, and the first
player after the dealer is to act if there is betting. -/
def newRound (l : Ledger) (street : Street) (board : Board) (dealer : Player) (bigBlind : Chips) :
    Outcome Ledger := do
  let carried ← addChips l.carried l.round
  return { l with
    street
    board
    carried
    round := 0
    largest := 0
    minRaise := bigBlind
    raises := 0
    bettor := none
    next := if street.isBetting then l.firstAfter dealer else none
    rows := l.rows.map (fun r => { r with stake := 0, acted := false }) }

/-- The ledger of a snapshot. -/
def ofSnapshot (s : Snapshot) : Outcome Ledger := do
  let (largest, second) := s.topStakes
  let round ← sumChips (s.seats.map Seat.stake)
  return {
    street := s.street
    board := s.board
    carried := s.pot
    round
    largest
    minRaise := s.minRaise.getD (max (largest - second) s.bigBlind)
    raises := s.raises
    next := s.next
    bettor := s.bettor
    rows := s.seats.map (fun seat => {
      player := seat.player
      stake := seat.stake
      active := seat.isActive
      live := seat.isActionable
      acted := s.acted.contains seat.player }) }

end Ledger

end Holdem
