import Holdem.Table.Ledger
import Mathlib

/-!
# Flat tables

A flat table keeps one list of seats and changes it in place: there is no chain to walk along, and
nothing that can be read off a seat is written down a second time. An event is accepted or it is
not; why it is refused is left out. The amounts of the pot stay within the same bounds as those of
a table.
-/

set_option autoImplicit false

namespace Holdem

namespace Seat

/-- The seat after chips moved from its stack to its stake; an empty stack is all in. -/
def commit (s : Seat) (n : Chips) : Seat :=
  { s with
    stack := s.stack - n
    stake := s.stake + n
    status := if s.stack = n then .allIn else s.status }

end Seat

/-- A table as one list of seats. -/
structure Flat where
  dealer : Player
  bigBlind : Chips
  /-- The seats, clockwise. -/
  seats : List Seat
  street : Street
  board : Board
  /-- The chips of earlier rounds. -/
  carried : Chips
  largest : Chips
  minRaise : Chips
  raises : Nat
  bettor : Option Player
  next : Option Player
  /-- The players who have acted since the last bet or raise. -/
  acted : Finset Player

namespace Flat

/-- The seat of a player. -/
def seat? (f : Flat) (p : Player) : Option Seat := f.seats.find? (fun seat => seat.player == p)

/-- The chips of this round: all stakes together. -/
def staked (f : Flat) : Chips := (f.seats.map Seat.stake).sum

/-- The chips behind all players together. -/
def behind (f : Flat) : Chips := (f.seats.map Seat.stack).sum

/-- What a seat lacks of the largest bet. -/
def lack (f : Flat) (seat : Seat) : Chips := f.largest - seat.stake

/-- The seat of a player who may act now: anyone who can still make decisions while it is nobody's
turn, else only the player whose turn it is. -/
def due? (f : Flat) (p : Player) : Option Seat :=
  (f.seat? p).filter (fun seat => seat.isActionable && f.next.all (· == p))

/-- The chips a move takes from a seat's stack. -/
def price (f : Flat) (seat : Seat) : Move → Chips
  | .check | .fold => 0
  | .call => min (f.lack seat) seat.stack
  | .bet n => n
  | .raise n => f.lack seat + n
  | .allIn => seat.stack

/-- Whether a move fits the state of the betting. Bets and raises are at least the smallest raise,
unless they put the player all in. -/
def permits (f : Flat) (seat : Seat) : Move → Bool
  | .check => f.lack seat = 0
  | .call | .fold => true
  | .bet n => f.largest = 0 && 0 < n && n ≤ seat.stack && (f.minRaise ≤ n || n = seat.stack)
  | .raise n =>
    0 < f.largest && 0 < n && f.lack seat + n ≤ seat.stack &&
      (f.minRaise ≤ n || f.lack seat + n = seat.stack)
  | .allIn => 0 < seat.stack

/-- The flat table with another seat in the place of its player's. -/
def replace (f : Flat) (seat : Seat) : Flat :=
  { f with seats := f.seats.map (fun s => if s.player = seat.player then seat else s) }

/-- The flat table when it is a player's turn. -/
def turnTo (f : Flat) (p : Player) : Flat := { f with next := some p }

/-- The flat table after a player acted: the turn is over. -/
def closeTurn (f : Flat) (p : Player) : Flat := { f with acted := insert p f.acted, next := none }

/-- The flat table in which a player's stake is the new largest bet: everyone has to act again. -/
def reopen (f : Flat) (p : Player) (stake : Chips) : Flat :=
  { f with
    largest := stake
    minRaise := max f.minRaise (stake - f.largest)
    raises := f.raises + 1
    bettor := some p
    acted := ∅ }

/-- The flat table after chips moved from a seat into the pot. A stake above the largest bet
reopens the betting. -/
def put (f : Flat) (seat : Seat) (n : Chips) : Option Flat :=
  if chipLimit ≤ f.staked + n then none
  else if seat.stake + n ≤ f.largest then
    some ((f.replace (seat.commit n)).closeTurn seat.player)
  else if countLimit ≤ f.raises + 1 then none
  else
    some (((f.replace (seat.commit n)).reopen seat.player (seat.stake + n)).closeTurn seat.player)

/-- The first player clockwise after the dealer, the dealer last, who can make decisions. -/
def opener (f : Flat) : Option Player :=
  let place := f.seats.findIdx (fun seat => seat.player == f.dealer) + 1
  ((f.seats.drop place ++ f.seats.take place).find? Seat.isActionable).map Seat.player

/-- The flat table at the start of a new street. -/
def begin (f : Flat) (street : Street) (board : Board) : Flat :=
  { f with
    seats := f.seats.map Seat.clearStake
    street
    board
    carried := f.carried + f.staked
    largest := 0
    minRaise := f.bigBlind
    raises := 0
    bettor := none
    next := if street.isBetting then f.opener else none
    acted := ∅ }

/-- The flat table after a player's move. -/
def applyMove (f : Flat) (p : Player) (m : Move) : Option Flat := do
  let seat ← f.due? p
  if f.permits seat m then
    match m with
    | .check => some (f.closeTurn p)
    | .fold => some ((f.replace seat.fold).closeTurn p)
    | _ => f.put seat (f.price seat m)
  else none

/-- The flat table after the turn passed to a player. -/
def applyTurn (f : Flat) (p : Player) : Option Flat :=
  if (f.seat? p).any Seat.isActionable then some (f.turnTo p) else none

/-- The flat table after a new street began with some cards revealed. -/
def applyRound (f : Flat) (street : Street) (cards : Hand) : Option Flat :=
  if street.index ≤ f.street.index || chipLimit ≤ f.carried + f.staked then none
  else
    match f.board.reveal cards with
    | .error _ => none
    | .ok board => if street.boardSize < board.size then none else some (f.begin street board)

/-- The flat table after an event, if the event is accepted. -/
def apply (f : Flat) : Event → Option Flat
  | .move p m => f.applyMove p m
  | .turn p => f.applyTurn p
  | .round street cards => f.applyRound street cards

/-- The flat table after some events, if all of them are accepted. -/
def run (f : Flat) (events : List Event) : Option Flat := events.foldlM apply f

/-- The flat table of a snapshot. -/
def ofSnapshot (s : Snapshot) : Flat :=
  { dealer := s.dealer
    bigBlind := s.bigBlind
    seats := s.seats
    street := s.street
    board := s.board
    carried := s.pot
    largest := s.topStakes.1
    minRaise := s.minRaise.getD (max (s.topStakes.1 - s.topStakes.2) s.bigBlind)
    raises := s.raises
    bettor := s.bettor
    next := s.next
    acted := s.acted.toFinset }

end Flat

end Holdem
