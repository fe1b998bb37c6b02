import Holdem.Table.Seat

/-!
# Snapshots

A snapshot is a table as it is seen at one moment. The seats are listed clockwise. The pot of a
snapshot holds only the chips of earlier rounds; the chips of this round are the seats' stakes.
-/

set_option autoImplicit false

namespace Holdem

/-- A table as it is seen at one moment. -/
structure Snapshot where
  seats : List Seat := []
  board : Board := Board.empty
  pot : Chips := 0
  street : Street := .preflop
  dealer : Player := ⟨0⟩
  /-- The bets and raises of this round so far. -/
  raises : Nat := 0
  next : Option Player := none
  bettor : Option Player := none
  /-- The players who have acted since the last bet or raise. -/
  acted : List Player := []
  bigBlind : Chips := 2
  /-- The smallest raise; without it, the big blind or the lead of the largest stake over the
  second largest, whichever is more. -/
  minRaise : Option Chips := none

namespace Snapshot

/-- The seat of a player. -/
def seat? (s : Snapshot) (p : Player) : Option Seat := s.seats.find? (fun seat => seat.player == p)

/-- Whether a player has a seat. -/
def isSeated (s : Snapshot) (p : Player) : Bool := (s.seat? p).isSome

/-- Refuses a player who was seated before. -/
def checkSeatedOnce : List Player → List Seat → Except SeatingError Unit
  | _, [] => .ok ()
  | seen, seat :: seats =>
    if seen.contains seat.player then .error (.seatedTwice seat.player)
    else checkSeatedOnce (seat.player :: seen) seats

/-- Refuses a next player who has no seat or cannot act. -/
def checkNext (s : Snapshot) : Except SeatingError Unit :=
  match s.next with
  | none => .ok ()
  | some p =>
    match s.seat? p with
    | none => .error (.nextNotSeated p)
    | some seat => if seat.isActionable then .ok () else .error (.nextCannotAct p)

/-- Refuses the first of some players who has no seat. -/
def checkSeated (s : Snapshot) (players : List Player) : Except SeatingError Unit :=
  match players.find? (fun p => !s.isSeated p) with
  | some p => .error (.notSeated p)
  | none => .ok ()

/-- Refuses a hole that shares a card with the cards seen before. -/
def checkDealtOnce : Hand → List Hole → Except SeatingError Unit
  | _, [] => .ok ()
  | seen, hole :: holes =>
    if seen.overlaps hole.cards then .error (.dealtTwice hole.cards)
    else checkDealtOnce (seen.union hole.cards) holes

/-- Refuses a snapshot that is no table. -/
def check (s : Snapshot) : Except SeatingError Unit := do
  if s.seats.isEmpty then throw .noSeats
  if seatLimit < s.seats.length then throw (.tooManySeats s.seats.length)
  checkSeatedOnce [] s.seats
  if !s.isSeated s.dealer then throw .dealerNotSeated
  s.checkNext
  s.checkSeated (s.acted ++ s.bettor.toList)
  if s.street.boardSize < s.board.size then throw (.boardTooLarge s.board.size s.street)
  checkDealtOnce s.board.cards (s.seats.filterMap Seat.hole)

/-- The largest stake of the active seats and the second largest. -/
def topStakes (s : Snapshot) : Chips × Chips :=
  ((s.seats.filter Seat.isActive).map Seat.stake).foldl
    (fun (most, second) stake =>
      if most < stake then (stake, most)
      else if second < stake then (most, stake)
      else (most, second))
    (0, 0)

end Snapshot

end Holdem
