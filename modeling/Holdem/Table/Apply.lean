import Holdem.Table.Basic

/-!
# Events at the table

Applying an event adds a link to the chain and leaves the table it is applied to as it was. A move
is accepted only from a player who can still make decisions and, while it is somebody's turn, only
from that player. A bet must be at least the smallest raise, and so must a raise, unless it puts
the player all in.
-/

set_option autoImplicit false

namespace Holdem

namespace Table

/-- Refuses an event that does not fit the state of the betting. -/
def outOfPlace {α : Type} (t : Table) (e : Event) : Outcome α := do
  let pot ← t.pot
  Outcome.illegal (.outOfPlace e t.street pot)

/-- The seat of a player who may act now. -/
def due (t : Table) (p : Player) : Outcome Seat := do
  let seat ← t.seat p
  match t.nextToAct with
  | some q => if q ≠ p then Outcome.illegal (.outOfTurn p q)
  | none => pure ()
  if !seat.isActionable then Outcome.illegal (.cannotAct p seat.status)
  return seat

/-- The table with one more link. -/
def extend (t : Table) (event : Event) (change : Change) (ledger : Ledger) : Table :=
  { t with links := ⟨event, change, ledger⟩ :: t.links }

/-- The table after the player of a seat put chips into the pot. -/
def wager (t : Table) (e : Event) (seat : Seat) (n : Chips) : Outcome Table := do
  let (ledger, seat) ← t.ledger.wager seat n
  return t.extend e (.one seat) ledger

/-- The table after a player's move. -/
def applyMove (t : Table) (p : Player) (m : Move) : Outcome Table := do
  let e := Event.move p m
  let seat ← t.due p
  let deficit := t.deficit p
  match m with
  | .check =>
    if 0 < deficit then t.outOfPlace e
    else return t.extend e .none (t.ledger.closeTurn p)
  | .call => t.wager e seat (min deficit seat.stack)
  | .bet n =>
    let short := n < t.minRaise && n < seat.stack
    if 0 < t.largestBet || n = 0 || seat.stack < n || short then t.outOfPlace e
    else t.wager e seat n
  | .raise increment =>
    let n ← addChips deficit increment
    let short := increment < t.minRaise && n < seat.stack
    if t.largestBet = 0 || increment = 0 || seat.stack < n || short then t.outOfPlace e
    else t.wager e seat n
  | .allIn =>
    if seat.stack = 0 then t.outOfPlace e
    else t.wager e seat seat.stack
  | .fold => return t.extend e (.one seat.fold) (t.ledger.fold p)

/-- The table after the turn passed to a player. -/
def applyTurn (t : Table) (p : Player) : Outcome Table :=
  match t.ledger.row? p with
  | none => .error (.defect (.unknownPlayer p))
  | some row =>
    if row.live then .ok (t.extend (.turn p) .none { t.ledger with next := some p })
    else t.outOfPlace (.turn p)

/-- The table after a new street began with some cards revealed. -/
def applyRound (t : Table) (street : Street) (cards : Hand) : Outcome Table := do
  let e := Event.round street cards
  if street.index ≤ t.street.index then t.outOfPlace e
  else
    match t.board.reveal cards with
    | .error cause => Outcome.illegal (.badReveal e cause)
    | .ok board =>
      if street.boardSize < board.size then t.outOfPlace e
      else
        let seats := (← t.seats).map Seat.clearStake
        let ledger ← t.ledger.newRound street board t.dealer t.bigBlind
        return t.extend e (.all seats) ledger

/-- The table after an event, unless the event is refused. -/
def apply (t : Table) : Event → Outcome Table
  | .move p m => t.applyMove p m
  | .turn p => t.applyTurn p
  | .round street cards => t.applyRound street cards

/-- The table after an event that is known to be valid; it is a fault if it is refused. -/
def applyKnown (t : Table) (e : Event) : Outcome Table :=
  match t.apply e with
  | .ok t => .ok t
  | .error (.fault cause) => .error (.fault cause)
  | .error failure => .error (.fault (.invalidEvent failure.message))

end Table

end Holdem
