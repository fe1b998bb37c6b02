import Holdem.Deck
import Holdem.Table.Ledger

/-!
# Tables

A table is a snapshot followed by the events that happened since. The events form a chain: each
link holds its event, the seats that the event changed, and the ledger after it. Tables that branch
from a common past share it. What the ledger answers is read from the newest link; the seat of a
player is looked for backwards along the chain, down to the newest link that changed it.
-/

set_option autoImplicit false

namespace Holdem

/-- The seats that an event changed. -/
inductive Change where
  | none
  | one (seat : Seat)
  | all (seats : List Seat)
  deriving DecidableEq

/-- An event in the chain, with what it changed. -/
structure Link where
  event : Event
  change : Change
  ledger : Ledger
  deriving DecidableEq

/-- A snapshot and the events since, the newest first. -/
structure Table where
  dealer : Player
  bigBlind : Chips
  /-- The seats of the snapshot. -/
  seated : List Seat
  /-- The ledger of the snapshot. -/
  opening : Ledger
  links : List Link
  deriving DecidableEq

namespace Table

/-- The table of a snapshot, unless the snapshot is refused. -/
def ofSnapshot (s : Snapshot) : Outcome Table := do
  s.check
  let opening ← Ledger.ofSnapshot s
  return { dealer := s.dealer, bigBlind := s.bigBlind, seated := s.seats, opening, links := [] }

/-- The bookkeeping after the newest event. -/
def ledger (t : Table) : Ledger :=
  match t.links with
  | [] => t.opening
  | link :: _ => link.ledger

/-! ## What the ledger answers -/

/-- The current street. -/
def street (t : Table) : Street := t.ledger.street

/-- The board. -/
def board (t : Table) : Board := t.ledger.board

/-- The chips of earlier rounds. -/
def previousPot (t : Table) : Chips := t.ledger.carried

/-- The chips committed in this round. -/
def roundPot (t : Table) : Chips := t.ledger.round

/-- All chips in the pot. -/
def pot (t : Table) : Outcome Chips := addChips t.previousPot t.roundPot

/-- The largest bet of the round. -/
def largestBet (t : Table) : Chips := t.ledger.largest

/-- The smallest increment of a raise. -/
def minRaise (t : Table) : Chips := t.ledger.minRaise

/-- The bets and raises of this round so far. -/
def raises (t : Table) : Nat := t.ledger.raises

/-- The player whose turn it is. -/
def nextToAct (t : Table) : Option Player := t.ledger.next

/-- The last player to bet or raise in this round. -/
def lastBettor (t : Table) : Option Player := t.ledger.bettor

/-- How many players compete for the pot. -/
def activeCount (t : Table) : Nat := t.ledger.activeCount

/-- How many players can still make decisions. -/
def actionableCount (t : Table) : Nat := t.ledger.liveCount

/-- The chips a player must add to match the largest bet. -/
def deficit (t : Table) (p : Player) : Chips := t.ledger.deficit p

/-- The chips a player has committed in this round. -/
def stake (t : Table) (p : Player) : Chips := ((t.ledger.row? p).map Row.stake).getD 0

/-- Whether a player competes for the pot. -/
def isActive (t : Table) (p : Player) : Bool := (t.ledger.row? p).any Row.active

/-- Whether a player can still make decisions. -/
def isActionable (t : Table) (p : Player) : Bool := (t.ledger.row? p).any Row.live

/-- Whether a player has acted since the last bet or raise. -/
def hasActed (t : Table) (p : Player) : Bool := (t.ledger.row? p).any Row.acted

/-- The place of a player's seat. -/
def position? (t : Table) (p : Player) : Option Nat :=
  t.ledger.rows.findIdx? (fun r => r.player == p)

/-- The next player clockwise after another who can still make decisions. -/
def nextAfter (t : Table) (p : Player) : Option Player := t.ledger.nextAfter p

/-- Whether the betting round is over. -/
def isRoundOver (t : Table) : Bool := t.ledger.isRoundOver

/-- Whether the hand is over. -/
def isHandOver (t : Table) : Bool := t.ledger.isHandOver

/-! ## What the chain answers -/

/-- The events since the snapshot, oldest first. -/
def history (t : Table) : List Event := (t.links.map Link.event).reverse

/-- How many events happened since the snapshot. -/
def depth (t : Table) : Nat := t.links.length

/-- The newest event. -/
def lastEvent (t : Table) : Option Event := t.links.head?.map Link.event

/-- The table before the newest event. -/
def previous (t : Table) : Option Table :=
  match t.links with
  | [] => none
  | _ :: links => some { t with links }

/-- The seat of a player among some seats. -/
def seatAmong (p : Player) (seats : List Seat) : Option Seat :=
  seats.find? (fun seat => seat.player == p)

/-- The seat of a player, looked for along a chain of links that starts from some seats. -/
def seatAlong (p : Player) (seated : List Seat) : List Link → Option Seat
  | [] => seatAmong p seated
  | link :: links =>
    match link.change with
    | .none => seatAlong p seated links
    | .one seat => if seat.player = p then some seat else seatAlong p seated links
    | .all seats => seatAmong p seats

/-- The seat of a player. -/
def seat (t : Table) (p : Player) : Outcome Seat :=
  match seatAlong p t.seated t.links with
  | some seat => .ok seat
  | none => .error (.defect (.unknownPlayer p))

/-- Every seat, clockwise. -/
def seats (t : Table) : Outcome (List Seat) := t.ledger.rows.mapM (fun r => t.seat r.player)

/-- The active seats of everyone but one player. -/
def opponents (t : Table) (p : Player) : Outcome (List Seat) := do
  return (← t.seats).filter (fun seat => seat.player != p && seat.isActive)

/-- The cards a player cannot see: all but the board and the player's own hole. -/
def unseen (t : Table) (p : Player) : Outcome Deck := do
  match (← t.seat p).hole with
  | some hole => return Deck.without (← t.board.cards.join hole.cards)
  | none => return Deck.without t.board.cards

/-- The text of a table: a line for the pot, then a line for each seat, with a mark at the seat
whose turn it is. -/
def text (t : Table) : Outcome String := do
  let pot ← t.pot
  let seats ← t.seats
  let head := s!"{t.street.text} [{t.board.text}] pot {pot} ({t.previousPot}+{t.roundPot}) " ++
    s!"raises {t.raises}\n"
  let line := fun (seat : Seat) =>
    let mark := if t.nextToAct = some seat.player then ">" else " "
    s!"{mark} {seat.text}\n"
  return head ++ String.join (seats.map line)

/-- A summary of a table in one line. -/
def summary (t : Table) : Outcome String := do
  let pot ← t.pot
  let next := match t.nextToAct with
    | some p => s!"Some(PlayerId({p.id}))"
    | none => "None"
  let fields := [s!"street: {t.street.shortName}", s!"pot: {pot}", s!"largest: {t.largestBet}",
    s!"next: {next}", s!"depth: {t.depth}"]
  return "State \x7b " ++ String.intercalate ", " fields ++ " \x7d"

end Table

end Holdem
