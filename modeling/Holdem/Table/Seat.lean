import Holdem.Checked
import Holdem.Hand.Reader
import Holdem.Text.Column

/-!
# Seats

A seat is a player's place at the table: the chips behind, the chips committed in this round, how
the player stands, and the hole cards as far as they are known.
-/

set_option autoImplicit false

namespace Holdem

/-- A player's place at the table. -/
structure Seat where
  player : Player
  /-- The chips behind. -/
  stack : Chips
  /-- The chips committed in this round. -/
  stake : Chips := 0
  status : Status := .betting
  sitting : Bool := true
  hole : Option Hole := none
  deriving DecidableEq

namespace Seat

/-- Whether the player competes for the pot. -/
def isActive (s : Seat) : Bool := s.sitting && s.status.isActive

/-- Whether the player can still make decisions. -/
def isActionable (s : Seat) : Bool := s.sitting && s.status == .betting

/-- Commits chips from the stack; a stack that becomes empty is all in. -/
def bet (s : Seat) (n : Chips) : Outcome Seat := do
  if s.stack < n then throw (.fault .overBet)
  let stake ← addChips s.stake n
  let stack := s.stack - n
  return { s with stack, stake, status := if stack = 0 then .allIn else s.status }

/-- The seat after its player folded. -/
def fold (s : Seat) : Seat := { s with status := .folded }

/-- The seat at the start of a round. -/
def clearStake (s : Seat) : Seat := { s with stake := 0 }

/-- The text of a seat. Unknown hole cards are four question marks. -/
def text (s : Seat) : String :=
  let place := if s.sitting then " " else "z"
  let stack := Text.padLeft 5 (toString s.stack)
  let stake := Text.padRight 5 (toString s.stake)
  let hole := match s.hole with
    | some hole => hole.text
    | none => "????"
  s!"{s.player.text} {s.status.text}{place} ${stack} +{stake} {hole}"

end Seat

end Holdem
