/-!
# Players

A player is known by a number, the same for the whole hand. Amounts of chips are whole numbers.
-/

set_option autoImplicit false

namespace Holdem

/-- An amount of chips. -/
abbrev Chips := Nat

/-- The number by which a player is known. -/
structure Player where
  id : Nat
  deriving DecidableEq, Repr, Inhabited

namespace Player

/-- The text of a player. -/
def text (p : Player) : String := s!"P{p.id}"

end Player

/-- How a player stands in the hand: still betting, all in, or folded. -/
inductive Status where
  | betting | allIn | folded
  deriving DecidableEq, Repr, Inhabited

namespace Status

/-- Whether a player of this status competes for the pot. -/
def isActive (s : Status) : Bool := s != folded

/-- The letter a status is written with. -/
def text : Status → String
  | betting => "B"
  | allIn => "S"
  | folded => "F"

end Status

end Holdem
