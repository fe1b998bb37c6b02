import Holdem.Betting.Fraction
import Holdem.Order.Insertion
import Holdem.Table.Play

/-!
# Bet sizing

A player may bet any amount; a search looks at a few. The candidate actions are a check or a fold,
a call, one bet or raise for each fraction of the pot in a grid, and all in. A size below the
smallest legal one is lifted to it, sizes that would take the whole stack are dropped, and equal
sizes are listed once, in increasing order. Once a round has seen its full number of bets and
raises, only a call or less is left.
-/

set_option autoImplicit false

namespace Holdem

/-- Which actions a search looks at. -/
structure Sizing where
  grid : List PotFraction := PotFraction.usual
  /-- Whether all in is a candidate whenever raising is. -/
  shove : Bool := true
  /-- The number of bets and raises in a round after which there are no more. -/
  maxRaises : Nat := 4
  deriving DecidableEq, Repr

namespace Sizing

/-- The sizes of the grid for a pot, at least the minimum, that leave chips behind once the
deficit is paid, in increasing order. -/
def sizes (s : Sizing) (pot minimum deficit stack : Chips) : Outcome (List Chips) := do
  let amounts := s.grid.map (fun f => max (f.of pot) minimum)
  let fitting ← amounts.filterM (fun n => do return (← addChips deficit n) < stack)
  return (Order.insertionSort (fun a b => a < b) fitting).eraseReps

/-- The candidate actions of the player whose turn it is. -/
def candidates (s : Sizing) (t : Table) : Outcome (List Action) := do
  let some seat := t.actor? | return []
  let stack := seat.stack
  let deficit := t.deficit seat.player
  let isOpen := t.mayRaise && t.raises < s.maxRaises
  let quiet : List Action := if deficit = 0 then [.check] else [.fold]
  let call : List Action := if 0 < deficit && deficit < stack then [.call deficit] else []
  let larger : List Action ← do
    if isOpen then
      let pot ← addChips (← t.pot) deficit
      let sizes ← s.sizes pot t.minimum deficit stack
      pure (sizes.map (fun n => if t.largestBet = 0 then .bet n else .raise n))
    else pure []
  let shove : List Action :=
    if 0 < stack && (stack ≤ deficit || (isOpen && s.shove)) then [.shove stack] else []
  return quiet ++ call ++ larger ++ shove

end Sizing

end Holdem
