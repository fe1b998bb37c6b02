import Holdem.Table.Apply

/-!
# Playing

Playing an action applies its move and then the bookkeeping between moves: the turn passes on, or
the round is closed. A closed round is followed by new streets on which no card is revealed, until
somebody has a decision to make or the hand is over.
-/

set_option autoImplicit false

namespace Holdem

namespace Table

/-- The seat of the player whose turn it is. -/
def actor (t : Table) : Outcome Seat :=
  match t.nextToAct with
  | some p => t.seat p
  | none => .error (.defect .noActor)

/-- The seat of the player whose turn it is, if there is one. -/
def actor? (t : Table) : Option Seat := t.actor.toOption

/-- The chips the player whose turn it is needs to match the largest bet. -/
def toCall (t : Table) : Chips := (t.nextToAct.map t.deficit).getD 0

/-- Whether a player has more than a call needs and somebody else could answer a raise. -/
def mayRaiseFrom (t : Table) (seat : Seat) : Bool :=
  t.deficit seat.player < seat.stack && (t.nextAfter seat.player).any (· != seat.player)

/-- Whether the player whose turn it is may put in more than a call. -/
def mayRaise (t : Table) : Bool := t.actor?.any t.mayRaiseFrom

/-- The smallest bet, or the smallest increment of a raise. -/
def minimum (t : Table) : Chips := max t.minRaise 1

/-- Checking or folding: what is always open. -/
def passive (t : Table) : Action := if t.toCall = 0 then .check else .fold

/-- The legal actions, with the smallest legal bet or raise for all bets and raises. -/
def legal (t : Table) : Outcome (List Action) := do
  let some seat := t.actor? | return []
  let stack := seat.stack
  let deficit := t.deficit seat.player
  let quiet : List Action := if deficit = 0 then [.check] else [.fold]
  let call : List Action := if 0 < deficit && deficit < stack then [.call deficit] else []
  let larger : List Action ← do
    if !t.mayRaise then pure []
    else if t.largestBet = 0 then pure (if t.minimum < stack then [.bet t.minimum] else [])
    else
      let n ← addChips deficit t.minimum
      pure (if n < stack then [.raise t.minimum] else [])
  let shove : List Action :=
    if 0 < stack && (stack ≤ deficit || t.mayRaise) then [.shove stack] else []
  return quiet ++ call ++ larger ++ shove

/-- Whether the player whose turn it is may choose an action. -/
def isAllowed (t : Table) (a : Action) : Outcome Bool := do
  let some seat := t.actor? | return false
  let stack := seat.stack
  let deficit := t.deficit seat.player
  match a with
  | .fold => return 0 < deficit
  | .check => return deficit = 0
  | .call n => return 0 < deficit && n = deficit && n < stack
  | .bet n => return t.largestBet = 0 && t.mayRaise && t.minimum ≤ n && n < stack
  | .raise n =>
    if 0 < t.largestBet && t.mayRaise && t.minimum ≤ n then
      return (← addChips deficit n) < stack
    else return false
  | .shove n => return n = stack && 0 < stack && (stack ≤ deficit || t.mayRaise)

/-- Begins new streets as long as there is nothing to decide, at most a given number of them. -/
def settle : Nat → Table → Outcome Table
  | 0, t => return t
  | streets + 1, t => do
    if t.isHandOver || !t.isRoundOver then return t
    let street ← t.street.next
    settle streets (← t.applyRound street Hand.empty)

/-- Closes the round; as many streets can follow as are left. -/
def close (t : Table) : Outcome Table := settle t.street.left t

/-- The table after the player whose turn it is chose an action. -/
def play (t : Table) (a : Action) : Outcome Table := do
  let some p := t.nextToAct | throw (.defect .noActor)
  if !(← t.isAllowed a) then
    let table ← t.text
    Outcome.illegal (.notAllowed a p table)
  else
    let moved ← t.apply (a.event p)
    if moved.isRoundOver then moved.close
    else
      match moved.nextAfter p with
      | some q => moved.apply (.turn q)
      | none => throw (.defect (.noNextActor p))

/-- The table after some actions, one after the other. -/
def playAll (t : Table) (actions : List Action) : Outcome Table := actions.foldlM play t

/-- The chips behind all players together. -/
def chipsBehind (t : Table) : Nat :=
  match t.seats with
  | .ok seats => (seats.map Seat.stack).foldr (· + ·) 0
  | .error _ => 0

/-- A bound on how many actions can still be played. Every street or bet takes a unit from the
first factor; between two of them each seat acts at most once, and the turn passes each seat at
most once before somebody who has yet to act. -/
def playsLeft (t : Table) : Nat :=
  (t.street.left + t.chipsBehind + 1) * Nat.pow (t.ledger.rows.length + 1) 2

end Table

end Holdem
