import Holdem.Board
import Holdem.Card.Reader
import Holdem.Table.Event

/-!
# Failures

A computation may end in a value or in a failure, of which there are three sorts. A *defect* is a
broken expectation about the table or the search; a driver can tell defects apart and go on with a
safe action. A *refusal* says why an input was not accepted. A *fault* is an arithmetic result that
does not fit or a broken assertion; it ends the whole computation and nothing recovers from it.
Every failure names its cause, and its wording is computed from the cause.
-/

set_option autoImplicit false

namespace Holdem

/-- Why an event or an action is against the rules. -/
inductive Illegality where
  | outOfTurn (player due : Player)
  | cannotAct (player : Player) (status : Status)
  /-- The event does not fit the state of the betting. -/
  | outOfPlace (event : Event) (street : Street) (pot : Chips)
  /-- The cards of the event cannot be revealed. -/
  | badReveal (event : Event) (cause : BoardError)
  /-- The action is not open to the player at the table with this text. -/
  | notAllowed (action : Action) (actor : Player) (table : String)
  | stated (what : String)
  deriving DecidableEq, Repr

namespace Illegality

/-- The wording of an illegality. -/
def message : Illegality → String
  | outOfTurn player due => s!"{player.text} acted out of turn, {due.text} is due"
  | cannotAct player status => s!"{player.text} cannot act ({status.text})"
  | outOfPlace event street pot => s!"{event.text} at {street.text} {pot}"
  | badReveal event cause => s!"{event.text}: {cause.message}"
  | notAllowed action actor table => s!"{action.text} by {actor.text} at\n{table}"
  | stated what => what

end Illegality

/-- A broken expectation about the table or the search. -/
inductive Defect where
  /-- Nobody is left to answer a player. -/
  | noNextActor (player : Player)
  | noActor
  | deckExhausted (needed left : Nat)
  /-- The value of a node was read before the node was expanded. -/
  | unexpanded
  | illegal (cause : Illegality)
  | unknownHole (player : Player)
  | unknownPlayer (player : Player)
  deriving DecidableEq, Repr

namespace Defect

/-- The wording of a defect. -/
def message : Defect → String
  | noNextActor player => "no player left to answer " ++ player.text
  | noActor => "no player is due to act"
  | deckExhausted needed left => s!"deck exhausted: needed {needed} cards, {left} left"
  | unexpanded => "ev read before expansion"
  | illegal cause => "illegal action: " ++ cause.message
  | unknownHole player => s!"hole cards of {player.text} are unknown"
  | unknownPlayer player => player.text ++ " is not seated"

end Defect

/-- The most seats at a table. -/
def seatLimit : Nat := 64

/-- Why a table was refused. -/
inductive SeatingError where
  | noSeats
  | tooManySeats (seats : Nat)
  | seatedTwice (player : Player)
  | dealerNotSeated
  | nextNotSeated (player : Player)
  | nextCannotAct (player : Player)
  | notSeated (player : Player)
  | boardTooLarge (size : Nat) (street : Street)
  | dealtTwice (hole : Hand)
  deriving DecidableEq, Repr

namespace SeatingError

/-- The wording of a refusal. -/
def message : SeatingError → String
  | noSeats => "no seats"
  | tooManySeats seats => s!"{seats} seats exceed the table limit of {seatLimit}"
  | seatedTwice player => player.text ++ " seated twice"
  | dealerNotSeated => "dealer not seated"
  | nextNotSeated player => s!"next player {player.text} not seated"
  | nextCannotAct player => s!"next player {player.text} cannot act"
  | notSeated player => player.text ++ " not seated"
  | boardTooLarge size street => s!"{size} cards on the board at {street.text}"
  | dealtTwice hole => s!"card {hole.text} dealt twice"

end SeatingError

/-- Why settings were refused. -/
inductive SettingsError where
  | noTrials
  | noSamples
  | badSize
  deriving DecidableEq, Repr

namespace SettingsError

/-- The wording of a refusal. -/
def message : SettingsError → String
  | noTrials => "trials must be positive"
  | noSamples => "samples must be positive"
  | badSize => "bet sizes must be positive fractions"

end SettingsError

/-- Why an input was not accepted. -/
inductive Refusal where
  | card (cause : CardError)
  | board (cause : BoardError)
  | street (cause : StreetError)
  | seating (cause : SeatingError)
  | settings (cause : SettingsError)
  /-- A hand without cards has no strength. -/
  | unranked
  /-- A model of an opponent was asked about no actions at all. -/
  | noCandidates
  /-- A model of an opponent gave up. -/
  | model (why : String)
  | noOpponents
  deriving DecidableEq, Repr

namespace Refusal

/-- The wording of a refusal. -/
def message : Refusal → String
  | card cause => cause.message
  | board cause => cause.message
  | street cause => cause.message
  | seating cause => cause.message
  | settings cause => cause.message
  | unranked => "cannot rank an empty hand"
  | noCandidates => "no candidates to choose from"
  | model why => why
  | noOpponents => "need at least one opponent"

end Refusal

/-- A broken assertion, or an arithmetic result that does not fit. -/
inductive Fault where
  | addOverflow
  | mulOverflow
  /-- A list of the given length has no such place. -/
  | outOfBounds (length place : Nat)
  | badCardCode
  /-- A bet larger than the stack. -/
  | overBet
  /-- Two hands that must not share a card do. -/
  | overlap (left right : Hand)
  /-- The street after the showdown was asked for. -/
  | terminal
  /-- An event taken for valid was refused, in these words. -/
  | invalidEvent (why : String)
  deriving DecidableEq, Repr

namespace Fault

/-- The wording of a fault. -/
def message : Fault → String
  | addOverflow => "attempt to add with overflow"
  | mulOverflow => "attempt to multiply with overflow"
  | outOfBounds length place =>
      s!"index out of bounds: the len is {length} but the index is {place}"
  | badCardCode => "assertion failed: n < 52"
  | overBet => "assertion failed: bet <= self.stack"
  | overlap left right => s!"overlapping hands {left.text} {right.text}"
  | terminal => "terminal"
  | invalidEvent why => "valid event: " ++ why

end Fault

/-- How a computation may fail. -/
inductive Failure where
  | defect (cause : Defect)
  | refusal (cause : Refusal)
  | fault (cause : Fault)
  deriving DecidableEq, Repr

namespace Failure

/-- The wording of a failure. -/
def message : Failure → String
  | defect cause => cause.message
  | refusal cause => cause.message
  | fault cause => cause.message

end Failure

/-- The outcome of a computation that may fail. -/
abbrev Outcome := Except Failure

namespace Outcome

variable {α : Type}

/-- Fails because an event or action is against the rules. -/
def illegal (cause : Illegality) : Outcome α := .error (.defect (.illegal cause))

/-- The outcome with any failure but a fault forgotten. -/
def attempt : Outcome α → Outcome (Option α)
  | .ok a => .ok (some a)
  | .error (.fault cause) => .error (.fault cause)
  | .error _ => .ok none

end Outcome

instance : MonadLift (Except CardError) Outcome where
  monadLift := Except.mapError (fun cause => .refusal (.card cause))

instance : MonadLift (Except BoardError) Outcome where
  monadLift := Except.mapError (fun cause => .refusal (.board cause))

instance : MonadLift (Except StreetError) Outcome where
  monadLift := Except.mapError (fun cause => .refusal (.street cause))

instance : MonadLift (Except SeatingError) Outcome where
  monadLift := Except.mapError (fun cause => .refusal (.seating cause))

instance : MonadLift (Except SettingsError) Outcome where
  monadLift := Except.mapError (fun cause => .refusal (.settings cause))

end Holdem
