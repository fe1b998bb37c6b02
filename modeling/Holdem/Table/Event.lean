import Holdem.Hand
import Holdem.Street
import Holdem.Table.Player

/-!
# Actions and events

An action is what a player may choose; it names the chips it costs. An event is what happens at
the table: a player's move, the turn passing to a player, or a new round beginning. Every action
becomes a move of the player who chose it.
-/

set_option autoImplicit false

namespace Holdem

/-- What a player does. -/
inductive Move where
  | check
  /-- Match the largest bet, as far as the stack goes. -/
  | call
  /-- Open the betting with this many chips. -/
  | bet (amount : Chips)
  /-- Match the largest bet and add this much to it. -/
  | raise (increment : Chips)
  | allIn
  | fold
  deriving DecidableEq, Repr

/-- What happens at the table. -/
inductive Event where
  | move (player : Player) (move : Move)
  /-- It is this player's turn. -/
  | turn (player : Player)
  /-- The round is closed, the next street begins, and these cards are opened. -/
  | round (street : Street) (cards : Hand)
  deriving DecidableEq, Repr

namespace Event

/-- The player whose chips or status the event changes. -/
def actor : Event → Option Player
  | move p _ => some p
  | turn _ | round _ _ => none

/-- The text of an event. -/
def text : Event → String
  | move p .check => p.text ++ " CHECK"
  | move p .call => p.text ++ " CALL"
  | move p (.bet n) => s!"{p.text} BET   {n}"
  | move p (.raise n) => s!"{p.text} RAISE {n}"
  | move p .allIn => p.text ++ " ALLIN"
  | move p .fold => p.text ++ " FOLD"
  | turn p => "-> " ++ p.text
  | round street cards => "== " ++ street.text ++ " " ++ cards.text

end Event

/-- The kind of habit an action shows. -/
inductive Style where
  | fold | passive | aggressive
  deriving DecidableEq, Repr

namespace Style

/-- Every style. -/
def all : List Style := [fold, passive, aggressive]

end Style

/-- The style of a move. -/
def Move.style : Move → Style
  | fold => .fold
  | check | call => .passive
  | bet _ | raise _ | allIn => .aggressive

/-- A choice of the player whose turn it is. Amounts are the chips that leave the stack, but a
raise gives the increment over the largest bet. -/
inductive Action where
  | fold
  | check
  | call (amount : Chips)
  | bet (amount : Chips)
  | raise (increment : Chips)
  | shove (amount : Chips)
  deriving DecidableEq, Repr

namespace Action

/-- The move an action amounts to. -/
def move : Action → Move
  | fold => .fold
  | check => .check
  | call _ => .call
  | bet n => .bet n
  | raise n => .raise n
  | shove _ => .allIn

/-- The event of a player choosing an action. -/
def event (a : Action) (p : Player) : Event := .move p a.move

/-- Whether the action puts in more than a call. -/
def isAggressive : Action → Bool
  | bet _ | raise _ | shove _ => true
  | fold | check | call _ => false

/-- Whether the action stays in the hand without putting in more than a call. -/
def isPassive : Action → Bool
  | check | call _ => true
  | fold | bet _ | raise _ | shove _ => false

/-- The kind of habit the action shows. -/
def style : Action → Style
  | fold => .fold
  | check | call _ => .passive
  | bet _ | raise _ | shove _ => .aggressive

/-- The amount an action names. -/
def amount : Action → Chips
  | fold | check => 0
  | call n | bet n | raise n | shove n => n

/-- The rank of an action among actions of one value, the cheaper and steadier first. -/
def preferenceKind : Action → Nat
  | check => 0
  | fold => 1
  | call _ => 2
  | bet _ | raise _ => 3
  | shove _ => 4

/-- Whether an action is preferred to another of the same value: by kind, then by amount. -/
def preferredTo (a b : Action) : Bool :=
  a.preferenceKind < b.preferenceKind ||
    (a.preferenceKind == b.preferenceKind && a.amount < b.amount)

/-- The name of an action's kind. -/
def label : Action → String
  | fold => "fold"
  | check => "check"
  | call _ => "call"
  | bet _ => "bet"
  | raise _ => "raise"
  | shove _ => "shove"

/-- The text of an action. -/
def text : Action → String
  | fold => "FOLD"
  | check => "CHECK"
  | call n => s!"CALL {n}"
  | bet n => s!"BET {n}"
  | raise n => s!"RAISE {n}"
  | shove n => s!"SHOVE {n}"

/-- A move shows the same habit as the action it comes from. -/
theorem style_move (a : Action) : a.move.style = a.style := by cases a <;> rfl

end Action

end Holdem
