import Holdem.Card.Reader
import Holdem.Hand

/-!
# Reading hands and holes

A hand is written as its cards in any order, each once. A hole is a hand of exactly two cards, the
private cards of one player.
-/

set_option autoImplicit false

namespace Holdem

namespace Hand

/-- Reads a hand; a card given twice is refused. -/
def read (text : String) : Except CardError Hand := do
  let cards ← Card.readMany text
  let hand := ofCards cards
  if hand.size = cards.length then return hand else throw (.duplicates text)

end Hand

/-- The two private cards of a player. -/
structure Hole where
  cards : Hand
  two : cards.size = 2
  deriving DecidableEq

namespace Hole

/-- A hand of two cards as a hole. -/
def ofHand (h : Hand) : Except CardError Hole :=
  if two : h.size = 2 then .ok ⟨h, two⟩ else .error (.badHole h.size)

/-- Reads a hole. -/
def read (text : String) : Except CardError Hole := do
  ofHand (← Hand.read text)

/-- The text of a hole: its two cards, lower first. -/
def text (h : Hole) : String := h.cards.text

end Hole

end Holdem
