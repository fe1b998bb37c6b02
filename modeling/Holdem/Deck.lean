import Holdem.Chance.Words
import Holdem.Checked

/-!
# Dealing

A deck is the set of cards that can still be dealt. A card is drawn by choosing its place among
the cards left, in the order of the deck, and leaves the deck.
-/

set_option autoImplicit false

namespace Holdem

/-- The cards that can still be dealt. -/
structure Deck where
  cards : Hand
  deriving DecidableEq, Repr

namespace Deck

/-- The deck with every card. -/
def full : Deck := ⟨Hand.full⟩

/-- The deck without the cards of a hand. -/
def without (used : Hand) : Deck := ⟨used.complement⟩

/-- The number of cards left. -/
def size (d : Deck) : Nat := d.cards.size

/-- The card at a place among the cards left, with the deck that remains. -/
def take? (d : Deck) (place : Nat) : Option (Card × Deck) :=
  d.cards.cards[place]?.map fun c => (c, ⟨d.cards.erase c⟩)

variable {σ : Type} [WordSource σ]

/-- Draws a card, unless none is left. -/
def draw (d : Deck) : Random σ (Option Card × Deck) :=
  match d.size with
  | 0 => return (none, d)
  | n => do
    match d.take? (← Random.below n) with
    | some (c, rest) => return (some c, rest)
    | none => return (none, d)

/-- Deals `n` cards to a hand. If the deck runs out there is no hand, and the cards drawn are
gone. -/
def dealTo (hand : Hand) : Nat → Deck → Random σ (Option Hand × Deck)
  | 0, d => return (some hand, d)
  | n + 1, d => do
    match ← d.draw with
    | (some c, rest) => dealTo (← hand.join (Hand.single c)) n rest
    | (none, rest) => return (none, rest)

/-- Deals a hand of `n` cards. -/
def deal (n : Nat) (d : Deck) : Random σ (Option Hand × Deck) := dealTo Hand.empty n d

end Deck

end Holdem
