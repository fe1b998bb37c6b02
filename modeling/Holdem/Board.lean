import Holdem.Hand

/-!
# The board

The board holds the community cards. It grows by revealing hands of cards and never holds more
than five, nor a card twice.
-/

set_option autoImplicit false

namespace Holdem

/-- The text of the cards on a board, with a blank between two. -/
def boardText (cards : Hand) : String := String.intercalate " " (cards.cards.map Card.text)

/-- Why cards could not be revealed. -/
inductive BoardError where
  /-- Some of the cards are on the board already. -/
  | repeated (cards board : Hand)
  /-- The board has no room for so many. -/
  | crowded (cards board : Hand)
  deriving DecidableEq, Repr

namespace BoardError

/-- The wording of a refusal. -/
def message : BoardError → String
  | repeated cards board => cards.text ++ " already on board " ++ boardText board
  | crowded cards board => "board " ++ boardText board ++ " cannot take " ++ cards.text ++ " more"

end BoardError

/-- The community cards. -/
structure Board where
  cards : Hand
  atMostFive : cards.size ≤ 5
  deriving DecidableEq

namespace Hand

/-- A union has at most as many cards as its parts together. -/
theorem size_union_le (h k : Hand) : (h.union k).size ≤ h.size + k.size := by
  unfold size
  have count : ∀ cs : List Card,
      cs.countP (h.union k).contains ≤ cs.countP h.contains + cs.countP k.contains := by
    intro cs
    induction cs with
    | nil => simp
    | cons c cs ih =>
      simp only [List.countP_cons, contains_union]
      cases h.contains c <;> cases k.contains c <;> simp <;> omega
  exact count Card.all

end Hand

namespace Board

/-- The board before the flop. -/
def empty : Board := ⟨Hand.empty, by decide⟩

/-- The number of community cards. -/
def size (b : Board) : Nat := b.cards.size

/-- How many community cards are still to come. -/
def missing (b : Board) : Nat := 5 - b.size

/-- The board with a hand of new cards. -/
def reveal (b : Board) (h : Hand) : Except BoardError Board :=
  if b.cards.overlaps h then .error (.repeated h b.cards)
  else if fits : b.cards.size + h.size ≤ 5 then
    .ok ⟨b.cards.union h, Nat.le_trans (Hand.size_union_le b.cards h) fits⟩
  else .error (.crowded h b.cards)

/-- A board of given cards. -/
def ofHand (h : Hand) : Except BoardError Board := empty.reveal h

/-- The text of a board: its cards, lowest first, with a blank between two. -/
def text (b : Board) : String := boardText b.cards

end Board

end Holdem
