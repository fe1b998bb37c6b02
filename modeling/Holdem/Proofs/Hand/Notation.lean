import Holdem.Hand.Reader
import Holdem.Proofs.Card.Notation
import Holdem.Proofs.Hand.Counting

/-!
# How hands are written

A hand is written as its cards in any order, none of them twice. What is read as a hand is what
spells different cards when the blanks are left out, and the hand has just these cards
(`Hand.reads_spelled_cards`); the text of a hand is one of the ways to write it.
-/

set_option autoImplicit false

namespace Holdem

namespace Hand

variable {h : Hand} {cards : List Card}

/-- A hand made from a list of cards holds exactly those. -/
theorem mem_ofCards {c : Card} : c ∈ ofCards cards ↔ c ∈ cards := by
  rw [mem_def, contains_ofCards, decide_eq_true_iff]

/-- A hand made from a list has as many cards as the list if none is listed twice. -/
theorem size_ofCards_eq_length_iff : (ofCards cards).size = cards.length ↔ cards.Nodup := by
  constructor
  · intro size
    have listed : (ofCards cards).cards ⊆ cards := fun c mem => mem_ofCards.1 (mem_cards.1 mem)
    have length : cards.length ≤ (ofCards cards).cards.length := by rw [length_cards, size]
    have same := ((cards_nodup _).subperm listed).perm_of_length_le length
    exact same.nodup_iff.1 (cards_nodup _)
  · intro distinct
    rw [← length_cards, (cards_ofCards distinct).length_eq]

/-- A text reads as a hand exactly when it reads as distinct cards that make it. -/
theorem read_eq_ok_iff {text : String} : Hand.read text = .ok h ↔
    ∃ cards, Card.readMany text = .ok cards ∧ cards.Nodup ∧ ofCards cards = h := by
  rw [Hand.read, bind_eq_ok]
  refine exists_congr fun cards => and_congr_right fun _ => ?_
  rw [← size_ofCards_eq_length_iff]
  by_cases size : (ofCards cards).size = cards.length
  · simp [size, pure, Except.pure]
  · simp [size, throw, throwThe, MonadExceptOf.throw]

/-- The hand of some cards is the only one with just these cards. -/
theorem ofCards_eq_iff : ofCards cards = h ↔ ∀ c, c ∈ h ↔ c ∈ cards := by
  constructor
  · rintro rfl c
    exact mem_ofCards
  · intro same
    apply ext
    intro c
    rw [Bool.eq_iff_iff]
    exact mem_ofCards.trans (same c).symm

/-- The texts of cards, written one after another, spell those cards. -/
theorem spelled_cards (cards : List Card) :
    Card.Spelled (String.join (cards.map Card.text)).toList cards := by
  rw [String.toList_join]
  induction cards with
  | nil => exact .nil
  | cons card cards ih =>
    rw [List.map_cons, List.flatMap_cons]
    exact (Card.spelled_text card).append ih

/-- The text of a hand is read back as the hand. -/
theorem read_text (h : Hand) : Hand.read h.text = .ok h := by
  have spelled : Card.Spelled h.text.toList h.cards := spelled_cards h.cards
  refine read_eq_ok_iff.2 ⟨h.cards, ?_, cards_nodup h, ofCards_eq_iff.2 fun c => mem_cards.symm⟩
  rw [Card.readMany_eq_ok_iff, spelled.squeeze_eq]
  exact spelled

/-- Reading hands and cards. A text is read as a hand just if, its blanks left out, it spells
different cards, and the hand has these cards and no other; any other text is refused. The text of
a hand is read back as the hand. Texts one after the other are read as the cards of the first and
then of the second, and what is read as one card is read as many to the same end. -/
theorem reads_spelled_cards :
    (∀ (text : String) (h : Hand), Hand.read text = .ok h ↔
      ∃ cards, Card.Spelled (Text.squeeze text.toList) cards ∧ cards.Nodup ∧
        ∀ c, c ∈ h ↔ c ∈ cards) ∧
    (∀ text : String,
      (∀ cards, Card.Spelled (Text.squeeze text.toList) cards → ¬ cards.Nodup) →
        ∃ why, Hand.read text = .error why) ∧
    (∀ h : Hand, Hand.read h.text = .ok h) ∧
    (∀ (first second : String) (cards others : List Card),
      Card.readMany first = .ok cards → Card.readMany second = .ok others →
        Card.readMany (first ++ second) = .ok (cards ++ others)) ∧
    (∀ (text : String) (card : Card),
      Card.read text = .ok card → Card.readMany text = .ok [card]) := by
  have exact : ∀ (text : String) (h : Hand), Hand.read text = .ok h ↔
      ∃ cards, Card.Spelled (Text.squeeze text.toList) cards ∧ cards.Nodup ∧
        ∀ c, c ∈ h ↔ c ∈ cards := by
    intro text h
    rw [read_eq_ok_iff]
    simp only [Card.readMany_eq_ok_iff, ofCards_eq_iff]
  refine ⟨exact, fun text none => ?_, read_text, fun first second cards others =>
    Card.readMany_append, fun text card => Card.readMany_of_read⟩
  cases read : Hand.read text with
  | error why => exact ⟨why, rfl⟩
  | ok h =>
    obtain ⟨cards, spelled, distinct, -⟩ := (exact text h).1 read
    exact absurd distinct (none cards spelled)

/-- Two cards, in small letters and with a symbol for the suit, between blanks. -/
theorem reads_spelled_cards_aces :
    Card.readMany " a S" = .ok [⟨.ace, .spades⟩] ∧ Card.readMany "A♥" = .ok [⟨.ace, .hearts⟩] ∧
      Card.readMany (" a S" ++ "A♥") = .ok [⟨.ace, .spades⟩, ⟨.ace, .hearts⟩] := by
  obtain ⟨-, -, -, append, -⟩ := reads_spelled_cards
  have first : Card.readMany " a S" = .ok [⟨.ace, .spades⟩] := by rfl
  have second : Card.readMany "A♥" = .ok [⟨.ace, .hearts⟩] := by rfl
  exact ⟨first, second, append _ _ _ _ first second⟩

end Hand

end Holdem
