import Holdem.Chance.Xoshiro
import Holdem.Proofs.Concurrence
import Holdem.Proofs.Deck
import Holdem.Proofs.Hand.Word

/-!
# Dealing from a word

The cards that can be dealt lie in a word. A card is drawn by choosing a place among the bits that
are set, dropping as many low bits and taking the card of the lowest bit left. Each place has a card
of its own and each card has a place, so a choice of places is a choice of cards. Nothing else is
assumed of what chooses: it may depend on anything as long as the place is there. Cards are then
dealt without putting any back, until there are enough of them or the deck is empty.
-/

set_option autoImplicit false

namespace Holdem

/-- What chooses ends in one of the places, as far as there are not more places than cards. -/
def Random.Chooses {σ : Type} (choose : Nat → Random σ Nat) : Prop :=
  ∀ n g, 0 < n → n ≤ 52 → ∃ place g', choose n g = .ok (place, g') ∧ place < n

/-- A random choice below a bound is one of the numbers below it. -/
theorem Random.chooses_below {σ : Type} [WordSource σ] :
    Chooses (below : Nat → Random σ Nat) := by
  intro n g some few
  have ends : Within (fun _ => False) (fun place => place < n) (below n : Random σ Nat) :=
    within_below some (by omega)
  cases chosen : below n g with
  | error e => exact ((ends g).error chosen).elim
  | ok a => exact ⟨a.1, a.2, rfl, (ends g).ok chosen⟩

/-! ## Programs on words -/

namespace Word

variable {σ : Type}

/-- Draws a card at a place that is chosen among the bits that are set, unless none is. -/
def draw (choose : Nat → Random σ Nat) (w : Word) : Random σ (Option Card × Word) :=
  match w.size with
  | 0 => return (none, w)
  | n => do
    let place ← choose n
    let c ← (dropLowest^[place] w).lowest
    return (some c, w.remove c)

/-- Deals `n` cards to a hand; without enough cards there is no hand. -/
def dealTo (choose : Nat → Random σ Nat) (hand : Word) :
    Nat → Word → Random σ (Option Word × Word)
  | 0, w => return (some hand, w)
  | n + 1, w => do
    match ← draw choose w with
    | (some c, rest) => dealTo choose (← hand.add (ofCard c)) n rest
    | (none, rest) => return (none, rest)

/-- Deals a hand of `n` cards. -/
def deal (choose : Nat → Random σ Nat) (n : Nat) (w : Word) : Random σ (Option Word × Word) :=
  dealTo choose 0#64 n w

end Word

/-! ## A card for each place -/

namespace Hand

/-- A hand of no cards is the empty hand. -/
theorem eq_empty_of_size {h : Hand} (none : h.size = 0) : h = empty := by
  have nothing : h.cards = [] := by
    rw [← List.length_eq_zero_iff, length_cards, none]
  refine ext (fun c => ?_)
  rw [contains_empty, Bool.eq_false_iff]
  intro held
  have listed := mem_cards.2 (mem_def.2 held)
  rw [nothing] at listed
  cases listed

/-- Dropping the lowest bits of the word of a hand drops the first cards of the hand. -/
theorem exists_dropLowest (h : Hand) {i : Nat} (inside : i ≤ h.size) :
    ∃ k : Hand, k.word = Word.dropLowest^[i] h.word ∧ k.cards = h.cards.drop i := by
  induction i generalizing h with
  | zero => exact ⟨h, rfl, rfl⟩
  | succ i ih =>
    cases listed : h.cards with
    | nil =>
      rw [← length_cards, listed, List.length_nil] at inside
      omega
    | cons c cs =>
      have rest := cards_erase listed
      have fewer : i ≤ (h.erase c).size := by
        rw [← length_cards, listed, List.length_cons] at inside
        rw [← length_cards, rest]
        omega
      obtain ⟨k, lies, left⟩ := ih (h.erase c) fewer
      refine ⟨k, ?_, by rw [left, rest, List.drop_succ_cons]⟩
      rw [lies, Function.iterate_succ_apply, dropLowest_word listed]

/-- The card at each place of a hand. -/
def cardAt (h : Hand) : Fin h.size ≃ {c : Card // c ∈ h} :=
  (finCongr h.length_cards.symm).trans
    ((List.Nodup.getEquiv h.cards h.cards_nodup).trans
      (Equiv.subtypeEquivRight (fun _ => mem_cards)))

/-- The card at a place of a hand is the one at this place of its list. -/
theorem getElem?_cards (h : Hand) (place : Fin h.size) :
    h.cards[place.val]? = some (h.cardAt place).val := by
  have inside : place.val < h.cards.length := by
    rw [length_cards]
    exact place.isLt
  rw [List.getElem?_eq_getElem inside]
  rfl

/-- What is left after dropping the bits below a place begins with the card at that place. -/
theorem exists_drop_cards (h : Hand) (place : Fin h.size) :
    ∃ cs, h.cards.drop place.val = (h.cardAt place).val :: cs := by
  have inside : place.val < h.cards.length := by
    rw [length_cards]
    exact place.isLt
  exact ⟨_, List.drop_eq_getElem_cons inside⟩

/-- After the cards below it are dropped, the card at a place is the lowest that is left. -/
theorem lowest_dropLowest (h : Hand) (place : Fin h.size) :
    (Word.dropLowest^[place.val] h.word).lowest = .ok (h.cardAt place).val := by
  obtain ⟨k, lies, left⟩ := h.exists_dropLowest (Nat.le_of_lt place.isLt)
  obtain ⟨cs, first⟩ := h.exists_drop_cards place
  rw [← lies, lowest_word (left.trans first)]

/-- There is a bit to drop until the place is reached. -/
theorem dropLowest_ne_zero (h : Hand) {i : Nat} (inside : i < h.size) :
    Word.dropLowest^[i] h.word ≠ 0#64 := by
  obtain ⟨k, lies, left⟩ := h.exists_dropLowest (Nat.le_of_lt inside)
  obtain ⟨cs, first⟩ := h.exists_drop_cards ⟨i, inside⟩
  have held : (h.cardAt ⟨i, inside⟩).val ∈ k :=
    mem_cards.1 (left.trans first ▸ List.mem_cons_self)
  rw [← lies, ne_eq, word_eq_zero_iff, isEmpty_iff]
  exact fun none => none _ held

end Hand

namespace Word

variable {σ : Type} {choose : Nat → Random σ Nat} {w : Word}

/-- Nothing is drawn from an empty word. -/
theorem draw_of_empty (empty : w.size = 0) : draw choose w = return (none, w) := by
  rw [draw, empty]
  rfl

/-- A word that has cards draws the one at a place that is chosen. -/
theorem draw_of_stocked (stocked : w.size ≠ 0) : draw choose w = (do
    let place ← choose w.size
    let c ← (dropLowest^[place] w).lowest
    return (some c, w.remove c)) := by
  rw [draw]
  split
  · next empty => exact absurd empty stocked
  · rfl

end Word

namespace Deck

variable {σ : Type} {choose : Nat → Random σ Nat} {F : Failure → Prop} {d : Deck}

/-- A deck has as many cards as bits stand in its word. -/
theorem size_word (d : Deck) : d.cards.word.size = d.size := d.cards.size_word

/-- Taking the card at a place leaves the deck without it. -/
theorem take?_cardAt (d : Deck) (place : Fin d.size) :
    d.take? place.val =
      some ((d.cards.cardAt place).val, ⟨d.cards.erase (d.cards.cardAt place)⟩) := by
  rw [take?, d.cards.getElem?_cards place, Option.map_some]

/-- At the place that is chosen the card of that place is drawn. -/
theorem draw_word (d : Deck) (place : Fin d.size) {g g' : σ}
    (chosen : choose d.size g = .ok (place.val, g')) :
    Word.draw choose d.cards.word g =
      .ok ((some (d.cards.cardAt place).val, (d.cards.erase (d.cards.cardAt place)).word), g') := by
  have stocked : d.cards.word.size ≠ 0 := by
    have inside := place.isLt
    rw [size_word]
    omega
  rw [Word.draw_of_stocked stocked, size_word]
  show (choose d.size g >>= _) = _
  rw [chosen]
  show ((Word.dropLowest^[place.val] d.cards.word).lowest >>= _) >>= _ = _
  rw [d.cards.lowest_dropLowest place, Hand.word_erase]
  rfl

/-- A deck that has cards takes the one at a place that is chosen. -/
theorem draw_of_stocked [WordSource σ] (stocked : d.size ≠ 0) :
    (d.draw : Random σ (Option Card × Deck)) = (do
      match d.take? (← Random.below d.size) with
      | some (c, rest) => return (some c, rest)
      | none => return (none, d)) := by
  rw [draw]
  split
  · next empty => exact absurd empty stocked
  · rfl

/-- The card drawn from a deck is the one at the chosen place. -/
theorem draw_eq [WordSource σ] (d : Deck) (place : Fin d.size) {g g' : σ}
    (chosen : Random.below d.size g = .ok (place.val, g')) :
    d.draw g =
      .ok ((some (d.cards.cardAt place).val, ⟨d.cards.erase (d.cards.cardAt place)⟩), g') := by
  have stocked : d.size ≠ 0 := by
    have inside := place.isLt
    omega
  rw [draw_of_stocked stocked]
  show (Random.below d.size g >>= _) = _
  rw [chosen]
  show (match d.take? place.val with
    | some (c, rest) => (return (some c, rest) : Random σ (Option Card × Deck))
    | none => return (none, d)) g' = _
  rw [d.take?_cardAt place]
  rfl

/-- The word of a deck draws as a deck does. -/
theorem within_draw_word (chooses : Random.Chooses choose) (d : Deck) :
    Random.Within F (fun drawn : Option Card × Word =>
        ∃ rest : Deck, drawn.2 = rest.cards.word ∧ d.DrawnFrom (drawn.1, rest))
      (Word.draw choose d.cards.word) := by
  intro g
  by_cases empty : d.size = 0
  · rw [Word.draw_of_empty ((size_word d).trans empty)]
    exact ⟨d, rfl, empty, rfl⟩
  · obtain ⟨place, g', chosen, inside⟩ :=
      chooses d.size g (Nat.pos_of_ne_zero empty) d.cards.size_le
    refine Outcome.within_of_ok (d.draw_word ⟨place, inside⟩ chosen) ⟨_, rfl, ?_⟩
    exact take?_eq_some (d.take?_cardAt ⟨place, inside⟩)

/-! ## Dealing a hand -/

/-- The word of a deck deals as a deck does. -/
theorem within_dealTo_word (chooses : Random.Chooses choose) {hand : Hand} (n : Nat)
    (apart : hand.Apart d.cards) :
    Random.Within F (fun dealt : Option Word × Word => ∃ result : Option Hand × Deck,
        dealt = (result.1.map Hand.word, result.2.cards.word) ∧ DealtTo hand n d result)
      (Word.dealTo choose hand.word n d.cards.word) := by
  -- the hand shares no card with what is left, so the next card can be added to it
  induction n generalizing hand d with
  | zero => exact Random.within_pure ⟨(some hand, d), rfl, dealtTo_zero hand d⟩
  | succ n ih =>
    rw [Word.dealTo]
    refine (within_draw_word chooses d).bind ?_
    rintro ⟨card, left⟩ ⟨rest, same, spec⟩
    obtain rfl : left = rest.cards.word := same
    cases card with
    | none =>
      obtain ⟨empty, rfl⟩ : d.size = 0 ∧ rest = d := spec
      exact Random.within_pure ⟨(none, rest), rfl, dealtTo_of_empty empty⟩
    | some c =>
      have split : d.Splits (Hand.single c) rest := spec
      obtain ⟨single, remaining⟩ := split.apart_parts apart
      have joined : hand.word.add (Word.ofCard c) = .ok (hand.union (Hand.single c)).word := by
        rw [← Hand.word_single, Hand.add_word, Hand.join_eq_ok single]
        rfl
      refine (Random.within_lift (Outcome.within_of_ok joined rfl)).bind ?_
      rintro _ rfl
      refine (ih remaining).mono (fun _ => id) ?_
      rintro _ ⟨result, rfl, later⟩
      exact ⟨result, rfl, later.succ split⟩

/-- What dealing a hand of `n` cards comes to: if there are enough cards the hand is split off the
deck, otherwise no card is left. -/
structure Deals (d : Deck) (n : Nat) (hand : Option Hand) (rest : Deck) : Prop where
  enough : hand.isSome = true ↔ n ≤ d.size
  dealt : ∀ h ∈ hand, h.size = n ∧ d.Splits h rest
  exhausted : hand = none → rest.cards = Hand.empty

/-- Dealing to an empty hand is dealing. -/
theorem deals_of_dealtTo {n : Nat} {hand : Option Hand} {rest : Deck}
    (spec : DealtTo Hand.empty n d (hand, rest)) : d.Deals n hand rest := by
  cases hand with
  | none =>
    obtain ⟨short, empty⟩ : d.size < n ∧ rest.size = 0 := spec
    exact ⟨by simp [short], fun h mem => by simp at mem, fun _ => Hand.eq_empty_of_size empty⟩
  | some h =>
    obtain ⟨new, rfl, count, split⟩ := spec
    rw [Hand.empty_union]
    have size := split.size
    refine ⟨by simp; omega, fun h mem => ?_, fun none => by cases none⟩
    obtain rfl := Option.mem_some_iff.1 mem
    exact ⟨count, split⟩

/-- Dealing from the word of a deck deals from the deck, whatever chooses the places. -/
theorem exists_deal_word (chooses : Random.Chooses choose) (d : Deck) (n : Nat) (g : σ) :
    ∃ hand rest g', Word.deal choose n d.cards.word g =
        .ok ((Option.map Hand.word hand, rest.cards.word), g') ∧ d.Deals n hand rest := by
  have apart : Hand.empty.Apart d.cards := fun c mem => absurd mem (Hand.not_mem_empty c)
  have ends := within_dealTo_word (F := fun _ => False) chooses n apart g
  rw [Hand.word_empty] at ends
  cases dealt : Word.dealTo choose 0#64 n d.cards.word g with
  | error e => exact (ends.error dealt).elim
  | ok a =>
    obtain ⟨⟨hand, rest⟩, same, spec⟩ := ends.ok dealt
    refine ⟨hand, rest, a.2, ?_, deals_of_dealtTo spec⟩
    rw [Word.deal, dealt, ← same]

/-! ## Dealing from the deck -/

/-- Drawing from a deck and from its word concur: they come to the same card and leave the same
cards. -/
theorem concurs_draw [WordSource σ] (d : Deck) :
    Random.Concurs Eq (fun (drawn : Option Card × Deck) (lying : Option Card × Word) =>
        lying = (drawn.1, drawn.2.cards.word))
      (d.draw : Random σ (Option Card × Deck)) (Word.draw Random.below d.cards.word) := by
  intro g
  by_cases empty : d.size = 0
  · rw [Word.draw_of_empty ((size_word d).trans empty), draw, empty]
    exact ⟨rfl, rfl⟩
  · obtain ⟨place, g', chosen, inside⟩ :=
      Random.chooses_below d.size g (Nat.pos_of_ne_zero empty) d.cards.size_le
    rw [d.draw_eq ⟨place, inside⟩ chosen, d.draw_word ⟨place, inside⟩ chosen]
    exact ⟨rfl, rfl⟩

/-- The deck deals as its word does. -/
theorem concurs_dealTo [WordSource σ] (hand : Hand) (n : Nat) (d : Deck) :
    Random.Concurs Eq (fun (dealt : Option Hand × Deck) (lying : Option Word × Word) =>
        lying = (dealt.1.map Hand.word, dealt.2.cards.word))
      (dealTo hand n d : Random σ (Option Hand × Deck))
      (Word.dealTo Random.below hand.word n d.cards.word) := by
  induction n generalizing hand d with
  | zero => exact Random.concurs_pure rfl
  | succ n ih =>
    rw [dealTo, Word.dealTo]
    refine (concurs_draw d).bind ?_
    rintro ⟨card, rest⟩ _ rfl
    cases card with
    | none => exact Random.concurs_pure rfl
    | some c =>
      have joined : Outcome.Concurs Eq (fun (k : Hand) (w : Word) => w = k.word)
          (hand.join (Hand.single c)) (hand.word.add (Word.ofCard c)) := by
        rw [← Hand.word_single, Hand.add_word]
        cases hand.join (Hand.single c) <;> rfl
      refine (Random.concurs_lift joined).bind ?_
      rintro k _ rfl
      exact ih k rest

/-- Dealing from a deck ends, as dealing from its word does. -/
theorem exists_deal [WordSource σ] (d : Deck) (n : Nat) (g : σ) :
    ∃ hand rest g', d.deal n g = .ok ((hand, rest), g') ∧
      Word.deal Random.below n d.cards.word g =
        .ok ((Option.map Hand.word hand, rest.cards.word), g') ∧ d.Deals n hand rest := by
  obtain ⟨hand, rest, g', lying, spec⟩ := exists_deal_word Random.chooses_below d n g
  have concurs := concurs_dealTo Hand.empty n d g
  rw [Hand.word_empty] at concurs
  rw [Word.deal] at lying ⊢
  rw [lying] at concurs
  cases dealt : dealTo Hand.empty n d g with
  | error e =>
    rw [dealt] at concurs
    exact concurs.elim
  | ok a =>
    rw [dealt] at concurs
    obtain ⟨⟨hand', rest'⟩, words⟩ := a
    obtain ⟨same, rfl⟩ : (Option.map Hand.word hand, rest.cards.word) =
      (Option.map Hand.word hand', rest'.cards.word) ∧ words = g' := concurs
    obtain ⟨hands, decks⟩ := Prod.mk.inj same
    obtain rfl : hand = hand' := Option.map_injective (fun _ _ => Hand.word_injective) hands
    obtain rfl : rest = rest' := congrArg Deck.mk (Hand.word_injective decks)
    exact ⟨hand, rest, words, dealt, lying, spec⟩

/-! ## Dealing without replacement -/

/-- Drawing at a place gives a card and leaves the deck without it. -/
structure DrawsAt (d : Deck) (place : Nat) (c : Card) : Prop where
  taken : d.take? place = some (c, ⟨d.cards.erase c⟩)
  /-- Each low bit that is dropped is there, and so is the one of the card. -/
  nonzero : ∀ i ≤ place, Word.dropLowest^[i] d.cards.word ≠ 0#64
  drawn : ∀ {σ : Type} [WordSource σ] (g g' : σ), Random.below d.size g = .ok (place, g') →
    d.draw g = .ok ((some c, ⟨d.cards.erase c⟩), g')
  chosen : ∀ {σ : Type} (choose : Nat → Random σ Nat) (g g' : σ),
    choose d.size g = .ok (place, g') →
      Word.draw choose d.cards.word g = .ok ((some c, (d.cards.erase c).word), g')

/-- Taking the card at a place leaves all other cards of the deck. -/
theorem drawsAt_cardAt (d : Deck) (place : Fin d.size) :
    d.DrawsAt place.val (d.cards.cardAt place).val where
  taken := d.take?_cardAt place
  nonzero := fun _ least => d.cards.dropLowest_ne_zero (Nat.lt_of_le_of_lt least place.isLt)
  drawn := fun _ _ => d.draw_eq place
  chosen := fun _ _ _ => d.draw_word place

/-- Whatever chooses the places, as long as they are there: each place of a deck has a card of its
own and each card a place, and drawing there takes just this card. Dealing any number of cards ends,
in a hand exactly if there are enough cards; the hand is then split off the deck, and otherwise the
deck is empty. The deck deals so as well, as its word does. -/
theorem deals_without_replacement {σ : Type} {choose : Nat → Random σ Nat}
    (chooses : Random.Chooses choose) (d : Deck) :
    (∃ card : Fin d.size ≃ {c : Card // c ∈ d.cards},
      ∀ place, d.DrawsAt place.val (card place).val) ∧
    (∀ n g, ∃ hand rest g', Word.deal choose n d.cards.word g =
      .ok ((Option.map Hand.word hand, rest.cards.word), g') ∧ d.Deals n hand rest) ∧
    ∀ {τ : Type} [WordSource τ] (n : Nat) (g : τ), ∃ hand rest g',
      d.deal n g = .ok ((hand, rest), g') ∧
      Word.deal Random.below n d.cards.word g =
        .ok ((Option.map Hand.word hand, rest.cards.word), g') ∧ d.Deals n hand rest :=
  ⟨⟨d.cards.cardAt, d.drawsAt_cardAt⟩, exists_deal_word chooses d, exists_deal d⟩

/-- Of a deck of two aces, two cards are both aces and three cannot be dealt; either way no card is
left. -/
theorem deals_without_replacement_aces : ∃ d : Deck,
    d.cards = Hand.ofCards [⟨.ace, .hearts⟩, ⟨.ace, .spades⟩] ∧
    Random.Chooses (Random.below : Nat → Random Xoshiro Nat) ∧
    (∃ rest g', Word.deal Random.below 2 d.cards.word (Xoshiro.ofSeed 1552882488) =
      .ok ((some d.cards.word, rest), g') ∧ rest = 0#64) ∧
    ∃ rest g', Word.deal Random.below 3 d.cards.word (Xoshiro.ofSeed 1552882488) =
      .ok ((none, rest), g') ∧ rest = 0#64 := by
  obtain ⟨d, aces⟩ : ∃ d : Deck, d.cards = Hand.ofCards [⟨.ace, .hearts⟩, ⟨.ace, .spades⟩] :=
    ⟨⟨_⟩, rfl⟩
  have size : d.size = 2 := by
    rw [Deck.size, aces]
    decide
  obtain ⟨-, deals, -⟩ := deals_without_replacement (Random.chooses_below (σ := Xoshiro)) d
  refine ⟨d, aces, Random.chooses_below, ?_, ?_⟩
  · obtain ⟨hand, rest, g', dealt, spec⟩ := deals 2 (Xoshiro.ofSeed 1552882488)
    obtain ⟨h, rfl⟩ := Option.isSome_iff_exists.1 (spec.enough.2 (Nat.le_of_eq size.symm))
    obtain ⟨count, split⟩ := spec.dealt h rfl
    have all : h = d.cards := Hand.eq_of_subset_of_size_le (fun _ => split.mem) (by
      rw [count]
      exact Nat.le_of_eq size)
    have left := split.size
    refine ⟨rest.cards.word, g', by rw [dealt, Option.map_some, all], ?_⟩
    rw [Hand.eq_empty_of_size (h := rest.cards) ?_, Hand.word_empty]
    change rest.size = 0
    omega
  · obtain ⟨hand, rest, g', dealt, spec⟩ := deals 3 (Xoshiro.ofSeed 1552882488)
    cases hand with
    | some h =>
      have enough := spec.enough.1 rfl
      omega
    | none => exact ⟨rest.cards.word, g', dealt, by rw [spec.exhausted rfl, Hand.word_empty]⟩

end Deck

end Holdem
