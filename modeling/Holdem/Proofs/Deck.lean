import Holdem.Deck
import Holdem.Proofs.Overlap

/-!
# Dealing splits the deck

A card that is drawn leaves the deck. So the hand that is dealt and what is left of the deck split
the deck between them, and the hand that is being dealt never gets a card it has: dealing does not
fail. Whether there are enough cards depends on the size of the deck alone, not on which are drawn.
-/

set_option autoImplicit false

namespace Holdem

namespace Deck

variable {σ : Type} [WordSource σ] {F : Failure → Prop} {d rest rest' : Deck} {h k : Hand}

/-- A hand and the rest of a deck share no card, and together they are the deck. -/
structure Splits (d : Deck) (h : Hand) (rest : Deck) : Prop where
  cards : d.cards = h.union rest.cards
  apart : h.Apart rest.cards

/-- A card of the split hand was in the deck. -/
theorem Splits.mem (split : d.Splits h rest) {c : Card} (held : c ∈ h) : c ∈ d.cards :=
  split.cards ▸ Hand.mem_union.2 (.inl held)

/-- A card that is left was in the deck. -/
theorem Splits.mem_rest (split : d.Splits h rest) {c : Card} (left : c ∈ rest.cards) :
    c ∈ d.cards :=
  split.cards ▸ Hand.mem_union.2 (.inr left)

/-- A split shares out the size of the deck. -/
theorem Splits.size (split : d.Splits h rest) : d.size = h.size + rest.size := by
  rw [Deck.size, split.cards, Hand.size_union split.apart, Deck.size]

/-- Nothing can be split off any deck. -/
theorem splits_nothing (d : Deck) : d.Splits Hand.empty d where
  cards := (Hand.empty_union d.cards).symm
  apart := fun c mem => absurd mem (Hand.not_mem_empty c)

/-- Two parts that are dealt one after the other are one part. -/
theorem Splits.union (first : d.Splits h rest) (second : rest.Splits k rest') :
    d.Splits (h.union k) rest' where
  cards := by rw [first.cards, second.cards, Hand.union_assoc]
  apart := Hand.apart_union.2
    ⟨fun c held left => first.apart c held (second.mem_rest left), second.apart⟩

/-- A hand that shares no card with a deck shares none with a part of it, and not either with the
rest when it gets that part. -/
theorem Splits.apart_parts (split : d.Splits h rest) (apart : k.Apart d.cards) :
    k.Apart h ∧ (k.union h).Apart rest.cards :=
  ⟨fun c held dealt => apart c held (split.mem dealt),
    Hand.apart_union.2 ⟨fun c held left => apart c held (split.mem_rest left), split.apart⟩⟩

/-- Known cards are neither dealt nor left when the deck holds the others. -/
theorem apart_of_splits_without {known own : Hand} (split : (without known).Splits h rest)
    (sub : ∀ c ∈ own, c ∈ known) : own.Apart h ∧ own.Apart rest.cards :=
  ⟨fun c held dealt => Hand.mem_complement.1 (split.mem dealt) (sub c held),
    fun c held left => Hand.mem_complement.1 (split.mem_rest left) (sub c held)⟩

/-- The deck without some cards has all others of the fifty-two. -/
theorem size_without (known : Hand) : (without known).size = 52 - known.size := by
  have all := known.size_complement
  show known.complement.size = 52 - known.size
  lia

/-! ## Drawing a card -/

/-- A card that is taken is split off the deck. -/
theorem take?_eq_some {place : Nat} {c : Card} (taken : d.take? place = some (c, rest)) :
    d.Splits (Hand.single c) rest := by
  obtain ⟨c', found, same⟩ := Option.map_eq_some_iff.1 taken
  obtain ⟨rfl, rfl⟩ := Prod.mk.inj same
  have mem : c' ∈ d.cards := Hand.mem_cards.1 (List.mem_of_getElem? found)
  constructor
  · apply Hand.ext
    intro b
    rw [Hand.contains_union, Hand.contains_single, Hand.contains_erase]
    by_cases same : c' = b
    · simpa [same] using same ▸ mem
    · simp [same]
  · intro b drawn left
    exact (Hand.mem_erase.1 left).2 (Hand.mem_single.1 drawn)

/-- There is a card to take at each place of the deck. -/
theorem exists_take? {place : Nat} (below : place < d.size) :
    ∃ c rest, d.take? place = some (c, rest) := by
  have inside : place < d.cards.cards.length := by rwa [Hand.length_cards]
  exact ⟨_, _, by rw [take?, List.getElem?_eq_getElem inside, Option.map_some]⟩

/-- What drawing a card comes to: it is split off the deck, unless no card is left. -/
def DrawnFrom (d : Deck) : Option Card × Deck → Prop
  | (some c, rest) => d.Splits (Hand.single c) rest
  | (none, rest) => d.size = 0 ∧ rest = d

/-- A card is drawn unless none is left. -/
theorem within_draw (d : Deck) :
    Random.Within F d.DrawnFrom (d.draw : Random σ (Option Card × Deck)) := by
  unfold draw
  split
  · exact Random.within_pure ⟨‹_›, rfl⟩
  · rename_i some
    have few : d.size ≤ 2 ^ 32 := d.cards.size_le.trans (by decide)
    refine (Random.within_below (Nat.pos_of_ne_zero some) few).bind (fun place below => ?_)
    obtain ⟨c, rest, taken⟩ := exists_take? below
    rw [taken]
    exact Random.within_pure (take?_eq_some taken)

/-! ## Dealing a hand -/

/-- What dealing `n` more cards to a hand comes to: they are split off the deck if there are enough
of them, and otherwise no card is left. -/
def DealtTo (hand : Hand) (n : Nat) (d : Deck) : Option Hand × Deck → Prop
  | (some h, rest) => ∃ new, h = hand.union new ∧ new.size = n ∧ d.Splits new rest
  | (none, rest) => d.size < n ∧ rest.size = 0

section

variable {hand : Hand} {n : Nat}

/-- Dealing no more cards leaves the hand and the deck. -/
theorem dealtTo_zero (hand : Hand) (d : Deck) : DealtTo hand 0 d (some hand, d) :=
  ⟨Hand.empty, hand.union_empty.symm, Hand.size_empty, d.splits_nothing⟩

/-- No hand is dealt from an empty deck. -/
theorem dealtTo_of_empty (empty : d.size = 0) : DealtTo hand (n + 1) d (none, d) :=
  ⟨by omega, empty⟩

/-- The card that is drawn first is dealt with those after it. -/
theorem DealtTo.succ {c : Card} {result : Option Hand × Deck}
    (split : d.Splits (Hand.single c) rest)
    (later : DealtTo (hand.union (Hand.single c)) n rest result) :
    DealtTo hand (n + 1) d result := by
  have size : d.size = 1 + rest.size := Hand.size_single c ▸ split.size
  match result, later with
  | (none, _), ⟨short, empty⟩ => exact ⟨by omega, empty⟩
  | (some _, _), ⟨new, joined, count, split'⟩ =>
    refine ⟨(Hand.single c).union new, joined.trans (Hand.union_assoc _ _ _), ?_,
      split.union split'⟩
    have fresh : (Hand.single c).Apart new := fun b same held =>
      split.apart b same (split'.mem held)
    rw [Hand.size_union fresh, Hand.size_single, count, Nat.add_comm]

/-- Cards are dealt to a hand that shares none with the deck as far as there are enough. -/
theorem within_dealTo (n : Nat) (apart : hand.Apart d.cards) :
    Random.Within F (DealtTo hand n d) (dealTo hand n d : Random σ (Option Hand × Deck)) := by
  -- the hand shares no card with what is left, so the next card can be joined to it
  induction n generalizing hand d with
  | zero => exact Random.within_pure (dealtTo_zero hand d)
  | succ n ih =>
    rw [dealTo]
    refine (within_draw d).bind ?_
    rintro ⟨card, rest⟩ spec
    cases card with
    | none =>
      obtain ⟨empty, rfl⟩ : d.size = 0 ∧ rest = d := spec
      exact Random.within_pure (dealtTo_of_empty empty)
    | some c =>
      have split : d.Splits (Hand.single c) rest := spec
      obtain ⟨single, remaining⟩ := split.apart_parts apart
      refine (Random.within_lift (Outcome.within_join single)).bind ?_
      rintro joined rfl
      exact (ih remaining).mono (fun _ => id) (fun _ later => later.succ split)

end

/-- A hand of some cards is split off the deck, if there are enough of them. -/
theorem within_deal (n : Nat) (d : Deck) : Random.Within F (fun dealt : Option Hand × Deck =>
    match dealt.1 with
    | some h => h.size = n ∧ d.Splits h dealt.2
    | none => d.size < n) (deal n d : Random σ (Option Hand × Deck)) := by
  have none : Hand.empty.Apart d.cards := fun c mem => absurd mem (Hand.not_mem_empty c)
  refine (within_dealTo n none).mono (fun _ => id) ?_
  rintro ⟨_ | h, rest⟩ spec
  · exact spec.1
  · obtain ⟨new, rfl, count, split⟩ := spec
    show (Hand.empty.union new).size = n ∧ d.Splits (Hand.empty.union new) rest
    rw [Hand.empty_union]
    exact ⟨count, split⟩

end Deck

end Holdem
