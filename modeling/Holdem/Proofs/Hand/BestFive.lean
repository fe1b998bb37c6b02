import Holdem.Proofs.Hand.Spelling
import Mathlib

/-!
# The best five cards

A hand is worth what the best five of its cards are worth. More cards never make a hand weaker: it
makes every category its part makes, and the highest kickers among more ranks are no lower. And
five cards that spell the strength of a hand have that very strength, since the hand they are part
of bounds it from above. This needs that only one suit can have five cards, as in a hand of nine.
-/

set_option autoImplicit false

namespace Holdem

/-- A hand of five cards. -/
structure FiveCards where
  cards : Hand
  five : cards.size = 5

namespace Hand

variable {g h : Hand} {c : Category}

/-- A strength is a hand's exactly when the hand picks its category and its kickers are those the
hand keeps for that category. -/
theorem strength?_eq_some {s : Strength} :
    h.strength? = some s ↔ h.category? = some s.category ∧ h.kickers s.category = s.kickers := by
  obtain ⟨c, k⟩ := s
  rw [strength?, Option.map_eq_some_iff]
  constructor
  · rintro ⟨d, chosen, same⟩
    obtain ⟨rfl, rfl⟩ := Strength.mk.inj same
    exact ⟨chosen, rfl⟩
  · rintro ⟨chosen, kept⟩
    exact ⟨c, chosen, congrArg (Strength.mk c) kept⟩

/-- A hand that makes some category has a strength. -/
theorem exists_strength? (one : h.OneFlush) (made : h.Makes c) : ∃ s, h.strength? = some s := by
  obtain ⟨d, chosen⟩ := exists_category? one made
  exact ⟨_, Option.map_eq_some_iff.2 ⟨d, chosen, rfl⟩⟩

/-- A hand with a card in it has a strength. -/
theorem exists_strength?_of_size (one : h.OneFlush) (card : 0 < h.size) :
    ∃ s, h.strength? = some s := by
  obtain ⟨c, -, held⟩ := List.countP_pos_iff.1 card
  exact exists_strength? one (c := .highCard c.rank) (multiplicity_pos.2 ⟨c.suit, held⟩)

/-! ## More cards are never weaker -/

/-- The cards that count for a category only grow with the hand. -/
theorem counting_mono (one : h.OneFlush) (sub : g ⊆ h) (made : g.Makes c) :
    g.counting c ⊆ h.counting c := by
  cases suited : c.suited with
  | false =>
    rwa [counting_unsuited suited, counting_unsuited suited]
  | true =>
    obtain ⟨s, flush⟩ := flushSuit?_of_makes (one.mono sub) made suited
    have five := (five_of_flushSuit? flush).trans (size_mono (inSuit_mono sub s))
    rw [counting_suited suited flush, counting_suited suited (flushSuit?_eq_some one five)]
    exact inSuit_mono sub s

/-- A rank that may serve as a kicker still may when more cards count. -/
theorem spare_mono (sub : g.counting c ⊆ h.counting c) {r : Rank}
    (spare : (g.spare c).contains r = true) : (h.spare c).contains r = true := by
  obtain ⟨held, other⟩ := contains_spare.1 spare
  exact contains_spare.2 ⟨held.trans_le (multiplicity_mono sub r), other⟩

/-- A hand is worth at least what a part of it is worth. -/
theorem strength?_mono (one : h.OneFlush) (sub : g ⊆ h) {r : Strength}
    (known : g.strength? = some r) : ∃ s, h.strength? = some s ∧ r.value ≤ s.value := by
  obtain ⟨chosen, kept⟩ := strength?_eq_some.1 known
  have made := makes_of_category? (one.mono sub) chosen
  obtain ⟨s, known'⟩ := exists_strength? one (made.mono sub)
  obtain ⟨chosen', kept'⟩ := strength?_eq_some.1 known'
  refine ⟨s, known', ?_⟩
  have place := place_le_of_makes one chosen' (made.mono sub)
  have bound := r.kickers.value_lt
  rw [Strength.value_eq, Strength.value_eq]
  rcases Nat.lt_or_eq_of_le place with less | same
  · omega
  · -- in one category the kickers decide
    have category := Category.eq_of_place_eq same
    have kickers : r.kickers.value ≤ s.kickers.value := by
      rw [← kept, ← kept', ← category, kickers_eq (one.mono sub) made,
        kickers_eq one (made.mono sub)]
      exact RankSet.value_keepTop_mono _ (fun _ => spare_mono (counting_mono one sub made))
    omega

/-! ## Five cards are enough -/

/-- Five of the cards that count for a category all count for it. -/
theorem counting_eq_self (one : h.OneFlush) (made : h.Makes c) (sub : g ⊆ h.counting c)
    (five : 5 ≤ g.size) : g.counting c = g := by
  cases suited : c.suited with
  | false => exact counting_unsuited suited
  | true =>
    obtain ⟨s, flush⟩ := flushSuit?_of_makes one made suited
    rw [counting_suited suited flush] at sub
    have self := inSuit_eq_self sub
    have part : g ⊆ h := fun d held => inSuit_subset h s d (sub d held)
    rw [counting_suited suited (flushSuit?_eq_some (one.mono part) (self.symm ▸ five)), self]

/-- Five of the cards that count for a category make it when they have its ranks. -/
theorem makes_of_spelled (one : h.OneFlush) (made : h.Makes c) (sub : g ⊆ h.counting c)
    (five : 5 ≤ g.size) (spelled : ∀ r, c.spelling.count r ≤ g.multiplicity r) : g.Makes c := by
  have straight : ∀ {r : Rank}, (∀ q, (RankSet.ofRanks (straightTo r)).descending.count q ≤
      g.multiplicity q) → ∀ q ∈ straightTo r, 1 ≤ g.multiplicity q := by
    intro r spelled q mem
    exact (List.count_pos_iff.2 (Category.mem_descending_straightTo.2 mem)).trans_le (spelled q)
  cases c with
  | highCard r | onePair r | trips r | quads r =>
    have held := spelled r
    simp only [Category.spelling, List.count_cons_self, List.count_nil] at held
    exact held
  | twoPair r q | fullHouse r q =>
    have first := spelled r
    have second := spelled q
    simp [Category.spelling, made.1, made.1.symm] at first second
    exact ⟨made.1, first, second⟩
  | straight r => exact ⟨made.1, straight spelled⟩
  | flush r =>
    obtain ⟨s, flush⟩ := flushSuit?_of_makes one made rfl
    rw [counting_suited rfl flush] at sub
    have self := inSuit_eq_self sub
    have top := spelled r
    simp only [Category.spelling, List.count_singleton_self] at top
    exact ⟨s, self.symm ▸ five, multiplicity_inSuit_pos.1 (self.symm ▸ top)⟩
  | straightFlush r =>
    obtain ⟨s, flush⟩ := flushSuit?_of_makes one made rfl
    rw [counting_suited rfl flush] at sub
    have self := inSuit_eq_self sub
    exact ⟨made.1, s, fun q mem =>
      multiplicity_inSuit_pos.1 (self.symm ▸ straight spelled q mem)⟩

/-- Five of the cards that count have the strength they spell. -/
theorem strength?_of_spelled (one : h.OneFlush) {s : Strength} (known : h.strength? = some s)
    (sub : g ⊆ h.counting s.category) (five : 5 ≤ g.size) (spelled : g.ranks.Perm s.spelling) :
    g.strength? = some s := by
  obtain ⟨chosen, kept⟩ := strength?_eq_some.1 known
  have made := makes_of_category? one chosen
  have part : g ⊆ h := fun d held => counting_subset h _ d (sub d held)
  have counts : ∀ r, g.multiplicity r =
      s.category.spelling.count r + s.kickers.descending.count r := by
    intro r
    rw [← count_ranks, spelled.count_eq, Strength.spelling, List.count_append]
  have made' : g.Makes s.category := makes_of_spelled one made sub five
    (fun r => counts r ▸ Nat.le_add_right _ _)
  -- the hand bounds the category of its part, and the part makes that of the hand
  obtain ⟨d, chosen'⟩ := exists_category? (one.mono part) made'
  have above := place_le_of_makes (one.mono part) chosen' made'
  have below := place_le_of_makes one chosen
    ((makes_of_category? (one.mono part) chosen').mono part)
  obtain rfl := Category.eq_of_place_eq (Nat.le_antisymm below above)
  have self := counting_eq_self one made sub five
  refine strength?_eq_some.2 ⟨chosen', ?_⟩
  rw [← kept, kickers_eq (one.mono part) made', kickers_eq one made]
  refine RankSet.keepTop_of_between (fun _ => spare_mono (self.symm ▸ sub)) ?_
  intro r kicker
  have other := (contains_spare.1 (RankSet.contains_of_keepTop kicker)).2
  rw [← kickers_eq one made, kept] at kicker
  have listed := List.count_pos_iff.2 (RankSet.mem_descending.2 kicker)
  refine contains_spare.2 ⟨?_, other⟩
  rw [self, counts]
  omega

/-- A hand of five to nine cards is worth what the best five of its cards are worth. -/
theorem strength?_best_five (h : Hand) (atLeast : 5 ≤ h.size) (atMost : h.size ≤ 9) :
    ∃ s, h.strength? = some s ∧
      (∃ g : FiveCards, g.cards ⊆ h ∧ g.cards.strength? = some s) ∧
      ∀ g : FiveCards, g.cards ⊆ h →
        ∃ r, g.cards.strength? = some r ∧ (r.compare s).isLE = true := by
  have one := oneFlush_of_size atMost
  obtain ⟨s, known⟩ := exists_strength?_of_size one (by omega)
  refine ⟨s, known, ?_, ?_⟩
  · obtain ⟨g, sub, spelled⟩ := exists_spelled one known
    have five : g.size = 5 := by
      rw [← length_ranks, spelled.length_eq, length_spelling_of_strength? one atLeast known]
    exact ⟨⟨g, five⟩, fun d held => counting_subset h _ d (sub d held),
      strength?_of_spelled one known sub five.ge spelled⟩
  · intro g sub
    obtain ⟨r, known'⟩ := exists_strength?_of_size (one.mono sub) (by rw [g.five]; decide)
    obtain ⟨s', same, le⟩ := strength?_mono one sub known'
    obtain rfl := Option.some.inj (known.symm.trans same)
    exact ⟨r, known', Nat.isLE_compare.2 le⟩

/-- Seven cards with three pairs. -/
def threePairs : Hand := ofCards [⟨.ace, .clubs⟩, ⟨.ace, .hearts⟩, ⟨.king, .clubs⟩,
  ⟨.king, .spades⟩, ⟨.queen, .diamonds⟩, ⟨.queen, .hearts⟩, ⟨.two, .spades⟩]

/-- The third pair gives the kicker. -/
theorem strength?_best_five_threePairs : 5 ≤ threePairs.size ∧ threePairs.size ≤ 9 ∧
    ∃ g : FiveCards, g.cards ⊆ threePairs ∧
      g.cards.strength? = some ⟨.twoPair .ace .king, .single .queen⟩ := by
  have atLeast : 5 ≤ threePairs.size := by decide
  have atMost : threePairs.size ≤ 9 := by decide
  have worth : threePairs.strength? = some ⟨.twoPair .ace .king, .single .queen⟩ := by decide
  obtain ⟨s, known, ⟨g, sub, same⟩, -⟩ := strength?_best_five threePairs atLeast atMost
  exact ⟨atLeast, atMost, g, sub, same.trans (known.symm.trans worth)⟩

end Hand

end Holdem
