import Holdem.Proofs.Hand.BestFive
import Mathlib

/-!
# Hands of more cards

A hand of any number of cards is ranked. From ten cards on, two suits can have five cards each, and
the search for a category looks into the first of them alone: what a hand chooses is the greatest
of what it makes without the others (`Hand.category?_chosen`). So more cards may hurt, and they do
exactly where a suit with five cards is worth more than the whole hand (`Hand.more_cards_iff`). A
royal flush in spades with five low clubs is such a hand (`Hand.royal_flush_lost`).
-/

set_option autoImplicit false

namespace Holdem

namespace Hand

variable {f g h : Hand} {c : Category}

/-- What a hand can choose from: what it makes, and in a suit only what the first suit with five
cards makes. -/
def Chooses (h : Hand) : Category → Prop
  | .flush r => ∃ s, h.flushSuit? = some s ∧ ⟨r, s⟩ ∈ h
  | .straightFlush r =>
    ∃ s, h.flushSuit? = some s ∧ 3 ≤ r.index ∧ ∀ q ∈ straightTo r, ⟨q, s⟩ ∈ h
  | c => h.Makes c

/-- Outside the flushes a hand can choose whatever it makes. -/
theorem chooses_unsuited (unsuited : c.suited = false) : h.Makes c ↔ h.Chooses c := by
  cases c <;> first | rfl | simp [Category.suited] at unsuited

/-- A choice in the suit of the flush is the greatest of that suit. -/
theorem flushSuit?_bind_peak {pick : Suit → Option Rank} {P : Suit → Rank → Prop}
    (peak : ∀ s, Peak Rank.index (P s) (pick s)) :
    Peak Rank.index (fun r => ∃ s, h.flushSuit? = some s ∧ P s r) (h.flushSuit?.bind pick) := by
  cases h.flushSuit? with
  | none => simp [Peak]
  | some t => exact (peak t).congr (fun r => by simp)

/-- The category of any hand is the greatest it can choose. -/
theorem category?_chosen (h : Hand) : Peak Category.place h.Chooses h.category? := by
  have straightFlush := flushSuit?_bind_peak (h := h) (fun s => (h.suitRanks s).straightTop?_peak)
  have flush := flushSuit?_bind_peak (h := h) (fun s => (h.suitRanks s).highest?_peak)
  simp only [contains_suitRanks] at straightFlush flush
  exact cascade_peak straightFlush flush (fun c unsuited => chooses_unsuited unsuited)

/-- A hand picks what it can choose. -/
theorem chooses_of_category? (chosen : h.category? = some c) : h.Chooses c := by
  have peak := h.category?_chosen
  rw [chosen] at peak
  exact peak.1

/-- A hand picks the highest category it can choose. -/
theorem place_le_of_chooses {d : Category} (chosen : h.category? = some c) (other : h.Chooses d) :
    d.place ≤ c.place := by
  have peak := h.category?_chosen
  rw [chosen] at peak
  exact peak.2 d other

/-- A hand that can choose some category picks one. -/
theorem exists_category?_of_chooses (other : h.Chooses c) : ∃ d, h.category? = some d := by
  have peak := h.category?_chosen
  cases chosen : h.category? with
  | none =>
    rw [chosen] at peak
    exact absurd other (peak c)
  | some d => exact ⟨d, rfl⟩

/-- A hand with a card is ranked, whatever the number of its cards. -/
theorem exists_strength?_of_pos (card : 0 < h.size) : ∃ s, h.strength? = some s := by
  obtain ⟨c, -, held⟩ := List.countP_pos_iff.1 card
  have high : h.Chooses (.highCard c.rank) := multiplicity_pos.2 ⟨c.suit, held⟩
  obtain ⟨d, chosen⟩ := exists_category?_of_chooses high
  exact ⟨_, Option.map_eq_some_iff.2 ⟨d, chosen, rfl⟩⟩

/-! ## One suit of a hand -/

/-- A suit of a hand has cards of that suit alone. -/
theorem inSuit_inSuit_size_pos {s t : Suit} (five : 5 ≤ ((h.inSuit s).inSuit t).size) : t = s := by
  obtain ⟨c, -, held⟩ := List.countP_pos_iff.1 (show 0 < ((h.inSuit s).inSuit t).size by omega)
  exact (suit_of_mem held).symm.trans (suit_of_mem (inSuit_subset _ t c held))

/-- Cards of one suit have at most one suit of five. -/
theorem oneFlush_inSuit (h : Hand) (s : Suit) : (h.inSuit s).OneFlush := by
  intro t u first second
  rw [inSuit_inSuit_size_pos first, inSuit_inSuit_size_pos second]

/-- Keeping a suit twice is keeping it once. -/
theorem inSuit_inSuit (h : Hand) (s : Suit) : (h.inSuit s).inSuit s = h.inSuit s :=
  inSuit_eq_self (fun _ => id)

/-- A card of a suit is in the part of that suit exactly when it is in the hand. -/
theorem mem_inSuit {s : Suit} {r : Rank} : ⟨r, s⟩ ∈ h.inSuit s ↔ ⟨r, s⟩ ∈ h := by
  rw [mem_def, contains_inSuit, mem_def]
  simp

/-- The part of a suit with five cards has that suit for its flush suit. -/
theorem flushSuit?_inSuit {s : Suit} (five : 5 ≤ (h.inSuit s).size) :
    (h.inSuit s).flushSuit? = some s :=
  flushSuit?_eq_some (oneFlush_inSuit h s) (by rwa [inSuit_inSuit])

/-- The suit with the flush makes in that suit what the hand chooses in it. -/
theorem chooses_inSuit {s : Suit} (flush : h.flushSuit? = some s) (suited : c.suited = true) :
    (h.inSuit s).Chooses c ↔ h.Chooses c := by
  have same := flushSuit?_inSuit (five_of_flushSuit? flush)
  cases c <;> simp [Category.suited] at suited <;> simp [Chooses, flush, same, mem_inSuit]

/-- Of one suit, a hand has no pairs: without a flush it has a high card or a straight. -/
theorem kind_lt_of_unsuited {s : Suit} (made : (h.inSuit s).Makes c) (unsuited : c.suited = false) :
    c.kind < 5 := by
  have once := multiplicity_inSuit_le h s
  cases c with
  | flush r | straightFlush r => simp [Category.suited] at unsuited
  | fullHouse r q =>
    have three := made.2.1
    have one := once r
    omega
  | quads r =>
    have four : 4 ≤ (h.inSuit s).multiplicity r := made
    have one := once r
    omega
  | _ => simp [Category.kind]

/-- A category in one suit has the strength of that suit's cards. -/
theorem strength?_inSuit {s : Suit} (flush : h.flushSuit? = some s) (chosen : h.category? = some c)
    (suited : c.suited = true) : (h.inSuit s).strength? = h.strength? := by
  have mine := (chooses_inSuit flush suited).2 (chooses_of_category? chosen)
  obtain ⟨d, chosen'⟩ := exists_category?_of_chooses mine
  have le := place_le_of_chooses chosen' mine
  have high : 5 ≤ c.kind := by cases c <;> simp [Category.suited, Category.kind] at suited ⊢
  have suited' : d.suited = true := by
    by_contra unsuited
    rw [Bool.not_eq_true] at unsuited
    have made := (chooses_unsuited unsuited).2 (chooses_of_category? chosen')
    have low := Category.place_lt_of_kind ((kind_lt_of_unsuited made unsuited).trans_le high)
    omega
  have ge := place_le_of_chooses chosen
    ((chooses_inSuit flush suited').1 (chooses_of_category? chosen'))
  obtain rfl := Category.eq_of_place_eq (Nat.le_antisymm le ge)
  have kickers : (h.inSuit s).kickers c = h.kickers c := by
    cases c <;> simp [Category.suited] at suited
    · rw [Hand.kickers, Hand.kickers, kickerPool, kickerPool, flush,
        flushSuit?_inSuit (five_of_flushSuit? flush), Option.map_some, Option.map_some,
        ← rankSet_inSuit (h.inSuit s), inSuit_inSuit, rankSet_inSuit]
    · rfl
  rw [strength?, strength?, chosen, chosen', Option.map_some, Option.map_some, kickers]

/-! ## When more cards hurt -/

/-- Both hands are ranked, and the first no higher than the second. -/
def AtMost (g h : Hand) : Prop :=
  ∃ r s, g.strength? = some r ∧ h.strength? = some s ∧ (r.compare s).isLE = true

/-- Being ranked no higher is transitive. -/
theorem AtMost.trans (low : f.AtMost g) (high : g.AtMost h) : f.AtMost h := by
  obtain ⟨r, s, known, middle, le⟩ := low
  obtain ⟨s', t, middle', known', le'⟩ := high
  obtain rfl := Option.some.inj (middle.symm.trans middle')
  exact ⟨r, t, known, known',
    Nat.isLE_compare.2 ((Nat.isLE_compare.1 le).trans (Nat.isLE_compare.1 le'))⟩

/-- Two hands of the same strength are ranked no higher than each other. -/
theorem AtMost.of_strength?_eq (card : 0 < h.size) (same : g.strength? = h.strength?) :
    g.AtMost h := by
  obtain ⟨s, known⟩ := exists_strength?_of_pos card
  exact ⟨s, s, same.trans known, known, Nat.isLE_compare.2 le_rfl⟩

/-- Where one suit at most has five cards, more cards never hurt. -/
theorem OneFlush.atMost (one : h.OneFlush) (sub : g ⊆ h) (card : 0 < g.size) : g.AtMost h := by
  obtain ⟨r, known⟩ := exists_strength?_of_pos card
  obtain ⟨s, known', le⟩ := strength?_mono one sub known
  exact ⟨r, s, known, known', Nat.isLE_compare.2 le⟩

/-- A category not of one suit is never lost: more cards give at least its place and kickers. -/
theorem atMost_of_unsuited (sub : g ⊆ h) (chosen : g.category? = some c)
    (unsuited : c.suited = false) : g.AtMost h := by
  have made := ((chooses_unsuited unsuited).2 (chooses_of_category? chosen)).mono sub
  have other := (chooses_unsuited unsuited).1 made
  obtain ⟨d, chosen'⟩ := exists_category?_of_chooses other
  refine ⟨⟨c, g.kickers c⟩, ⟨d, h.kickers d⟩, strength?_eq_some.2 ⟨chosen, rfl⟩,
    strength?_eq_some.2 ⟨chosen', rfl⟩, Nat.isLE_compare.2 ?_⟩
  have bound := (g.kickers c).value_lt
  have place := place_le_of_chooses chosen' other
  rw [Strength.value_eq, Strength.value_eq]
  rcases Nat.lt_or_eq_of_le place with less | same
  · simp only
    omega
  · obtain rfl := Category.eq_of_place_eq same
    have pool : ∀ k : Hand, k.kickers c = (k.spare c).keepTop c.kickers := by
      intro k
      rw [spare, counting_unsuited unsuited]
      cases c <;> first | rfl | simp [Category.suited] at unsuited
    have kickers : (g.kickers c).value ≤ (h.kickers c).value := by
      rw [pool g, pool h]
      refine RankSet.value_keepTop_mono _ (fun _ => spare_mono ?_)
      rwa [counting_unsuited unsuited, counting_unsuited unsuited]
    simp only
    omega

/-- A hand with a card is ranked. It is worth at least what each part of it is worth if and only
if it is worth at least what each suit of it is worth that has five cards. -/
theorem more_cards_iff (h : Hand) (card : 0 < h.size) :
    (∃ s, h.strength? = some s) ∧
      ((∀ g, g ⊆ h → 0 < g.size → g.AtMost h) ↔
        ∀ s, 5 ≤ (h.inSuit s).size → (h.inSuit s).AtMost h) := by
  refine ⟨exists_strength?_of_pos card, ?_, ?_⟩
  · intro never s five
    exact never _ (inSuit_subset h s) (by omega)
  · intro suits g sub card'
    obtain ⟨r, known⟩ := exists_strength?_of_pos card'
    have chosen := (strength?_eq_some.1 known).1
    cases suited : r.category.suited with
    | false => exact atMost_of_unsuited sub chosen suited
    | true =>
      -- the part is worth what its flush is worth, and the hand has all of that suit
      obtain ⟨s, flush⟩ : ∃ s, g.flushSuit? = some s := by
        have choice := chooses_of_category? chosen
        cases made : r.category <;> rw [made] at choice suited <;>
          simp [Category.suited] at suited <;> exact ⟨_, choice.choose_spec.1⟩
      have five := five_of_flushSuit? flush
      have more := inSuit_mono sub s
      have own : g.AtMost (g.inSuit s) :=
        .of_strength?_eq (by omega) (strength?_inSuit flush chosen suited).symm
      have grown : (g.inSuit s).AtMost (h.inSuit s) :=
        (oneFlush_inSuit h s).atMost more (by omega)
      exact (own.trans grown).trans (suits s (five.trans (size_mono more)))

/-- The royal flush of a suit. -/
def royalFlush (s : Suit) : Hand :=
  ofCards [⟨.ace, s⟩, ⟨.king, s⟩, ⟨.queen, s⟩, ⟨.jack, s⟩, ⟨.ten, s⟩]

/-- Five cards of a suit that make a flush, the ten the highest. -/
def lowFlush (s : Suit) : Hand :=
  ofCards [⟨.two, s⟩, ⟨.four, s⟩, ⟨.six, s⟩, ⟨.eight, s⟩, ⟨.ten, s⟩]

/-- Clubs come before spades, so a royal flush in clubs is seen besides five spades. -/
theorem more_cards_iff_royalFlush :
    let h := (royalFlush .clubs).union (lowFlush .spades)
    0 < h.size ∧ ∀ g, g ⊆ h → 0 < g.size → g.AtMost h := by
  intro h
  have card : 0 < h.size := by decide
  have worth : h.strength? = some ⟨.straightFlush .ace, .empty⟩ := by decide
  have clubs : (h.inSuit .clubs).strength? = some ⟨.straightFlush .ace, .empty⟩ := by decide
  have spades : (h.inSuit .spades).strength? =
      some ⟨.flush .ten, .ofRanks [.two, .four, .six, .eight]⟩ := by decide
  refine ⟨card, (more_cards_iff h card).2.2 ?_⟩
  intro s five
  cases s with
  | clubs => exact ⟨_, _, clubs, worth, by decide⟩
  | spades => exact ⟨_, _, spades, worth, by decide⟩
  | diamonds | hearts => exact absurd five (by decide)

/-- Besides five clubs, a royal flush in spades is not seen: the hand is worth a flush. -/
theorem royal_flush_lost :
    ∃ r s, (royalFlush .spades).strength? = some r ∧
      ((royalFlush .spades).union (lowFlush .clubs)).strength? = some s ∧
      royalFlush .spades ⊆ (royalFlush .spades).union (lowFlush .clubs) ∧ s.compare r = .lt := by
  refine ⟨⟨.straightFlush .ace, .empty⟩, ⟨.flush .ten, .ofRanks [.two, .four, .six, .eight]⟩,
    by decide, by decide, ?_, by decide⟩
  intro c held
  rw [mem_def, contains_union]
  exact Bool.or_eq_true_iff.2 (.inl held)

end Hand

end Holdem
