import Holdem.RankSet

/-!
# Hands of cards

A hand is a set of cards of any size, held as one bit for each of the fifty-two cards. The view of
a hand is membership: `contains` says which cards are in it, and each operation below is described
by the membership of its result. Listing a hand goes through the deck in order, so a hand's cards
come lowest first and none comes twice.
-/

set_option autoImplicit false

namespace Holdem

/-- A set of cards. -/
structure Hand where
  bits : BitVec 52
  deriving DecidableEq, Repr

namespace Hand

/-- The hand without cards. -/
def empty : Hand := ⟨0⟩

/-- The whole deck. -/
def full : Hand := ⟨BitVec.allOnes 52⟩

/-- The hand named by the low fifty-two bits of a number. -/
def ofNat (n : Nat) : Hand := ⟨BitVec.ofNat 52 n⟩

/-- The number that names a hand. -/
def toNat (h : Hand) : Nat := h.bits.toNat

/-- The hand of one card. -/
def single (c : Card) : Hand := ⟨BitVec.twoPow 52 c.code⟩

/-- The cards of either hand. -/
def union (h k : Hand) : Hand := ⟨h.bits ||| k.bits⟩

/-- The cards of both hands. -/
def inter (h k : Hand) : Hand := ⟨h.bits &&& k.bits⟩

/-- The cards of the deck outside a hand. -/
def complement (h : Hand) : Hand := ⟨~~~ h.bits⟩

/-- Whether a card is in the hand. -/
def contains (h : Hand) (c : Card) : Bool := h.bits.getLsbD c.code

instance : Membership Card Hand where
  mem h c := h.contains c = true

instance (c : Card) (h : Hand) : Decidable (c ∈ h) :=
  inferInstanceAs (Decidable (h.contains c = true))

/-- The hand without one card. -/
def erase (h : Hand) (c : Card) : Hand := h.inter (single c).complement

/-- The hand of the cards of a list. -/
def ofCards (cs : List Card) : Hand := cs.foldl (fun h c => h.union (single c)) empty

/-- The cards of a hand, lowest first. -/
def cards (h : Hand) : List Card := Card.all.filter h.contains

/-- The number of cards. -/
def size (h : Hand) : Nat := Card.all.countP h.contains

/-- Whether there is no card. -/
def isEmpty (h : Hand) : Bool := h.bits == 0

/-- Whether two hands share a card. -/
def overlaps (h k : Hand) : Bool := !(h.inter k).isEmpty

/-- The lowest card of a hand, with the rest of the hand. -/
def next? (h : Hand) : Option (Card × Hand) := h.cards.head?.map (fun c => (c, h.erase c))

/-- All cards of one suit. -/
def ofSuit (s : Suit) : Hand := ⟨BitVec.ofNat 52 0x1111111111111 <<< s.index⟩

/-- All cards of one rank. -/
def ofRank (r : Rank) : Hand := ⟨BitVec.ofNat 52 0xF <<< (4 * r.index)⟩

/-- The cards of a hand in one suit. -/
def inSuit (h : Hand) (s : Suit) : Hand := h.inter (ofSuit s)

/-- How many cards of a rank a hand holds. -/
def multiplicity (h : Hand) (r : Rank) : Nat := Suit.all.countP (fun s => h.contains ⟨r, s⟩)

/-- The ranks a hand holds in one suit. -/
def suitRanks (h : Hand) (s : Suit) : RankSet :=
  RankSet.ofRanks (Rank.all.filter (fun r => h.contains ⟨r, s⟩))

/-- The ranks a hand holds in any suit. -/
def rankSet (h : Hand) : RankSet :=
  RankSet.ofRanks (Rank.all.filter (fun r => 0 < h.multiplicity r))

/-- The text of a hand: its cards, lowest first, one right after the other. -/
def text (h : Hand) : String := String.join (h.cards.map Card.text)

/-! ## Membership -/

/-- Membership is what the bit of a card says. -/
theorem mem_def {h : Hand} {c : Card} : c ∈ h ↔ h.contains c = true := Iff.rfl

/-- The empty hand has no card. -/
theorem contains_empty (c : Card) : empty.contains c = false := by
  simp [empty, contains]

/-- The full hand has every card. -/
theorem contains_full (c : Card) : full.contains c = true := by
  simp only [full, contains, BitVec.getLsbD_allOnes, c.code_lt, decide_true]

/-- A hand of one card has this card only. -/
theorem contains_single (c d : Card) : (single c).contains d = decide (c = d) := by
  have hc := c.code_lt
  simp only [contains, single, BitVec.getLsbD_twoPow]
  by_cases h : c = d
  · subst h; simp [hc]
  · have : ¬ c.code = d.code := fun e => h (Card.code_injective e)
    simp [h, this]

/-- A union has the cards of either hand. -/
theorem contains_union (h k : Hand) (c : Card) :
    (h.union k).contains c = (h.contains c || k.contains c) := by
  simp [contains, union]

/-- An intersection has the cards of both hands. -/
theorem contains_inter (h k : Hand) (c : Card) :
    (h.inter k).contains c = (h.contains c && k.contains c) := by
  simp [contains, inter]

/-- A complement has just the cards that the hand has not. -/
theorem contains_complement (h : Hand) (c : Card) :
    h.complement.contains c = !h.contains c := by
  simp [contains, complement, c.code_lt]

/-- Erasing a card takes away this card only. -/
theorem contains_erase (h : Hand) (c d : Card) :
    (h.erase c).contains d = (h.contains d && !decide (c = d)) := by
  rw [erase, contains_inter, contains_complement, contains_single]

/-- A hand made from a list contains the cards of the list. -/
theorem contains_ofCards (cs : List Card) (c : Card) :
    (ofCards cs).contains c = decide (c ∈ cs) := by
  have fold : ∀ (cs : List Card) (h : Hand),
      (cs.foldl (fun h c => h.union (single c)) h).contains c
        = (h.contains c || decide (c ∈ cs)) := by
    intro cs
    induction cs with
    | nil => intro h; simp
    | cons d ds ih =>
      intro h
      rw [List.foldl_cons, ih, contains_union, contains_single]
      by_cases e : d = c
      · simp [e]
      · simp [e, Ne.symm e]
  simpa [ofCards, contains_empty] using fold cs empty

/-- The list of a hand's cards has the cards of the hand. -/
theorem mem_cards {h : Hand} {c : Card} : c ∈ h.cards ↔ c ∈ h := by
  simp [cards, c.mem_all, mem_def]

/-- The cards of a hand are listed in increasing order. -/
theorem cards_sorted (h : Hand) : h.cards.Pairwise (fun c d => c.code < d.code) :=
  Card.all_sorted.sublist List.filter_sublist

/-- Hands with the same cards are equal. -/
theorem ext {h k : Hand} (same : ∀ c, h.contains c = k.contains c) : h = k := by
  obtain ⟨x⟩ := h
  obtain ⟨y⟩ := k
  congr 1
  apply BitVec.eq_of_getLsbD_eq
  intro i hi
  obtain ⟨c, hc⟩ := Card.exists_code hi
  have := same c
  simp only [contains, hc] at this
  exact this

end Hand

end Holdem
