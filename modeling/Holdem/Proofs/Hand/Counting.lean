import Holdem.Hand
import Holdem.Proofs.RankSet
import Mathlib

/-!
# Counting the cards of a hand

A hand of `n` cards lists `n` ranks, a rank as often as the hand holds it. A suit of a hand lists
each of its ranks once. Of at most nine cards, only one suit can have five.
-/

set_option autoImplicit false

namespace Holdem

namespace Hand

variable {g h : Hand}

/-- A hand is part of another when each of its cards is in the other. -/
instance : HasSubset Hand where
  Subset g h := ∀ c, c ∈ g → c ∈ h

/-- The ranks of a hand's cards, lowest first. -/
def ranks (h : Hand) : List Rank := h.cards.map Card.rank

/-- A hand lists each of its cards once. -/
theorem cards_nodup (h : Hand) : h.cards.Nodup :=
  h.cards_sorted.imp (fun below same => absurd (same ▸ below) (Nat.lt_irrefl _))

/-- The cards of a hand are as many as its size. -/
theorem length_cards (h : Hand) : h.cards.length = h.size :=
  List.countP_eq_length_filter.symm

/-- The ranks of a hand are as many as its cards. -/
theorem length_ranks (h : Hand) : h.ranks.length = h.size := by
  rw [ranks, List.length_map, length_cards]

/-- A rank occurs among a hand's ranks as often as its multiplicity says. -/
theorem count_ranks (h : Hand) (r : Rank) : h.ranks.count r = h.multiplicity r := by
  have ofRank : Card.all.filter (fun c => c.rank == r) = Suit.all.map (fun s => ⟨r, s⟩) := by
    cases r <;> rfl
  calc h.ranks.count r
      = Card.all.countP (fun c => c.rank == r && h.contains c) := by
        rw [ranks, List.count, List.countP_map, cards, List.countP_filter]
        rfl
    _ = (Card.all.filter (fun c => c.rank == r)).countP h.contains := by
        rw [List.countP_filter]
        simp only [Bool.and_comm]
    _ = h.multiplicity r := by
        rw [ofRank, List.countP_map]
        rfl

/-- A part of a hand is no larger than the hand. -/
theorem size_mono (sub : g ⊆ h) : g.size ≤ h.size :=
  List.countP_mono_left (fun c _ => sub c)

/-- A part of a hand that is as large as the hand is all of it. -/
theorem eq_of_subset_of_size_le (sub : g ⊆ h) (size : h.size ≤ g.size) : g = h := by
  have part : g.cards ⊆ h.cards := fun c held => mem_cards.2 (sub c (mem_cards.1 held))
  rw [← length_cards, ← length_cards] at size
  have same := (g.cards_nodup.subperm part).perm_of_length_le size
  apply ext
  intro c
  rw [Bool.eq_iff_iff]
  exact mem_cards.symm.trans (same.mem_iff.trans mem_cards)

/-- A rank is no more frequent in a part of a hand. -/
theorem multiplicity_mono (sub : g ⊆ h) (r : Rank) : g.multiplicity r ≤ h.multiplicity r :=
  List.countP_mono_left (fun s _ => sub ⟨r, s⟩)

/-- A rank has at most four cards. -/
theorem multiplicity_le (h : Hand) (r : Rank) : h.multiplicity r ≤ 4 :=
  List.countP_le_length

/-- A rank occurs in a hand exactly when some card of it does. -/
theorem multiplicity_pos {r : Rank} : 0 < h.multiplicity r ↔ ∃ s, ⟨r, s⟩ ∈ h := by
  rw [multiplicity, List.countP_pos_iff]
  exact ⟨fun ⟨s, _, held⟩ => ⟨s, held⟩, fun ⟨s, held⟩ => ⟨s, s.mem_all, held⟩⟩

/-- The rank set holds the ranks that occur. -/
theorem contains_rankSet (h : Hand) (r : Rank) :
    h.rankSet.contains r = decide (0 < h.multiplicity r) := by
  rw [rankSet, RankSet.contains_ofRanks]
  simp [r.mem_all]

/-! ## Hands made from a list -/

/-- A hand made from distinct cards lists those cards. -/
theorem cards_ofCards {cs : List Card} (distinct : cs.Nodup) : (ofCards cs).cards.Perm cs := by
  apply (List.perm_ext_iff_of_nodup (cards_nodup _) distinct).2
  intro c
  rw [mem_cards, mem_def, contains_ofCards, decide_eq_true_iff]

/-- A hand made from some of a hand's cards is part of it. -/
theorem ofCards_subset {cs : List Card} (sub : cs ⊆ h.cards) : ofCards cs ⊆ h := by
  intro c mem
  rw [mem_def, contains_ofCards, decide_eq_true_iff] at mem
  exact mem_cards.1 (sub mem)

/-! ## Suits -/

/-- A suit's hand holds the cards of that suit. -/
theorem contains_ofSuit (s : Suit) (c : Card) : (ofSuit s).contains c = decide (c.suit = s) := by
  have every : ∀ s ∈ Suit.all, ∀ c ∈ Card.all, (ofSuit s).contains c = decide (c.suit = s) := by
    decide
  exact every s s.mem_all c c.mem_all

/-- The part of a hand in a suit holds the hand's cards of that suit. -/
theorem contains_inSuit (h : Hand) (s : Suit) (c : Card) :
    (h.inSuit s).contains c = (h.contains c && decide (c.suit = s)) := by
  rw [inSuit, contains_inter, contains_ofSuit]

/-- The part of a hand in a suit is part of the hand. -/
theorem inSuit_subset (h : Hand) (s : Suit) : h.inSuit s ⊆ h := by
  intro c mem
  rw [mem_def, contains_inSuit, Bool.and_eq_true] at mem
  exact mem.1

/-- Cards that are all of one suit lose none when only that suit is kept. -/
theorem inSuit_eq_self {s : Suit} (sub : g ⊆ h.inSuit s) : g.inSuit s = g := by
  apply ext
  intro c
  rw [contains_inSuit, Bool.and_eq_left_iff_imp]
  intro held
  have suited := sub c held
  rw [mem_def, contains_inSuit, Bool.and_eq_true] at suited
  exact suited.2

/-- A card kept for a suit is of that suit. -/
theorem suit_of_mem {s : Suit} {c : Card} (held : c ∈ h.inSuit s) : c.suit = s := by
  rw [mem_def, contains_inSuit, Bool.and_eq_true] at held
  exact of_decide_eq_true held.2

/-- The part in a suit grows with the hand. -/
theorem inSuit_mono (sub : g ⊆ h) (s : Suit) : g.inSuit s ⊆ h.inSuit s := by
  intro c mem
  rw [mem_def, contains_inSuit, Bool.and_eq_true] at mem ⊢
  exact ⟨sub c mem.1, mem.2⟩

/-- The ranks of a suit are those whose card of that suit is held. -/
theorem contains_suitRanks (h : Hand) (s : Suit) (r : Rank) :
    (h.suitRanks s).contains r = h.contains ⟨r, s⟩ := by
  rw [suitRanks, RankSet.contains_ofRanks]
  simp [r.mem_all]

/-- The cards in a suit list the ranks held in it. -/
theorem ranks_inSuit (h : Hand) (s : Suit) : (h.inSuit s).ranks = (h.suitRanks s).ranks := by
  have suited : Card.all.filter (fun c => decide (c.suit = s)) = Rank.all.map (⟨·, s⟩) := by
    cases s <;> rfl
  have cards : (h.inSuit s).cards = (Rank.all.map (⟨·, s⟩)).filter h.contains := by
    rw [← suited, List.filter_filter]
    exact List.filter_congr (fun c _ => contains_inSuit h s c)
  have held : (h.suitRanks s).contains = fun r => h.contains ⟨r, s⟩ :=
    funext (contains_suitRanks h s)
  rw [ranks, cards, List.filter_map, List.map_map, RankSet.ranks, held]
  exact List.map_id _

/-- A rank occurs in a suit exactly when its card of that suit is held. -/
theorem multiplicity_inSuit_pos {s : Suit} {r : Rank} :
    0 < (h.inSuit s).multiplicity r ↔ ⟨r, s⟩ ∈ h := by
  rw [← count_ranks, ranks_inSuit, List.count_pos_iff, RankSet.mem_ranks, contains_suitRanks]
  rfl

/-- A rank occurs at most once in a suit. -/
theorem multiplicity_inSuit_le (h : Hand) (s : Suit) (r : Rank) :
    (h.inSuit s).multiplicity r ≤ 1 := by
  have distinct : (h.suitRanks s).ranks.Nodup :=
    List.nodup_reverse.1 (RankSet.descending_nodup _)
  rw [← count_ranks, ranks_inSuit]
  exact List.nodup_iff_count_le_one.1 distinct r

/-- The ranks of the part in a suit are the hand's ranks of that suit. -/
theorem rankSet_inSuit (h : Hand) (s : Suit) : (h.inSuit s).rankSet = h.suitRanks s := by
  have same : ∀ r ∈ Rank.all, decide (0 < (h.inSuit s).multiplicity r) = h.contains ⟨r, s⟩ := by
    intro r _
    rw [Bool.eq_iff_iff, decide_eq_true_iff, multiplicity_inSuit_pos]
    rfl
  rw [rankSet, suitRanks, List.filter_congr same]

/-- A suit has as many cards as ranks. -/
theorem size_inSuit (h : Hand) (s : Suit) :
    (h.inSuit s).size = (h.suitRanks s).descending.length := by
  rw [← length_ranks, ranks_inSuit, RankSet.length_descending]

/-- Two suits hold different cards. -/
theorem size_inSuit_add_le {s t : Suit} (other : s ≠ t) :
    (h.inSuit s).size + (h.inSuit t).size ≤ h.size := by
  have apart : (h.inSuit s).cards.Disjoint (h.inSuit t).cards := by
    intro c first second
    rw [mem_cards, mem_def, contains_inSuit, Bool.and_eq_true, decide_eq_true_iff] at first second
    exact other (first.2.symm.trans second.2)
  have distinct := (cards_nodup (h.inSuit s)).append (cards_nodup (h.inSuit t)) apart
  have held : (h.inSuit s).cards ++ (h.inSuit t).cards ⊆ h.cards := by
    intro c mem
    rw [mem_cards]
    rcases List.mem_append.1 mem with first | second
    · exact inSuit_subset h s c (mem_cards.1 first)
    · exact inSuit_subset h t c (mem_cards.1 second)
  have length := (distinct.subperm held).length_le
  rwa [List.length_append, length_cards, length_cards, length_cards] at length

/-- No two suits of a hand have five cards. -/
def OneFlush (h : Hand) : Prop :=
  ∀ s t, 5 ≤ (h.inSuit s).size → 5 ≤ (h.inSuit t).size → s = t

/-- Nine cards cannot have two suits of five. -/
theorem oneFlush_of_size (small : h.size ≤ 9) : h.OneFlush := by
  intro s t first second
  by_contra other
  have both := size_inSuit_add_le (h := h) other
  omega

/-- A part of a hand with at most one suit of five cards has at most one too. -/
theorem OneFlush.mono (one : h.OneFlush) (sub : g ⊆ h) : g.OneFlush := by
  intro s t first second
  exact one s t (first.trans (size_mono (inSuit_mono sub s)))
    (second.trans (size_mono (inSuit_mono sub t)))

end Hand

end Holdem
