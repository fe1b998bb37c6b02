import Holdem.Proofs.Hand.Category
import Mathlib

/-!
# The five cards of a strength

A strength names the ranks of five cards: those that make its category, with their repetitions,
and its kickers. A hand of five cards or more holds cards of these ranks, in one suit where the
category asks for it. That enough kickers are left is seen by counting: a hand that makes nothing
better holds few cards of each rank, so it holds many ranks.
-/

set_option autoImplicit false

namespace Holdem

namespace Category

/-- The ranks of the cards that make a category, the deciding ones first. -/
def spelling : Category → List Rank
  | highCard r | flush r => [r]
  | onePair r => [r, r]
  | twoPair r q => [r, r, q, q]
  | trips r => [r, r, r]
  | straight r | straightFlush r => (RankSet.ofRanks (straightTo r)).descending
  | fullHouse r q => [r, r, r, q, q]
  | quads r => [r, r, r, r]

/-- The row of a straight, read as a set, has the straight's ranks. -/
theorem mem_descending_straightTo {r q : Rank} :
    q ∈ (RankSet.ofRanks (straightTo r)).descending ↔ q ∈ straightTo r := by
  rw [RankSet.mem_descending, RankSet.contains_ofRanks, decide_eq_true_iff]

/-- A rank is outside a category exactly when it is none of the deciding ranks. -/
theorem contains_outside (c : Category) (r : Rank) :
    c.outside.contains r = !decide (r ∈ c.ranks) := by
  rw [outside, RankSet.contains_complement, RankSet.contains_ofRanks]

end Category

/-- The ranks of the five cards a strength stands for. -/
def Strength.spelling (s : Strength) : List Rank :=
  s.category.spelling ++ s.kickers.descending

namespace Hand

variable {g h : Hand} {c : Category}

/-! ## The cards a category is made from -/

/-- The cards that count for a category: those of the flush's suit, or all. -/
def counting (h : Hand) (c : Category) : Hand :=
  if c.suited then (h.flushSuit?.map h.inSuit).getD empty else h

/-- For a suited category the cards of the flush suit count. -/
theorem counting_suited {s : Suit} (suited : c.suited = true) (flush : h.flushSuit? = some s) :
    h.counting c = h.inSuit s := by
  rw [counting, if_pos suited, flush]
  rfl

/-- For an unsuited category all cards count. -/
theorem counting_unsuited (unsuited : c.suited = false) : h.counting c = h := by
  rw [counting, if_neg (by simp [unsuited])]

/-- The cards that count are part of the hand. -/
theorem counting_subset (h : Hand) (c : Category) : h.counting c ⊆ h := by
  cases suited : c.suited with
  | false =>
    rw [counting_unsuited suited]
    exact fun _ => id
  | true =>
    rw [counting, if_pos suited]
    cases h.flushSuit? with
    | none => exact fun d held => absurd held (by simp [mem_def, contains_empty])
    | some s => exact inSuit_subset h s

/-- The straight's ranks are different, so each is asked for once. -/
theorem count_straightTo_le {r q : Rank} (held : ∀ p ∈ straightTo q, 1 ≤ h.multiplicity p) :
    (RankSet.ofRanks (straightTo q)).descending.count r ≤ h.multiplicity r := by
  have once := List.nodup_iff_count_le_one.1 (RankSet.ofRanks (straightTo q)).descending_nodup r
  by_cases mem : r ∈ straightTo q
  · exact once.trans (held r mem)
  · rw [List.count_eq_zero_of_not_mem (fun listed =>
      mem (Category.mem_descending_straightTo.1 listed))]
    exact Nat.zero_le _

/-- A hand that makes a category holds the ranks it is made from. -/
theorem count_spelling_le (one : h.OneFlush) (made : h.Makes c) (r : Rank) :
    c.spelling.count r ≤ (h.counting c).multiplicity r := by
  cases c with
  | highCard q | onePair q | trips q | quads q =>
    rw [counting_unsuited rfl]
    by_cases same : q = r
    · subst same
      simp only [Category.spelling, List.count_cons_self, List.count_nil]
      exact made
    · simp [Category.spelling, same]
  | twoPair q p | fullHouse q p =>
    obtain ⟨other, first, second⟩ := made
    rw [counting_unsuited rfl]
    by_cases same : q = r
    · subst same
      simpa [Category.spelling, List.count_cons, other.symm] using first
    · by_cases same' : p = r
      · subst same'
        simpa [Category.spelling, List.count_cons, other] using second
      · simp [Category.spelling, same, same']
  | straight q =>
    rw [counting_unsuited rfl]
    exact count_straightTo_le made.2
  | flush q =>
    obtain ⟨s, five, top⟩ := made
    rw [counting_suited rfl (flushSuit?_eq_some one five)]
    by_cases same : q = r
    · subst same
      simp only [Category.spelling, List.count_singleton_self]
      exact multiplicity_inSuit_pos.2 top
    · simp [Category.spelling, same]
  | straightFlush q =>
    obtain ⟨high, s, held⟩ := made
    rw [counting_suited rfl (flushSuit?_eq_some one (five_of_straight high held))]
    exact count_straightTo_le (fun p mem => multiplicity_inSuit_pos.2 (held p mem))

/-- A hand that makes a suited category has a flush suit. -/
theorem flushSuit?_of_makes (one : h.OneFlush) (made : h.Makes c) (suited : c.suited = true) :
    ∃ s, h.flushSuit? = some s := by
  cases c with
  | flush r =>
    obtain ⟨s, five, -⟩ := made
    exact ⟨s, flushSuit?_eq_some one five⟩
  | straightFlush r =>
    obtain ⟨high, s, held⟩ := made
    exact ⟨s, flushSuit?_eq_some one (five_of_straight high held)⟩
  | _ => exact absurd suited Bool.false_ne_true

/-- The cards that count for a category are five where the hand has five. -/
theorem five_le_size_counting (one : h.OneFlush) (made : h.Makes c) (five : 5 ≤ h.size) :
    5 ≤ (h.counting c).size := by
  cases suited : c.suited with
  | false => rwa [counting_unsuited suited]
  | true =>
    obtain ⟨s, flush⟩ := flushSuit?_of_makes one made suited
    rw [counting_suited suited flush]
    exact five_of_flushSuit? flush

/-! ## Kickers -/

/-- The ranks that may serve as kickers for a category. -/
def spare (h : Hand) (c : Category) : RankSet := (h.counting c).rankSet.inter c.outside

/-- A rank is spare exactly when it occurs among the cards that count and decides nothing. -/
theorem contains_spare {r : Rank} :
    (h.spare c).contains r = true ↔ 0 < (h.counting c).multiplicity r ∧ r ∉ c.ranks := by
  rw [spare, RankSet.contains_inter, contains_rankSet, Category.contains_outside]
  simp

/-- The kickers are the highest spare ranks, as many as the category takes. -/
theorem kickers_eq (one : h.OneFlush) (made : h.Makes c) :
    h.kickers c = (h.spare c).keepTop c.kickers := by
  cases c with
  | flush r =>
    obtain ⟨s, flush⟩ := flushSuit?_of_makes one made rfl
    rw [kickers, kickerPool, flush, spare, counting_suited rfl flush, rankSet_inSuit]
    rfl
  | straightFlush r => rfl
  | _ =>
    rw [spare, counting_unsuited rfl]
    rfl

/-- The ranks a made category spells and its kickers are five together. -/
theorem length_spelling (made : h.Makes c) : c.spelling.length + c.kickers = 5 := by
  have run : ∀ r : Rank, 3 ≤ r.index → (RankSet.ofRanks (straightTo r)).descending.length = 5 := by
    intro r high
    cases r <;> first | rfl | exact absurd high (by decide)
  cases c with
  | straight r | straightFlush r => exact run r made.1
  | _ => rfl

/-- Few cards of each rank leave many ranks for the kickers. -/
theorem kickers_le_of_few {n : Nat} (one : h.OneFlush) (five : 5 ≤ h.size) (made : h.Makes c)
    (counts : h.counting c = g)
    (own : ∀ r ∈ c.ranks, g.multiplicity r ≤ c.spelling.count r)
    (other : ∀ r, r ∉ c.ranks → g.multiplicity r ≤ n) :
    c.kickers ≤ n * (h.spare c).descending.length := by
  rw [← counts] at own other
  have bound : ((h.counting c).ranks : Multiset Rank) ≤
      c.spelling + n • (h.spare c).descending := by
    rw [Multiset.le_iff_count]
    intro r
    rw [Multiset.count_add, Multiset.count_nsmul, Multiset.coe_count, Multiset.coe_count,
      Multiset.coe_count, count_ranks]
    by_cases mem : r ∈ c.ranks
    · have few := own r mem
      omega
    · rcases Nat.eq_zero_or_pos ((h.counting c).multiplicity r) with none | some
      · omega
      · have few := other r mem
        have listed := RankSet.mem_descending.2 (contains_spare.2 ⟨some, mem⟩)
        rw [List.count_eq_one_of_mem (RankSet.descending_nodup _) listed]
        omega
  have card := Multiset.card_le_card bound
  rw [Multiset.card_add, Multiset.card_nsmul, Multiset.coe_card, Multiset.coe_card,
    Multiset.coe_card, length_ranks] at card
  have size := five_le_size_counting one made five
  have length := length_spelling made
  omega

/-- A hand of five cards has all the kickers its category asks for. -/
theorem kickers_le_spare (one : h.OneFlush) (five : 5 ≤ h.size) (chosen : h.category? = some c) :
    c.kickers ≤ (h.spare c).descending.length := by
  have made := makes_of_category? one chosen
  have higher : ∀ d : Category, c.kind < d.kind → ¬ h.Makes d :=
    fun _ => not_makes_of_kind one chosen
  -- of the ranks that make the category no more are held, or the hand would make a higher one
  cases c with
  | straight r | fullHouse r q | straightFlush r => exact Nat.zero_le _
  | highCard r =>
    have once : ∀ q, h.multiplicity q ≤ 1 := fun q =>
      Nat.le_of_not_lt (higher (.onePair q) (by simp [Category.kind]))
    have few := kickers_le_of_few one five made (counting_unsuited rfl)
      (by simpa [Category.ranks, Category.spelling] using once r) (fun q _ => once q)
    rwa [Nat.one_mul] at few
  | onePair r =>
    have twice : h.multiplicity r ≤ 2 :=
      Nat.le_of_not_lt (higher (.trips r) (by simp [Category.kind]))
    have once : ∀ q, q ∉ [r] → h.multiplicity q ≤ 1 := by
      intro q other
      by_contra more
      refine higher (.twoPair r q) (by simp [Category.kind]) ⟨?_, made, Nat.lt_of_not_le more⟩
      exact fun same => other (by simp [same])
    have few := kickers_le_of_few one five made (counting_unsuited rfl)
      (by simpa [Category.ranks, Category.spelling] using twice) once
    rwa [Nat.one_mul] at few
  | twoPair r q =>
    have other := made.1
    have high : h.multiplicity r ≤ 2 := Nat.le_of_not_lt (fun more =>
      higher (.fullHouse r q) (by simp [Category.kind]) ⟨other, more, made.2.2⟩)
    have low : h.multiplicity q ≤ 2 := Nat.le_of_not_lt (fun more =>
      higher (.fullHouse q r) (by simp [Category.kind]) ⟨other.symm, more, made.2.1⟩)
    have few := kickers_le_of_few one five made (counting_unsuited rfl)
      (by simpa [Category.ranks, Category.spelling, List.count_cons, other, other.symm]
        using ⟨high, low⟩) (fun p _ => h.multiplicity_le p)
    simp only [Category.kickers] at few ⊢
    omega
  | trips r =>
    have thrice : h.multiplicity r ≤ 3 :=
      Nat.le_of_not_lt (higher (.quads r) (by simp [Category.kind]))
    have once : ∀ q, q ∉ [r] → h.multiplicity q ≤ 1 := by
      intro q other
      by_contra more
      refine higher (.fullHouse r q) (by simp [Category.kind]) ⟨?_, made, Nat.lt_of_not_le more⟩
      exact fun same => other (by simp [same])
    have few := kickers_le_of_few one five made (counting_unsuited rfl)
      (by simpa [Category.ranks, Category.spelling] using thrice) once
    rwa [Nat.one_mul] at few
  | flush r =>
    obtain ⟨s, flush⟩ := flushSuit?_of_makes one made rfl
    have once := h.multiplicity_inSuit_le s
    have few := kickers_le_of_few one five made (counting_suited rfl flush)
      (by simpa [Category.ranks, Category.spelling] using once r) (fun q _ => once q)
    rwa [Nat.one_mul] at few
  | quads r =>
    have few := kickers_le_of_few one five made (counting_unsuited rfl)
      (by simpa [Category.ranks, Category.spelling] using h.multiplicity_le r)
      (fun q _ => h.multiplicity_le q)
    simp only [Category.kickers] at few ⊢
    omega

/-- A hand of five cards or more finds all the kickers its category takes. -/
theorem length_kickers (one : h.OneFlush) (five : 5 ≤ h.size) (chosen : h.category? = some c) :
    (h.kickers c).descending.length = c.kickers := by
  rw [kickers_eq one (makes_of_category? one chosen), RankSet.length_keepTop]
  exact Nat.min_eq_left (kickers_le_spare one five chosen)

/-! ## The spelling of a hand's strength -/

/-- A kicker occurs among the cards that count and is not spelled by the category. -/
theorem contains_kickers (one : h.OneFlush) (made : h.Makes c) {r : Rank}
    (kicker : (h.kickers c).contains r = true) :
    0 < (h.counting c).multiplicity r ∧ r ∉ c.spelling := by
  rw [kickers_eq one made] at kicker
  obtain ⟨held, outside⟩ := contains_spare.1 (RankSet.contains_of_keepTop kicker)
  refine ⟨held, fun own => ?_⟩
  have some : c.kickers ≠ 0 := by
    intro zero
    rw [zero, RankSet.keepTop, RankSet.contains_ofRanks] at kicker
    simp at kicker
  cases c <;> simp_all [Category.kickers, Category.spelling, Category.ranks]

/-- The cards that count for a hand's category have the ranks of its strength. -/
theorem spelling_subperm (one : h.OneFlush) {s : Strength} (known : h.strength? = some s) :
    s.spelling.Subperm (h.counting s.category).ranks := by
  obtain ⟨c, chosen, rfl⟩ := Option.map_eq_some_iff.1 known
  have made := makes_of_category? one chosen
  rw [List.subperm_ext_iff]
  intro r _
  rw [Strength.spelling, List.count_append, count_ranks]
  show c.spelling.count r + (h.kickers c).descending.count r ≤ (h.counting c).multiplicity r
  by_cases listed : r ∈ (h.kickers c).descending
  · obtain ⟨held, other⟩ := contains_kickers one made (RankSet.mem_descending.1 listed)
    have once := List.nodup_iff_count_le_one.1 (h.kickers c).descending_nodup r
    rw [List.count_eq_zero_of_not_mem other]
    omega
  · rw [List.count_eq_zero_of_not_mem listed]
    exact count_spelling_le one made r

/-- The strength of a hand of five cards or more spells five ranks. -/
theorem length_spelling_of_strength? (one : h.OneFlush) (five : 5 ≤ h.size) {s : Strength}
    (known : h.strength? = some s) : s.spelling.length = 5 := by
  obtain ⟨c, chosen, rfl⟩ := Option.map_eq_some_iff.1 known
  rw [Strength.spelling, List.length_append, length_kickers one five chosen]
  exact length_spelling (makes_of_category? one chosen)

/-- Among the cards that count there are some with just the ranks of the strength. -/
theorem exists_spelled (one : h.OneFlush) {s : Strength} (known : h.strength? = some s) :
    ∃ g : Hand, g ⊆ h.counting s.category ∧ g.ranks.Perm s.spelling := by
  obtain ⟨rs, spelled, listed⟩ := spelling_subperm one known
  obtain ⟨cs, picked, rfl⟩ := List.sublist_map_iff.1 listed
  have distinct := (cards_nodup (h.counting s.category)).sublist picked
  refine ⟨ofCards cs, ofCards_subset picked.subset, ?_⟩
  exact ((cards_ofCards distinct).map Card.rank).trans spelled

end Hand

end Holdem
