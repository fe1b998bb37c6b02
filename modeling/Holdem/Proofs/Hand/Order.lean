import Holdem.Proofs.Hand.Spelling
import Mathlib

/-!
# How strengths compare

The value of a strength puts its kind above the ranks of its category and these above the kickers,
so strengths compare by one after the other. Within a kind that is also how the ranks compare that
the strengths spell, straights apart, which have their top alone to compare.
-/

set_option autoImplicit false

namespace Holdem

/-- Two-digit numbers compare by the high digit and then by the low one. -/
theorem compare_digits {a b c d m : Nat} (low : b < m) (low' : d < m) :
    Ord.compare (a * m + b) (c * m + d) = (Ord.compare a c).then (Ord.compare b d) := by
  rcases Nat.lt_trichotomy a c with less | rfl | more
  · have scaled : a * m + m ≤ c * m := by
      rw [← Nat.succ_mul]
      exact Nat.mul_le_mul_right m less
    rw [Nat.compare_eq_lt.2 less, Nat.compare_eq_lt.2 (by omega)]
    rfl
  · rw [Nat.compare_eq_eq.2 rfl, Ordering.eq_then]
    simp only [Nat.compare_eq_ite_lt, Nat.add_lt_add_iff_left]
  · have scaled : c * m + m ≤ a * m := by
      rw [← Nat.succ_mul]
      exact Nat.mul_le_mul_right m more
    rw [Nat.compare_eq_gt.2 more, Nat.compare_eq_gt.2 (by omega)]
    rfl

/-- Places compare as kinds do and then as the deciding ranks do, one by one. -/
theorem Category.compare_place (c d : Category) : Ord.compare c.place d.place =
    (Ord.compare c.kind d.kind).then (Rank.compareAll c.ranks d.ranks) := by
  rcases Nat.lt_trichotomy c.kind d.kind with less | same | more
  · rw [Nat.compare_eq_lt.2 less, Nat.compare_eq_lt.2 (place_lt_of_kind less)]
    rfl
  · have length : c.ranks.length = d.ranks.length := by
      rw [length_ranks, length_ranks, same]
    rw [Nat.compare_eq_eq.2 same, Ordering.eq_then]
    rcases c.ranks_cases with ⟨r, one⟩ | ⟨r, q, two⟩ <;>
      rcases d.ranks_cases with ⟨r', one'⟩ | ⟨r', q', two'⟩
    · rw [place_single one, place_single one', same, one, one', Rank.compareAll_cons,
        Rank.compareAll_nil, Ordering.then_eq]
      have scaled := compare_digits (a := d.kind * 13 + r.index) (c := d.kind * 13 + r'.index)
        (show 0 < 13 by decide) (show 0 < 13 by decide)
      have added := compare_digits (a := d.kind) (c := d.kind) r.index_lt r'.index_lt
      rw [Nat.compare_eq_eq.2 rfl, Ordering.then_eq] at scaled
      rw [Nat.compare_eq_eq.2 rfl, Ordering.eq_then] at added
      exact scaled.trans added
    · simp [one, two'] at length
    · simp [two, one'] at length
    · rw [place_pair two, place_pair two', same, two, two', Rank.compareAll_cons,
        Rank.compareAll_cons, Rank.compareAll_nil, Ordering.then_eq,
        compare_digits q.index_lt q'.index_lt, compare_digits r.index_lt r'.index_lt,
        Nat.compare_eq_eq.2 rfl, Ordering.eq_then]
  · rw [Nat.compare_eq_gt.2 more, Nat.compare_eq_gt.2 (place_lt_of_kind more)]
    rfl

/-- Strengths compare by the kind of their category, then by its ranks, then by the kickers. -/
theorem Strength.compare_eq (s t : Strength) : s.compare t =
    ((Ord.compare s.category.kind t.category.kind).then
      (Rank.compareAll s.category.ranks t.category.ranks)).then
      (Ord.compare s.kickers.value t.kickers.value) := by
  rw [compare, value_eq, value_eq, compare_digits s.kickers.value_lt t.kickers.value_lt,
    Category.compare_place]

/-- Only equal strengths have one value. -/
theorem Strength.eq_of_value_eq {s t : Strength} (same : s.value = t.value) : s = t := by
  have low := s.kickers.value_lt
  have low' := t.kickers.value_lt
  rw [value_eq, value_eq] at same
  have category := Category.eq_of_place_eq (c := s.category) (d := t.category) (by omega)
  have kickers := RankSet.eq_of_value_eq (a := s.kickers) (b := t.kickers) (by omega)
  cases s
  cases t
  exact congrArg₂ Strength.mk category kickers

/-- A strength compares greater exactly when its value is. -/
theorem Strength.compare_eq_gt_iff {s t : Strength} : s.compare t = .gt ↔ t.value < s.value :=
  Nat.compare_eq_gt

/-- Strengths tie only if they are equal. -/
theorem Strength.compare_eq_eq_iff {s t : Strength} : s.compare t = .eq ↔ s = t :=
  Nat.compare_eq_eq.trans ⟨eq_of_value_eq, congrArg value⟩

/-- Categories of one kind compare as their cards do, rank by rank. -/
theorem Category.compareAll_spelling {c d : Category} (kind : c.kind = d.kind)
    (unlike : c.kind ≠ 4 ∧ c.kind ≠ 8) (rs qs : List Rank) :
    Rank.compareAll (c.spelling ++ rs) (d.spelling ++ qs) =
      (Rank.compareAll c.ranks d.ranks).then (Rank.compareAll rs qs) := by
  have again : ∀ a b : Ordering, a.then (a.then b) = a.then b := by
    intro a b
    cases a <;> rfl
  cases c <;> cases d <;>
    simp_all [Category.kind, spelling, ranks, Rank.compareAll_cons, Ordering.then_assoc]

/-- Categories of one kind have equally many kickers. -/
theorem Category.kickers_of_kind {c d : Category} (kind : c.kind = d.kind) :
    c.kickers = d.kickers := by
  cases c <;> cases d <;> simp_all [Category.kind, kickers]

/-- The two kinds of straights are the straight and the straight flush. -/
theorem Category.straight_of_kind {c : Category} (straight : ¬ (c.kind ≠ 4 ∧ c.kind ≠ 8)) :
    ∃ r, c.ranks = [r] ∧ (c = .straight r ∨ c = .straightFlush r) := by
  cases c <;> simp_all [Category.kind, ranks]

/-- Within a kind that one rank decides, the greater category has the higher rank. -/
theorem Category.index_le_of_place_le {c d : Category} {r q : Rank} (le : d.place ≤ c.place)
    (kind : d.kind = c.kind) (one : d.ranks = [q]) (one' : c.ranks = [r]) : q.index ≤ r.index := by
  rw [place_single one, place_single one', kind] at le
  omega

end Holdem
