import Holdem.Proofs.Scalar.Laws
import Mathlib

/-!
# Exact scalars

The rational numbers as scalars. In them the operations on lists of scalars are the ones of
mathematics: sums, quotients and the largest of a list.
-/

set_option autoImplicit false

namespace Holdem

namespace Scalar

instance : Scalar ℚ where
  ofNat n := n
  lt a b := decide (a < b)
  le a b := decide (a ≤ b)
  isFinite _ := true

/-- A number of things is itself among the rationals. -/
theorem ofNat_rat (n : Nat) : (ofNat n : ℚ) = n := rfl

/-- A ratio of two numbers is their quotient among the rationals. -/
theorem ratio_rat (num den : Nat) : (ratio num den : ℚ) = num / den := rfl

/-- A part of a whole lies between zero and one. -/
theorem ratio_bounds {num den : Nat} (less : num < den) :
    (0 : ℚ) ≤ ratio num den ∧ (ratio num den : ℚ) < 1 := by
  have less : (num : ℚ) < den := by exact_mod_cast less
  have nonneg : (0 : ℚ) ≤ num := Nat.cast_nonneg num
  rw [ratio_rat]
  exact ⟨div_nonneg nonneg (nonneg.trans less.le), (div_lt_one (nonneg.trans_lt less)).2 less⟩

/-- The order of scalars is the strict order of the rationals. -/
theorem lt_rat {a b : ℚ} : lt a b = true ↔ a < b := decide_eq_true_iff

/-- The order of scalars is the order of the rationals. -/
theorem le_rat {a b : ℚ} : le a b = true ↔ a ≤ b := decide_eq_true_iff

/-- Comparing rationals as scalars is comparing them. -/
theorem compare_rat (a b : ℚ) : compare a b = Ord.compare a b := by
  unfold compare
  rcases lt_trichotomy a b with less | rfl | more
  · rw [if_pos (lt_rat.2 less), compare_lt_iff_lt.2 less]
  · rw [if_neg (mt lt_rat.1 (lt_irrefl a)), if_neg (mt lt_rat.1 (lt_irrefl a)),
      compare_eq_iff_eq.2 rfl]
  · rw [if_neg (mt lt_rat.1 more.asymm), if_pos (lt_rat.2 more), compare_gt_iff_gt.2 more]

/-- The sum of scalars is the sum of rationals. -/
theorem sum_rat (xs : List ℚ) : sum xs = xs.sum := by
  rw [List.sum_eq_foldl]
  rfl

instance : Lawful ℚ where
  le_trans first second := le_rat.2 ((le_rat.1 first).trans (le_rat.1 second))
  le_total {a b} _ _ := (LinearOrder.le_total a b).imp le_rat.2 le_rat.2
  lt_iff {a b} := by rw [lt_rat, le_rat, le_rat, lt_iff_le_not_ge]
  le_self _ := le_rat.2 le_rfl
  sub_self_le {a} _ := le_rat.2 (sub_self a).le
  sub_congr less more _ _ := by rw [le_antisymm (le_rat.1 less) (le_rat.1 more)]
  zero_le_billionth := by decide +kernel

/-- The maximum of a list is one of its members, and none is larger. -/
theorem maximum?_rat {xs : List ℚ} {top : ℚ} (largest : maximum? xs = some top) :
    top ∈ xs ∧ ∀ x ∈ xs, x ≤ top := by
  obtain ⟨mem, above⟩ := maximum?_spec (fun x _ => le_self rfl) largest
  exact ⟨mem, fun x below => le_rat.1 (above x below)⟩

end Scalar

end Holdem
