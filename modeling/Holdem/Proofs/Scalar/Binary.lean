import Holdem.Proofs.Scalar.Laws
import Mathlib

/-!
# Binary scalars

Floating-point numbers keep the laws of scalars. A number is compared by its side of zero, then by
its exponent, then by its mantissa: these in turn are a key, and two numbers with one key are the
same but for the two zeros. What is left when something is taken from a zero does not depend on the
sign of the zero, up to the sign of a zero that is left.
-/

set_option autoImplicit false

namespace Holdem.Scalar

open Float.Model

/-! ## The key of a number -/

/-- What a number is compared by: the side of zero, further out if it is infinite, then the exponent
and the mantissa. -/
def keyOf : UnpackedFloat → ℤ ×ₗ ℤ ×ₗ ℤ
  | .infinity .positive => toLex (2, toLex (0, 0))
  | .infinity .negative => toLex (-2, toLex (0, 0))
  | .finite .positive m e _ => toLex (1, toLex (e, m))
  | .finite .negative m e _ => toLex (-1, toLex (-e, -m))
  | .zero _ | .notANumber => toLex (0, toLex (0, 0))

/-- Natural numbers compare as integers do. -/
theorem compare_natCast (m n : ℕ) : Ord.compare (m : ℤ) (n : ℤ) = Ord.compare m n := by
  simp [Int.compare_eq_ite_lt, Nat.compare_eq_ite_lt]

/-- Negation turns a comparison around. -/
theorem compare_neg (a b : ℤ) : Ord.compare (-a) (-b) = (Ord.compare a b).swap := by
  rw [Int.compare_swap]
  simp [Int.compare_eq_ite_lt]

/-- Numbers of the same sign compare by exponent and then by mantissa. -/
theorem compare_side (k e e' m m' : ℤ) :
    Ord.compare (toLex (k, toLex (e, m))) (toLex (k, toLex (e', m'))) =
      (Ord.compare e e').then (Ord.compare m m') := by
  simp [Prod.Lex.compare_def, compareLex, compareOn]

/-- Numbers are compared by their keys. -/
theorem compare_keyOf {x y : UnpackedFloat} (number : x.isNaN = false) (number' : y.isNaN = false) :
    x.compare y = some (Ord.compare (keyOf x) (keyOf y)) := by
  cases x with
  | notANumber => cases number
  | infinity s =>
    cases y with
    | notANumber => cases number'
    | infinity s' => cases s <;> cases s' <;> rfl
    | zero s' => cases s <;> rfl
    | finite s' m' e' pos' => cases s <;> cases s' <;> rfl
  | zero s =>
    cases y with
    | notANumber => cases number'
    | infinity s' => cases s' <;> rfl
    | zero s' => rfl
    | finite s' m' e' pos' => cases s' <;> rfl
  | finite s m e pos =>
    cases y with
    | notANumber => cases number'
    | infinity s' => cases s <;> cases s' <;> rfl
    | zero s' => cases s <;> rfl
    | finite s' m' e' pos' =>
      cases s with
      | negative =>
        cases s' with
        | negative =>
          simp only [UnpackedFloat.compare, keyOf, compare_side, compare_neg, compare_natCast,
            Ordering.swap_then]
        | positive => rfl
      | positive =>
        cases s' with
        | negative => rfl
        | positive => simp only [UnpackedFloat.compare, keyOf, compare_side, compare_natCast]

/-- What is not a number compares with nothing. -/
theorem compare_of_isNaN {x y : UnpackedFloat} (wrong : x.isNaN = true ∨ y.isNaN = true) :
    x.compare y = none := by
  cases x <;> cases y <;> simp_all [UnpackedFloat.compare, UnpackedFloat.isNaN]

/-- Numbers are ordered as their keys are, and what is not a number is in no order. -/
theorem unpacked_le_iff {x y : UnpackedFloat} :
    x.le y = true ↔ x.isNaN = false ∧ y.isNaN = false ∧ keyOf x ≤ keyOf y := by
  unfold UnpackedFloat.le
  cases number : x.isNaN with
  | true => simp [compare_of_isNaN (Or.inl number)]
  | false =>
    cases number' : y.isNaN with
    | true => simp [compare_of_isNaN (Or.inr number')]
    | false => simp [compare_keyOf number number', Ordering.isLE_iff_ne_gt, compare_gt_iff_gt]

/-- Numbers are strictly ordered as their keys are. -/
theorem unpacked_lt_iff {x y : UnpackedFloat} :
    x.lt y = true ↔ x.isNaN = false ∧ y.isNaN = false ∧ keyOf x < keyOf y := by
  unfold UnpackedFloat.lt
  cases number : x.isNaN with
  | true => simp [compare_of_isNaN (Or.inl number)]
  | false =>
    cases number' : y.isNaN with
    | true => simp [compare_of_isNaN (Or.inr number')]
    | false => simp [compare_keyOf number number', compare_lt_iff_lt]

/-- Numbers with one key are the same, but for the zeros. -/
theorem eq_of_keyOf {x y : UnpackedFloat} (number : x.isNaN = false) (number' : y.isNaN = false)
    (same : keyOf x = keyOf y) : x = y ∨ ∃ s s', x = .zero s ∧ y = .zero s' := by
  cases x with
  | notANumber => cases number
  | infinity s =>
    cases y with
    | notANumber => cases number'
    | infinity s' => cases s <;> cases s' <;> simp_all [keyOf]
    | zero s' => cases s <;> simp [keyOf] at same
    | finite s' m' e' pos' => cases s <;> cases s' <;> simp [keyOf] at same
  | zero s =>
    cases y with
    | notANumber => cases number'
    | infinity s' => cases s' <;> simp [keyOf] at same
    | zero s' => exact Or.inr ⟨s, s', rfl, rfl⟩
    | finite s' m' e' pos' => cases s' <;> simp [keyOf] at same
  | finite s m e pos =>
    cases y with
    | notANumber => cases number'
    | infinity s' => cases s <;> cases s' <;> simp [keyOf] at same
    | zero s' => cases s <;> simp [keyOf] at same
    | finite s' m' e' pos' =>
      left
      cases s <;> cases s' <;> simp [keyOf] at same ⊢ <;> omega

/-! ## Taking a number from another -/

/-- Nothing is left when a finite number is taken from itself. -/
theorem unpacked_sub_self {x : UnpackedFloat} (finite : x.isFinite = true) (f : Format) :
    UnpackedFloat.sub f x x = .zero .positive := by
  cases x with
  | notANumber | infinity s => cases finite
  | zero s => cases s <;> rfl
  | finite s m e pos =>
    simp only [UnpackedFloat.sub, Int.sub_self]
    rfl

/-- Packing a signed zero and unpacking it gives it back. -/
theorem unpack_pack_zero (s : UnpackedFloat.Sign) :
    (Float.Model.pack (.zero s)).unpack = .zero s := by
  cases s <;> rfl

/-- The sign of a zero does not matter to what a number is compared with. -/
theorem unpacked_zero_le (s s' : UnpackedFloat.Sign) (x : UnpackedFloat) :
    UnpackedFloat.le (.zero s) x = UnpackedFloat.le (.zero s') x := by
  rw [Bool.eq_iff_iff, unpacked_le_iff, unpacked_le_iff]
  exact Iff.rfl

/-! ## The laws -/

section

variable {a b : Float}

/-- Floats are ordered as the numbers they unpack to. -/
theorem float_le_iff : le a b = true ↔ a.toModel.unpack.le b.toModel.unpack = true :=
  decide_eq_true_iff.trans decide_eq_true_iff

/-- Floats are strictly ordered as the numbers they unpack to. -/
theorem float_lt_iff : lt a b = true ↔ a.toModel.unpack.lt b.toModel.unpack = true :=
  decide_eq_true_iff.trans decide_eq_true_iff

/-- The difference of floats is that of the numbers they unpack to, rounded to a float. -/
theorem float_sub (a b : Float) :
    (a - b).toModel = .pack (.sub .binary64 a.toModel.unpack b.toModel.unpack) := rfl

end

/-- Numbers that are at most each other leave the same, but for the sign of a zero that is left. -/
theorem float_sub_congr {a b : Float} (less : le a b) (more : le b a) (c d : Float) :
    le (a - c) d = le (b - c) d := by
  obtain ⟨number, number', below⟩ := unpacked_le_iff.1 (float_le_iff.1 less)
  obtain ⟨_, _, above⟩ := unpacked_le_iff.1 (float_le_iff.1 more)
  rw [Bool.eq_iff_iff, float_le_iff, float_le_iff, float_sub, float_sub]
  rcases eq_of_keyOf number number' (le_antisymm below above) with same | ⟨s, s', zero, zero'⟩
  · rw [same]
  · rw [zero, zero']
    cases c.toModel.unpack with
    | notANumber | infinity | finite => exact Iff.rfl
    | zero t =>
      -- only here does the sign of a zero show, and again as the sign of a zero
      have zeros : ∀ s : UnpackedFloat.Sign, ∃ r,
          UnpackedFloat.sub .binary64 (.zero s) (.zero t) = .zero r := by
        intro s
        cases s <;> cases t <;> exact ⟨_, rfl⟩
      obtain ⟨r, left⟩ := zeros s
      obtain ⟨r', left'⟩ := zeros s'
      rw [left, left', unpack_pack_zero, unpack_pack_zero, unpacked_zero_le r r']

instance : Lawful Float where
  le_trans first second := by
    rw [float_le_iff, unpacked_le_iff] at *
    exact ⟨first.1, second.2.1, first.2.2.trans second.2.2⟩
  le_total {a b} number number' := by
    rw [float_le_iff, unpacked_le_iff] at *
    rw [float_le_iff, unpacked_le_iff]
    exact (LinearOrder.le_total _ _).imp (fun below => ⟨number.1, number'.1, below⟩)
      (fun below => ⟨number'.1, number.1, below⟩)
  lt_iff {a b} := by
    rw [float_le_iff, float_le_iff, float_lt_iff, unpacked_le_iff, unpacked_le_iff,
      unpacked_lt_iff, lt_iff_le_not_ge]
    tauto
  le_self {a} finite := by
    rw [float_le_iff, unpacked_le_iff]
    have number : a.toModel.unpack.isNaN = false := by
      change a.toModel.unpack.isFinite = true at finite
      cases unpacked : a.toModel.unpack with
      | notANumber => rw [unpacked] at finite; cases finite
      | _ => rfl
    exact ⟨number, number, le_rfl⟩
  sub_self_le {a} finite := by
    rw [float_le_iff, float_sub, unpacked_sub_self finite, unpack_pack_zero]
    decide +kernel
  sub_congr := float_sub_congr
  zero_le_billionth := by decide +kernel

end Holdem.Scalar
