import Holdem.Proofs.Scalar
import Mathlib

/-!
# Exact scalars beside values that are no proper numbers

The rational numbers with two infinite values and one that is no number at all. What proper numbers
give is exact, and dividing one that is not zero by zero gives an infinite value. What is computed
from the other values, and how they are compared, is as in floating point; a zero has no sign here.
-/

set_option autoImplicit false

namespace Holdem.Scalar

/-- A rational number, or a value that is no proper number. -/
inductive Extended where
  | proper (q : ℚ)
  | infinite (negative : Bool)
  | undefined
  deriving DecidableEq

namespace Extended

/-- The value on the other side of zero. -/
def neg : Extended → Extended
  | proper q => proper (-q)
  | infinite negative => infinite !negative
  | undefined => undefined

/-- Addition; infinities of both signs have no sum. -/
def add : Extended → Extended → Extended
  | proper q, proper r => proper (q + r)
  | proper _, infinite negative => infinite negative
  | infinite negative, proper _ => infinite negative
  | infinite negative, infinite negative' =>
    if negative = negative' then infinite negative else undefined
  | undefined, _ => undefined
  | _, undefined => undefined

/-- Multiplication; zero times an infinity is no number. -/
def mul : Extended → Extended → Extended
  | proper q, proper r => proper (q * r)
  | proper q, infinite negative =>
    if q = 0 then undefined else infinite (negative != (q < 0 : Bool))
  | infinite negative, proper r =>
    if r = 0 then undefined else infinite (negative != (r < 0 : Bool))
  | infinite negative, infinite negative' => infinite (negative != negative')
  | undefined, _ => undefined
  | _, undefined => undefined

/-- Division; zero by zero, and infinity by infinity, are no numbers. -/
def div : Extended → Extended → Extended
  | proper q, proper r =>
    if r ≠ 0 then proper (q / r) else if q = 0 then undefined else infinite (q < 0)
  | proper _, infinite _ => proper 0
  | infinite negative, proper r => infinite (negative != (r < 0 : Bool))
  | infinite _, infinite _ => undefined
  | undefined, _ => undefined
  | _, undefined => undefined

/-- Whether a value is below another; what is no number is below nothing. -/
def lt : Extended → Extended → Bool
  | proper q, proper r => q < r
  | proper _, infinite negative => !negative
  | infinite negative, proper _ => negative
  | infinite negative, infinite negative' => negative && !negative'
  | undefined, _ => false
  | _, undefined => false

/-- Whether a value is at most another; what is no number is not even at most itself. -/
def le : Extended → Extended → Bool
  | proper q, proper r => q ≤ r
  | proper _, infinite negative => !negative
  | infinite negative, proper _ => negative
  | infinite negative, infinite negative' => negative || !negative'
  | undefined, _ => false
  | _, undefined => false

instance : Scalar Extended where
  add := add
  sub x y := x.add y.neg
  mul := mul
  div := div
  ofNat n := proper n
  lt := lt
  le := le
  isFinite
    | proper _ => true
    | infinite _ | undefined => false

/-- The finite extended numbers are the rationals. -/
theorem isFinite_iff {x : Extended} : isFinite x = true ↔ ∃ q, x = proper q := by
  cases x with
  | proper q => exact iff_of_true rfl ⟨q, rfl⟩
  | infinite negative => exact iff_of_false Bool.false_ne_true (by simp)
  | undefined => exact iff_of_false Bool.false_ne_true (by simp)

end Extended

end Holdem.Scalar
