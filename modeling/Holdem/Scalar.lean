/-!
# Scalars

Probabilities and expected values are computed in a type of scalars. The program runs in binary
floating point; the same definitions can be read in exact arithmetic. A scalar type says how
whole numbers enter it, and it compares by two tests, since a value that is not a number is
neither below, nor above, nor equal to anything.
-/

set_option autoImplicit false

namespace Holdem

/-- The arithmetic of probabilities and expected values. -/
class Scalar (α : Type) extends Add α, Sub α, Mul α, Div α where
  /-- A whole number as a scalar. -/
  ofNat : Nat → α
  lt : α → α → Bool
  le : α → α → Bool
  /-- Whether the scalar is a proper number. -/
  isFinite : α → Bool

namespace Scalar

instance : Scalar Float where
  ofNat := Float.ofNat
  lt a b := a < b
  le a b := a ≤ b
  isFinite := Float.isFinite

variable {α : Type} [Scalar α]

/-- The sum of a list, from left to right. -/
def sum (xs : List α) : α := xs.foldl (· + ·) (ofNat 0)

/-- The quotient of two whole numbers. -/
def ratio (num den : Nat) : α := (ofNat num : α) / (ofNat den : α)

/-- The order of two scalars; scalars that cannot be compared count as equal. -/
def compare (a b : α) : Ordering :=
  if lt a b then .lt else if lt b a then .gt else .eq

/-- The larger of two scalars; one that equals nothing, not even itself, loses to any other. -/
def max (a b : α) : α :=
  if lt a b then b else if le a a then a else b

/-- The largest of a list. -/
def maximum? : List α → Option α
  | [] => none
  | x :: xs => some (xs.foldl max x)

end Scalar

end Holdem
