import Holdem.Checked
import Holdem.Scalar

/-!
# Fractions of the pot

Bets and raises are sized as fractions of the pot. A fraction is a pair of thirty-two-bit numbers
as they were given, reduced or not.
-/

set_option autoImplicit false

namespace Holdem

/-- A fraction of the pot. -/
structure PotFraction where
  numer : Nat
  denom : Nat
  deriving DecidableEq, Repr

namespace PotFraction

/-- The fraction in lowest terms; zero over zero stays as it is. -/
def reduce (f : PotFraction) : PotFraction :=
  let g := max (Nat.gcd f.numer f.denom) 1
  ⟨f.numer / g, f.denom / g⟩

/-- This fraction of a pot, rounded down, as far as it fits in an amount of chips. A denominator
of zero counts as one. -/
def of (f : PotFraction) (pot : Chips) : Chips := pot * f.numer / max f.denom 1 % chipLimit

/-- The value of the fraction. -/
def value {α : Type} [Scalar α] (f : PotFraction) : α := Scalar.ratio f.numer f.denom

/-- Whether a fraction is listed before another: by numerator, then by denominator. -/
def before (f g : PotFraction) : Bool :=
  f.numer < g.numer || (f.numer == g.numer && f.denom < g.denom)

/-- Whether both parts are positive. -/
def isPositive (f : PotFraction) : Bool := 0 < f.numer && 0 < f.denom

/-- The text of a fraction. -/
def text (f : PotFraction) : String := s!"{f.numer}/{f.denom}"

/-- The usual sizes, from a quarter of the pot to four times the pot. -/
def usual : List PotFraction :=
  [⟨1, 4⟩, ⟨1, 3⟩, ⟨1, 2⟩, ⟨2, 3⟩, ⟨3, 4⟩, ⟨1, 1⟩, ⟨3, 2⟩, ⟨2, 1⟩, ⟨3, 1⟩, ⟨4, 1⟩]

end PotFraction

end Holdem
