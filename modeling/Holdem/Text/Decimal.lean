/-!
# Decimal text with a fixed number of places

A binary floating-point number is an exact fraction, and its text with `p` decimal places is that
fraction times `10 ^ p`, rounded to a whole number. A tie goes to the even neighbour: one
sixteenth is `0.062` with three places. The sign is written whenever the number carries one, also
before a zero.
-/

set_option autoImplicit false

namespace Holdem.Text

/-- The quotient rounded to the nearest whole number, a half going to the even neighbour. -/
def roundHalfEven (num den : Nat) : Nat :=
  let q := num / den
  let r := num % den
  if den < 2 * r || (2 * r == den && q % 2 == 1) then q + 1 else q

/-- A floating-point number taken apart. -/
inductive Parts where
  | nan
  | infinite (negative : Bool)
  /-- The number `mantissa * 2 ^ (exponent - 1075)`. -/
  | finite (negative : Bool) (mantissa exponent : Nat)
  deriving DecidableEq, Repr

/-- The sign, mantissa and biased exponent named by the bits of a binary64 number. Numbers too
small for a leading one share the exponent of the smallest numbers that have it. -/
def partsOfBits (bits : UInt64) : Parts :=
  let n := bits.toNat
  let negative := n / Nat.pow 2 63 == 1
  let exponent := n / Nat.pow 2 52 % Nat.pow 2 11
  let fraction := n % Nat.pow 2 52
  if exponent == 2047 then
    if fraction == 0 then .infinite negative else .nan
  else if exponent == 0 then .finite negative fraction 1
  else .finite negative (Nat.pow 2 52 + fraction) exponent

/-- How many units of `10 ^ -places` the number `mantissa * 2 ^ (exponent - 1075)` has, rounded. -/
def unitsOf (places mantissa exponent : Nat) : Nat :=
  roundHalfEven (mantissa * Nat.pow 10 places * Nat.pow 2 (exponent - 1075))
    (Nat.pow 2 (1075 - exponent))

/-- A count of units of `10 ^ -places`, written with a point. -/
def placesText (places units : Nat) : String :=
  let fraction := toString (units % Nat.pow 10 places)
  let zeros := String.ofList (List.replicate (places - fraction.length) '0')
  s!"{units / Nat.pow 10 places}.{zeros}{fraction}"

/-- A floating-point number with a fixed positive number of decimal places. -/
def fixed (places : Nat) (x : Float) : String :=
  let sign := fun (negative : Bool) => if negative then "-" else ""
  match partsOfBits x.toBits with
  | .nan => "NaN"
  | .infinite negative => sign negative ++ "inf"
  | .finite negative mantissa exponent =>
      sign negative ++ placesText places (unitsOf places mantissa exponent)

end Holdem.Text
