import Holdem.Betting.Fraction
import Mathlib

/-!
# Fractions in lowest terms

A fraction of the pot is reduced by Euclid's algorithm. With words of thirty-two bits its loop ends,
since each remainder is smaller than what it is divided by, and it never divides by zero; neither do
the two divisions by what it finds. The fraction is the same number afterwards, without a common
factor, and as long as its denominator is not zero it is the same part of every pot: rounding down
and cutting to thirty-two bits do not tell a fraction from a reduced one.
-/

set_option autoImplicit false

namespace Holdem

namespace PotFraction

variable {f : PotFraction}

/-! ## Lowest terms -/

/-- A fraction that is not zero over zero has a common divisor to reduce by. -/
theorem gcd_pos (proper : f.numer ≠ 0 ∨ f.denom ≠ 0) : 0 < Nat.gcd f.numer f.denom := by
  rcases proper with numer | denom
  · exact Nat.gcd_pos_of_pos_left _ (Nat.pos_of_ne_zero numer)
  · exact Nat.gcd_pos_of_pos_right _ (Nat.pos_of_ne_zero denom)

/-- Reducing divides numerator and denominator by their greatest common divisor. -/
theorem reduce_eq (proper : f.numer ≠ 0 ∨ f.denom ≠ 0) :
    f.reduce = ⟨f.numer / Nat.gcd f.numer f.denom, f.denom / Nat.gcd f.numer f.denom⟩ := by
  rw [reduce, Nat.max_eq_left (gcd_pos proper)]

/-- Zero over zero has nothing to be divided by and stays as it is. -/
theorem reduce_improper (improper : f.numer = 0 ∧ f.denom = 0) : f.reduce = ⟨0, 0⟩ := by
  simp [reduce, improper]

/-- A reduced fraction is the same number. -/
theorem numer_mul_reduce_denom (f : PotFraction) :
    f.numer * f.reduce.denom = f.reduce.numer * f.denom := by
  by_cases improper : f.numer = 0 ∧ f.denom = 0
  · simp [reduce_improper improper, improper]
  · rw [reduce_eq (by omega)]
    show f.numer * (f.denom / _) = f.numer / _ * f.denom
    rw [← Nat.mul_div_assoc _ (Nat.gcd_dvd_right _ _),
      Nat.div_mul_right_comm (Nat.gcd_dvd_left _ _)]

/-- A reduced fraction is in lowest terms. -/
theorem coprime_reduce (proper : f.numer ≠ 0 ∨ f.denom ≠ 0) :
    Nat.Coprime f.reduce.numer f.reduce.denom := by
  rw [reduce_eq proper]
  exact Nat.coprime_div_gcd_div_gcd (gcd_pos proper)

/-- A reduced fraction is the same part of every pot. -/
theorem of_reduce (proper : f.denom ≠ 0) (pot : Chips) : f.reduce.of pot = f.of pot := by
  have pos := gcd_pos (.inr proper)
  obtain ⟨n, numer⟩ := Nat.gcd_dvd_left f.numer f.denom
  obtain ⟨d, denom⟩ := Nat.gcd_dvd_right f.numer f.denom
  have lowest : f.reduce = ⟨n, d⟩ := by
    rw [reduce_eq (.inr proper)]
    congr 1
    · exact Nat.div_eq_of_eq_mul_right pos numer
    · exact Nat.div_eq_of_eq_mul_right pos denom
  have some : d ≠ 0 := by
    rintro rfl
    exact proper (denom.trans (Nat.mul_zero _))
  have quotient : pot * f.numer / f.denom = pot * n / d := by
    calc pot * f.numer / f.denom
        = Nat.gcd f.numer f.denom * (pot * n) / (Nat.gcd f.numer f.denom * d) := by
          rw [← denom, Nat.mul_left_comm, ← numer]
      _ = pot * n / d := Nat.mul_div_mul_left _ _ pos
  rw [lowest, of, of, Nat.max_eq_left (Nat.pos_of_ne_zero some),
    Nat.max_eq_left (Nat.pos_of_ne_zero proper), quotient]

/-! ## Words of thirty-two bits -/

/-- The quotient of two words; there is none by zero. -/
def quotient? (a b : UInt32) : Option UInt32 := if b = 0 then none else some (a / b)

/-- A word that is not zero is no zero number. -/
theorem toNat_ne_zero {a : UInt32} (nonzero : a ≠ 0) : a.toNat ≠ 0 :=
  fun zero => nonzero (UInt32.toNat.inj zero)

/-- The remainder of two words, which is smaller than the second; there is none by zero. -/
def remainder? (a b : UInt32) : Option {r : UInt32 // r.toNat < b.toNat} :=
  if nonzero : b = 0 then none
  else some ⟨a % b, by
    rw [UInt32.toNat_mod]
    exact Nat.mod_lt _ (Nat.pos_of_ne_zero (toNat_ne_zero nonzero))⟩

/-- Euclid's algorithm: as long as the second number is not zero it takes the place of the first,
and the remainder takes its place. -/
def euclid? (a b : UInt32) : Option UInt32 :=
  if b = 0 then some a
  else
    match remainder? a b with
    | none => none
    | some r => euclid? b r.val
termination_by b.toNat
decreasing_by exact r.property

/-- The fraction of two words in lowest terms. -/
def reduceWords? (a b : UInt32) : Option (UInt32 × UInt32) := do
  let g := max (← euclid? a b) 1
  return (← quotient? a g, ← quotient? b g)

/-- The fraction of two words of a pot: rounded down in sixty-four bits and cut to thirty-two. -/
def ofWords (a b pot : UInt32) : UInt32 :=
  (pot.toUInt64 * a.toUInt64 / (max b 1).toUInt64).toUInt32

/-- The loop ends, without a division by zero, in the greatest common divisor. -/
theorem exists_euclid? (a b : UInt32) :
    ∃ g, euclid? a b = some g ∧ g.toNat = Nat.gcd a.toNat b.toNat := by
  fun_induction euclid? a b with
  | case1 a => exact ⟨a, rfl, (Nat.gcd_zero_right _).symm⟩
  | case2 a b nonzero undivided => simp [remainder?, nonzero] at undivided
  | case3 a b nonzero r divided ih =>
    obtain ⟨g, ended, found⟩ := ih
    have remainder : r.val = a % b := by
      rw [remainder?, dif_neg nonzero] at divided
      exact congrArg Subtype.val (Option.some.inj divided).symm
    refine ⟨g, ended, ?_⟩
    rw [found, remainder, UInt32.toNat_mod, Nat.gcd_comm, ← Nat.gcd_rec, Nat.gcd_comm]

/-- The larger of two words is the larger of their numbers. -/
theorem toNat_max (a b : UInt32) : (max a b).toNat = max a.toNat b.toNat := by
  show (if a ≤ b then b else a).toNat = _
  split
  · next less => exact (Nat.max_eq_right (UInt32.le_iff_toNat_le.1 less)).symm
  · next more =>
    have less : b.toNat ≤ a.toNat := Nat.le_of_not_le (fun le => more (UInt32.le_iff_toNat_le.2 le))
    exact (Nat.max_eq_left less).symm

/-- Reducing words comes to an end, in the words of the reduced fraction. -/
theorem exists_reduceWords? (a b : UInt32) : ∃ n d, reduceWords? a b = some (n, d) ∧
    reduce ⟨a.toNat, b.toNat⟩ = ⟨n.toNat, d.toNat⟩ := by
  obtain ⟨g, ended, found⟩ := exists_euclid? a b
  have divisor : (max g 1).toNat = max (Nat.gcd a.toNat b.toNat) 1 := by
    rw [toNat_max, found]
    rfl
  have nonzero : ¬ max g 1 = 0 := by
    intro zero
    rw [zero] at divisor
    have least := Nat.le_max_right (Nat.gcd a.toNat b.toNat) 1
    rw [← divisor] at least
    exact absurd least (by decide)
  refine ⟨a / max g 1, b / max g 1, ?_, ?_⟩
  · simp [reduceWords?, ended, quotient?, nonzero]
  · rw [UInt32.toNat_div, UInt32.toNat_div, divisor, reduce]

/-- The product of the pot and the numerator fits in sixty-four bits. -/
theorem toNat_product (a pot : UInt32) :
    (pot.toUInt64 * a.toUInt64).toNat = pot.toNat * a.toNat := by
  have least : pot.toNat * a.toNat ≤ (2 ^ 32 - 1) * (2 ^ 32 - 1) :=
    Nat.mul_le_mul (by have := pot.toNat_lt; omega) (by have := a.toNat_lt; omega)
  rw [UInt64.toNat_mul, UInt32.toNat_toUInt64, UInt32.toNat_toUInt64]
  exact Nat.mod_eq_of_lt (by omega)

/-- A size computed in words is the size computed in numbers. -/
theorem toNat_ofWords (a b pot : UInt32) :
    (ofWords a b pot).toNat = of ⟨a.toNat, b.toNat⟩ pot.toNat := by
  rw [ofWords, UInt64.toNat_toUInt32, UInt64.toNat_div, toNat_product, UInt32.toNat_toUInt64,
    toNat_max]
  rfl

/-- A fraction and its reduced form, both in words, have the same size of every pot. -/
theorem ofWords_reduce {a b n d : UInt32} (lowest : reduce ⟨a.toNat, b.toNat⟩ = ⟨n.toNat, d.toNat⟩)
    (proper : b ≠ 0) (pot : UInt32) : ofWords n d pot = ofWords a b pot := by
  apply UInt32.toNat.inj
  rw [toNat_ofWords, toNat_ofWords, ← lowest, of_reduce (toNat_ne_zero proper)]

/-- For all words `a` and `b`: reducing their fraction ends and divides by nothing but numbers other
than zero. It gives the same number without a common factor, and zero over zero for itself. If `b`
is not zero the reduced fraction is the same part of every pot, as words and as the amounts of chips
they stand for; no product with a pot is cut before it is divided. -/
theorem reduction_keeps_sizes (a b : UInt32) :
    ∃ n d, reduceWords? a b = some (n, d) ∧
      reduce ⟨a.toNat, b.toNat⟩ = ⟨n.toNat, d.toNat⟩ ∧
      a.toNat * d.toNat = n.toNat * b.toNat ∧
      (a = 0 ∧ b = 0 → n = 0 ∧ d = 0) ∧
      (a ≠ 0 ∨ b ≠ 0 → Nat.Coprime n.toNat d.toNat) ∧
      (b ≠ 0 → ∀ pot : UInt32, ofWords n d pot = ofWords a b pot ∧
        (reduce ⟨a.toNat, b.toNat⟩).of pot.toNat = of ⟨a.toNat, b.toNat⟩ pot.toNat) ∧
      ∀ x y pot : UInt32, (pot.toUInt64 * x.toUInt64).toNat = pot.toNat * x.toNat ∧
        (ofWords x y pot).toNat = of ⟨x.toNat, y.toNat⟩ pot.toNat := by
  obtain ⟨n, d, ended, lowest⟩ := exists_reduceWords? a b
  refine ⟨n, d, ended, lowest, ?_, ?_, ?_, ?_, ?_⟩
  · have same := numer_mul_reduce_denom ⟨a.toNat, b.toNat⟩
    rwa [lowest] at same
  · rintro ⟨rfl, rfl⟩
    rw [reduce_improper ⟨rfl, rfl⟩, PotFraction.mk.injEq] at lowest
    exact ⟨UInt32.toNat.inj lowest.1.symm, UInt32.toNat.inj lowest.2.symm⟩
  · intro proper
    have some : a.toNat ≠ 0 ∨ b.toNat ≠ 0 := proper.imp toNat_ne_zero toNat_ne_zero
    have coprime := coprime_reduce (f := ⟨a.toNat, b.toNat⟩) some
    rwa [lowest] at coprime
  · intro proper pot
    exact ⟨ofWords_reduce lowest proper pot, of_reduce (toNat_ne_zero proper) pot.toNat⟩
  · exact fun x y pot => ⟨toNat_product x pot, toNat_ofWords x y pot⟩

end PotFraction

end Holdem
