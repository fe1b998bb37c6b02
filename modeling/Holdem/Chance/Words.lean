import Holdem.Failure
import Holdem.Scalar

/-!
# Random words

All chance in the library comes from a stream of 64-bit words. Nothing here knows which generator
made the words: a choice below a bound and a number between zero and one are computed from words
alone, so what is said about them holds of every stream. A search has to start a stream from each of
its seeds; only the program says with which generator.
-/

set_option autoImplicit false

namespace Holdem

/-- A generator of a stream of words. -/
class WordSource (σ : Type) where
  /-- The next word, and the generator of the words after it. -/
  next : σ → UInt64 × σ

/-- A generator that can be started from a seed. -/
class SeededSource (σ : Type) extends WordSource σ where
  /-- The generator at its start from a seed. -/
  ofSeed : UInt64 → σ

/-- A computation that draws words and may fail. -/
abbrev Random (σ : Type) := StateT σ Outcome

namespace Random

variable {σ : Type} [WordSource σ]

/-- The next word. -/
def word : Random σ UInt64 := fun g => .ok (WordSource.next g)

/-- The upper half of the next word. -/
def halfWord : Random σ Nat := do
  return (← word).toNat / Nat.pow 2 32

/-- A number from zero up to, and without, one: the upper fifty-three bits of the next word as a
binary fraction. -/
def unit {α : Type} [Scalar α] : Random σ α := do
  return Scalar.ratio ((← word).toNat / Nat.pow 2 11) (Nat.pow 2 53)

/-- A whole number below a bound of at most thirty-two bits: a half word is scaled to the bound,
and where the fraction cut off leaves the answer open, a second half word refines it. -/
def below (n : Nat) : Random σ Nat := do
  let scaled := (← halfWord) * n
  let whole := scaled / Nat.pow 2 32
  let fraction := scaled % Nat.pow 2 32
  if Nat.pow 2 32 - n < fraction then
    let finer := (← halfWord) * n / Nat.pow 2 32
    return if Nat.pow 2 32 ≤ fraction + finer then whole + 1 else whole
  else return whole

end Random

end Holdem
