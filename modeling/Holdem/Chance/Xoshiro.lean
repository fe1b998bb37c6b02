import Holdem.Chance.Words

/-!
# The xoshiro256++ generator

The generator of the program's searches: 256 bits of state, seeded from one word by the splitmix64
sequence, so that a search with a given seed always draws the same words.
-/

set_option autoImplicit false

namespace Holdem

/-- The state of the generator. -/
structure Xoshiro where
  s0 : UInt64
  s1 : UInt64
  s2 : UInt64
  s3 : UInt64
  deriving DecidableEq, Repr

namespace Xoshiro

/-- A word turned left by `k` bits. -/
def rotate (x : UInt64) (k : UInt64) : UInt64 := (x <<< k) ||| (x >>> (64 - k))

/-- The word that splitmix64 draws from its state. -/
def mix (state : UInt64) : UInt64 :=
  let z := (state ^^^ (state >>> 30)) * 0xbf58476d1ce4e5b9
  let z := (z ^^^ (z >>> 27)) * 0x94d049bb133111eb
  z ^^^ (z >>> 31)

/-- The generator for a seed: four words drawn one after the other from splitmix64. -/
def ofSeed (seed : UInt64) : Xoshiro :=
  let gamma : UInt64 := 0x9e3779b97f4a7c15
  ⟨mix (seed + gamma), mix (seed + 2 * gamma), mix (seed + 3 * gamma), mix (seed + 4 * gamma)⟩

/-- The next word, and the state after it. -/
def step (g : Xoshiro) : UInt64 × Xoshiro :=
  let word := rotate (g.s0 + g.s3) 23 + g.s0
  let s2 := g.s2 ^^^ g.s0
  let s3 := g.s3 ^^^ g.s1
  let s1 := g.s1 ^^^ s2
  let s0 := g.s0 ^^^ s3
  (word, ⟨s0, s1, s2 ^^^ (g.s1 <<< 17), rotate s3 45⟩)

instance : SeededSource Xoshiro where
  next := step
  ofSeed := Xoshiro.ofSeed

end Xoshiro

end Holdem
