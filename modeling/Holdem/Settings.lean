import Holdem.Betting.Sizing
import Holdem.Search.Sampling
import Holdem.Search.Showdown

/-!
# Settings of a search

The settings say how much a search looks at: the actions it considers, how it draws among them, and
how it estimates showdowns. Every setting has a usual value.
-/

set_option autoImplicit false

namespace Holdem

/-- The settings of a search. -/
structure Settings where
  /-- Trials for each showdown. -/
  trials : Nat := 20
  /-- The most draws for one node. -/
  samples : Nat := 100
  split : Split := .proportional
  decisions : Decisions := .exhaustive
  /-- Sizes of bets and raises as fractions of the pot. -/
  sizes : List PotFraction := PotFraction.usual
  /-- Whether all in is a candidate whenever raising is. -/
  shove : Bool := true
  maxRaises : Nat := 4
  /-- The time for one decision, in milliseconds. -/
  deadline : Option Nat := none
  seed : Option UInt64 := none
  /-- Whether all unknown hands of a trial come from one deck. -/
  exclusiveOpponents : Bool := false
  /-- Whether a tie pays an equal share of the pot. -/
  splitPots : Bool := false
  /-- The search effort for one decision. -/
  tokens : Nat := 250
  deriving DecidableEq, Repr

namespace Settings

/-- Refuses settings under which no search can work. -/
def check (s : Settings) : Except SettingsError Unit := do
  if s.trials = 0 then throw .noTrials
  if s.samples = 0 then throw .noSamples
  if !s.sizes.all PotFraction.isPositive then throw .badSize

/-- The actions a search considers. -/
def sizing (s : Settings) : Sizing := ⟨s.sizes, s.shove, s.maxRaises⟩

/-- How a search draws among candidates. -/
def sampling (s : Settings) : Sampling := ⟨s.samples, s.split⟩

/-- How a search estimates showdowns. -/
def showdown (s : Settings) (judge : Judge) : Showdown :=
  ⟨judge, s.trials, s.exclusiveOpponents, s.splitPots⟩

/-- Whether the time for a decision is over before it starts. -/
def isExpired (s : Settings) : Bool := s.deadline == some 0

end Settings

end Holdem
