import Holdem.Proofs.Betting.Candidates

/-!
# Exact fractions of the pot

The size of a bet or raise is a fraction of the pot, rounded down and then cut to what fits in an
amount of chips. Where the fraction itself fits, the cut changes nothing. A larger one comes to some
other amount, which can be small enough to be paid: then the candidates have a size that is none of
the fractions. An exact size is never missing, since it leaves chips behind and so fits.
-/

set_option autoImplicit false

namespace Holdem

namespace PotFraction

variable {f : PotFraction} {pot : Chips}

/-- This fraction of a pot, rounded down, however large it is. -/
def floor (f : PotFraction) (pot : Chips) : Nat := pot * f.numer / f.denom

/-- A fraction of a pot is cut to the bits of an amount after it is rounded down. -/
theorem of_eq_mod (positive : f.isPositive = true) : f.of pot = f.floor pot % chipLimit := by
  rw [isPositive, Bool.and_eq_true] at positive
  have denom : max f.denom 1 = f.denom := Nat.max_eq_left (of_decide_eq_true positive.2)
  rw [of, denom, floor]

/-- A fraction that fits is not cut. -/
theorem of_eq_floor (positive : f.isPositive = true) (fits : f.floor pot < chipLimit) :
    f.of pot = f.floor pot := by
  rw [of_eq_mod positive, Nat.mod_eq_of_lt fits]

end PotFraction

namespace Sizing

variable {s : Sizing} {t : Table} {seat : Seat} {actions : List Action}
  {pot minimum deficit stack : Chips}

/-- Exact amounts that leave chips behind are not cut. -/
theorem amounts_floor_subset (positive : ∀ f ∈ s.grid, f.isPositive = true)
    (fits : stack < chipLimit) :
    s.amounts (·.floor pot) minimum deficit stack ⊆ s.amounts (·.of pot) minimum deficit stack := by
  intro n mem
  obtain ⟨⟨f, inGrid, rfl⟩, leaves⟩ := mem_amounts_iff.1 mem
  have small : f.floor pot < chipLimit := by
    have least := Nat.le_max_left (f.floor pot) minimum
    lia
  refine mem_amounts_iff.2 ⟨⟨f, inGrid, ?_⟩, leaves⟩
  rw [PotFraction.of_eq_floor (positive f inGrid) small]

/-- The amounts are exact if each that leaves chips behind is an exact one. -/
theorem amounts_of_eq_floor_iff (positive : ∀ f ∈ s.grid, f.isPositive = true)
    (fits : stack < chipLimit) :
    s.amounts (·.of pot) minimum deficit stack = s.amounts (·.floor pot) minimum deficit stack ↔
      ∀ f ∈ s.grid, deficit + max (f.of pot) minimum < stack →
        max (f.of pot) minimum ∈ s.amounts (·.floor pot) minimum deficit stack := by
  constructor
  · intro same f inGrid leaves
    rw [← same]
    exact mem_amounts_iff.2 ⟨⟨f, inGrid, rfl⟩, leaves⟩
  · intro each
    refine Finset.Subset.antisymm (fun n mem => ?_) (amounts_floor_subset positive fits)
    obtain ⟨⟨f, inGrid, rfl⟩, leaves⟩ := mem_amounts_iff.1 mem
    exact each f inGrid leaves

/-- What the fractions of the pot after a call come to exactly: at least the minimum, as far as it
leaves chips behind. -/
def exactSizes (s : Sizing) (t : Table) (seat : Seat) : Finset Chips :=
  s.amounts (·.floor (t.previousPot + t.roundPot + t.deficit seat.player)) t.minimum
    (t.deficit seat.player) seat.stack

/-- The bets or raises among the candidates are by the sizes that are cut. -/
theorem filterMap_size?_candidates (acts : t.actor? = some seat) (opened : s.isOpen t = true)
    (listed : s.candidates t = .ok actions) :
    actions.filterMap Action.size? = (s.cutSizes t seat).sort (· ≤ ·) := by
  obtain ⟨-, rfl⟩ := (candidates_eq_ok_iff acts).1 listed
  rw [Table.filterMap_size?_listing, offered, if_pos opened]

/-- Where raises are open and the pot after a call fits, for every grid of positive fractions: the
amounts of the bets or raises among the candidates are what the fractions come to when they are cut,
and all exact sizes are among them. The candidates can be listed and their amounts are exactly the
exact sizes just if no fraction, once it is cut, either is no amount of chips beside what is lacking
or leaves chips behind without being an exact size. -/
theorem sizes_exact_iff (positive : ∀ f ∈ s.grid, f.isPositive = true)
    (acts : t.actor? = some seat) (opened : s.isOpen t = true)
    (room : t.previousPot + t.roundPot + t.deficit seat.player < 2 ^ 32)
    (stack : seat.stack < 2 ^ 32) :
    (∀ actions, s.candidates t = .ok actions →
      actions.filterMap Action.size? = (s.cutSizes t seat).sort (· ≤ ·)) ∧
    s.exactSizes t seat ⊆ s.cutSizes t seat ∧
    ((∃ actions, s.candidates t = .ok actions ∧
        actions.filterMap Action.size? = (s.exactSizes t seat).sort (· ≤ ·)) ↔
      ∀ f ∈ s.grid, ∀ n,
        n = max (f.of (t.previousPot + t.roundPot + t.deficit seat.player)) t.minimum →
        t.deficit seat.player + n < 2 ^ 32 ∧
          (t.deficit seat.player + n < seat.stack → n ∈ s.exactSizes t seat)) := by
  refine ⟨fun actions listed => filterMap_size?_candidates acts opened listed,
    amounts_floor_subset positive stack, ?_⟩
  have exact : s.cutSizes t seat = s.exactSizes t seat ↔ _ :=
    amounts_of_eq_floor_iff positive stack
  constructor
  · rintro ⟨actions, listed, sized⟩ f inGrid n rfl
    have fits := (exists_candidates_iff acts).1 ⟨actions, listed⟩
    rw [filterMap_size?_candidates acts opened listed] at sized
    have same := congrArg List.toFinset sized
    rw [Finset.sort_toFinset, Finset.sort_toFinset] at same
    exact ⟨(fits opened).2 f inGrid, exact.1 same f inGrid⟩
  · intro each
    obtain ⟨actions, listed⟩ := (exists_candidates_iff acts).2
      (fun _ => ⟨room, fun f inGrid => (each f inGrid _ rfl).1⟩)
    have same : s.cutSizes t seat = s.exactSizes t seat :=
      exact.2 (fun f inGrid => (each f inGrid _ rfl).2)
    exact ⟨actions, listed, same ▸ filterMap_size?_candidates acts opened listed⟩

/-- The usual sizes of a pot of nine chips: none is cut, and the exact sizes are the raises. -/
theorem sizes_exact_iff_headsUp : ∃ t seat actions, Table.ofSnapshot (.headsUp 5) = .ok t ∧
    t.actor? = some seat ∧ ({} : Sizing).exactSizes t seat = {2, 3, 4, 6} ∧
    ({} : Sizing).candidates t = .ok actions ∧
    actions.filterMap Action.size? = (({} : Sizing).exactSizes t seat).sort (· ≤ ·) := by
  have dealt : ∃ t seat, Table.ofSnapshot (.headsUp 5) = .ok t ∧ t.actor? = some seat ∧
      ({} : Sizing).isOpen t = true ∧ t.previousPot + t.roundPot + t.deficit seat.player = 9 ∧
      seat.stack = 9 ∧ t.deficit seat.player = 1 ∧ t.minimum = 2 :=
    ⟨_, _, rfl, rfl, rfl, rfl, rfl, rfl, rfl⟩
  obtain ⟨t, seat, start, acts, opened, pot, stack, owes, least⟩ := dealt
  have exact : ({} : Sizing).exactSizes t seat = {2, 3, 4, 6} := by
    rw [exactSizes, pot, stack, owes, least]
    decide
  obtain ⟨-, -, sizes⟩ := sizes_exact_iff (s := {}) (by decide) acts opened
    (by rw [pot]; decide) (by rw [stack]; decide)
  obtain ⟨actions, listed, sized⟩ := sizes.2 (by
    rintro f inGrid n rfl
    rw [exact, pot, stack, owes, least]
    revert f inGrid
    decide)
  exact ⟨t, seat, actions, start, acts, exact, listed, sized⟩

/-- Four times a pot of a quarter of all amounts is cut to nothing and lifted to the smallest raise,
which none of the exact sizes is. -/
theorem bogus_raise_headsUp : ∃ t seat, Table.ofSnapshot (.headsUp (2 ^ 30 - 4)) = .ok t ∧
    t.playAll [] = .ok t ∧ t.actor? = some seat ∧ t.mayRaise = true ∧
    (∀ f ∈ ({} : Sizing).grid, f.isPositive = true) ∧ t.raises < ({} : Sizing).maxRaises ∧
    t.previousPot + t.roundPot + t.deficit seat.player = 2 ^ 30 ∧ seat.stack = 9 ∧
    ({} : Sizing).exactSizes t seat = ∅ ∧
    ({} : Sizing).candidates t = .ok [.fold, .call 1, .raise 2, .shove 9] := by
  have dealt : ∃ t seat, Table.ofSnapshot (.headsUp (2 ^ 30 - 4)) = .ok t ∧
      t.playAll [] = .ok t ∧ t.actor? = some seat ∧ t.mayRaise = true ∧ t.raises = 0 ∧
      t.previousPot + t.roundPot + t.deficit seat.player = 2 ^ 30 ∧ seat.stack = 9 ∧
      t.deficit seat.player = 1 ∧ t.minimum = 2 ∧
      ({} : Sizing).candidates t = .ok [.fold, .call 1, .raise 2, .shove 9] :=
    ⟨_, _, rfl, rfl, rfl, rfl, rfl, rfl, rfl, rfl, rfl, rfl⟩
  obtain ⟨t, seat, start, played, acts, may, raises, pot, stack, owes, least, listed⟩ := dealt
  refine ⟨t, seat, start, played, acts, may, by decide, by rw [raises]; decide, pot, stack, ?_,
    listed⟩
  rw [exactSizes, pot, stack, owes, least]
  decide

end Sizing

end Holdem
