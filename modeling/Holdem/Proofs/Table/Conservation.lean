import Holdem.Proofs.Table.Refinement

/-!
# Chips are conserved

Whatever happens at a table, its chips only move between the stacks and the pot, and the pot of the
round is what lies before the seats. The whole pot is an amount of chips only as long as it fits.
-/

set_option autoImplicit false

namespace Holdem

namespace Table

variable {t : Table} {f : Flat}

/-- At every table of every run from an accepted snapshot, the pots and the stacks add up to what
they were at the start, the pot of the round is the sum of all stakes, and the pot is the pot of
the earlier rounds and that sum, or a fault if it does not fit. -/
theorem chips_conserved {s : Snapshot} {t₀ t : Table} {events : List Event}
    (start : Table.ofSnapshot s = .ok t₀) (ran : t₀.run events = .ok t) :
    ∃ seats, t.seats = .ok seats ∧
      t.previousPot + t.roundPot + (seats.map Seat.stack).sum =
        s.pot + (s.seats.map Seat.stake).sum + (s.seats.map Seat.stack).sum ∧
      t.roundPot = (seats.map Seat.stake).sum ∧
      t.pot =
        if t.previousPot + (seats.map Seat.stake).sum < chipLimit then
          .ok (t.previousPot + (seats.map Seat.stake).sum)
        else .error (.fault .addOverflow) := by
  obtain ⟨shows₀, sound₀⟩ := ofSnapshot_shows start
  obtain ⟨f, flatRan, shown, sound⟩ := (shows₀.run_agrees sound₀ events).exists_some ran
  have answers := shown.answers sound
  refine ⟨f.seats, answers.seats, ?_, answers.roundPot, ?_⟩
  · rw [answers.previousPot, answers.roundPot]
    exact Flat.total_run sound₀ flatRan
  · rw [answers.pot, answers.previousPot]
    rfl

/-- Both players see the flop, and the blinds are in the pot. -/
theorem chips_conserved_headsUp : ∃ t₀ t seats,
    Table.ofSnapshot (.headsUp 5) = .ok t₀ ∧
      t₀.run [.move ⟨0⟩ .call, .turn ⟨1⟩, .move ⟨1⟩ .check, .round .flop Hand.empty] = .ok t ∧
      t.seats = .ok seats ∧ t.previousPot + t.roundPot + (seats.map Seat.stack).sum = 25 := by
  have dealt : ∃ t₀ t, Table.ofSnapshot (.headsUp 5) = .ok t₀ ∧
      t₀.run [.move ⟨0⟩ .call, .turn ⟨1⟩, .move ⟨1⟩ .check, .round .flop Hand.empty] = .ok t :=
    ⟨_, _, rfl, rfl⟩
  obtain ⟨t₀, t, start, ran⟩ := dealt
  obtain ⟨seats, found, total, _⟩ := chips_conserved start ran
  exact ⟨t₀, t, seats, start, ran, found, total⟩

/-- The pot of an accepted snapshot need not be an amount of chips: here it does not fit. -/
theorem pot_overflows : ∃ t₀ t seats,
    Table.ofSnapshot (.headsUp (2 ^ 32 - 1)) = .ok t₀ ∧ t₀.run [] = .ok t ∧ t.seats = .ok seats ∧
      t.pot = .error (.fault .addOverflow) ∧
      t.pot ≠ .ok (t.previousPot + (seats.map Seat.stake).sum) := by
  refine ⟨_, _, _, rfl, rfl, rfl, rfl, ?_⟩
  intro fits
  cases fits

end Table

end Holdem
