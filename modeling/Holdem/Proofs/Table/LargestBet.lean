import Holdem.Proofs.Flat.Standing
import Holdem.Proofs.Table.Refinement

/-!
# The largest bet and the stakes

The largest bet is kept as a running maximum: a bet above it becomes the largest, and it stays when
the player who made it folds. The start takes it from the seats that compete. So it is at least
every stake except those that came with a seat that did not compete at the start, and it is at least
these too once a round has begun.
-/

set_option autoImplicit false

namespace Holdem

namespace Flat

variable {f f' : Flat} {e : Event} {events : List Event}

/-- The largest bet is at least the stakes of some players. -/
def Covers (f : Flat) (E : Player → Prop) : Prop := ∀ seat ∈ f.seats, E seat.player →
  seat.stake ≤ f.largest

/-- A new round begins without stakes, all of them covered. -/
theorem covers_begin (f : Flat) (street : Street) (board : Board) (E : Player → Prop) :
    (f.begin street board).Covers E := by
  intro seat mem _
  obtain ⟨old, _, rfl⟩ := List.mem_map.1 mem
  exact Nat.le_refl 0

/-- Whose stakes the largest bet covers, it covers after every event. -/
theorem Covers.apply {E : Player → Prop} (covers : f.Covers E) (applied : f.apply e = some f') :
    f'.Covers E := by
  cases e with
  | move p m =>
    obtain ⟨own, due, _, moved⟩ := applyMove_cases applied
    have mem := (mem_of_seat? (due?_eq_some_iff.1 due).1).1
    rcases moved with ⟨_, rfl⟩ | ⟨_, rfl⟩ | ⟨_, _, put⟩
    · exact covers
    · intro seat inSeats chosen
      rcases mem_of_mem_replace inSeats with rfl | ⟨inOld, _⟩
      · exact covers own mem chosen
      · exact covers seat inOld chosen
    · obtain ⟨_, ⟨matched, rfl⟩ | ⟨above, _, rfl⟩⟩ := put_cases put
      · intro seat inSeats chosen
        rcases mem_of_mem_replace inSeats with rfl | ⟨inOld, _⟩
        · exact matched
        · exact covers seat inOld chosen
      · -- the new largest bet is the new stake and exceeds the old largest bet
        intro seat inSeats chosen
        rcases mem_of_mem_replace inSeats with rfl | ⟨inOld, _⟩
        · exact Nat.le_refl _
        · exact (covers seat inOld chosen).trans (Nat.le_of_lt above)
  | turn p =>
    obtain ⟨_, _, _, rfl⟩ := applyTurn_cases applied
    exact covers
  | round street cards =>
    obtain ⟨_, _, board, _, _, rfl⟩ := applyRound_cases applied
    exact covers_begin f street board E

/-- What is covered stays covered along a run. -/
theorem Covers.run {E : Player → Prop} (covers : f.Covers E) (sound : f.Sound)
    (ran : f.run events = some f') : f'.Covers E :=
  (run_invariant (P := fun g => g.Covers E) (fun _ _ _ _ before applied => before.apply applied)
    sound covers ran).2

/-- Once a round has begun the largest bet covers all stakes. -/
theorem covers_of_round (sound : f.Sound) (ran : f.run events = some f')
    (begun : events.any Event.isRound = true) : f'.Covers (fun _ => True) := by
  induction events generalizing f with
  | nil => cases begun
  | cons e events ih =>
    rw [Flat.run, List.foldlM_cons] at ran
    obtain ⟨g, applied, rest⟩ := Option.bind_eq_some_iff.1 ran
    cases e with
    | round street cards =>
      obtain ⟨_, _, board, _, _, rfl⟩ := applyRound_cases applied
      exact (covers_begin f street board _).run (sound.apply applied) rest
    | move p m => exact ih (sound.apply applied) rest begun
    | turn p => exact ih (sound.apply applied) rest begun

/-- Before a round begins the largest bet covers all stakes exactly if it covers those of the seats
that did not compete at the start. -/
theorem covers_iff_of_no_round (sound : f.Sound) (ran : f.run events = some f')
    (none : events.any Event.isRound = false) : f'.Covers (fun _ => True) ↔
      ∀ seat ∈ f.seats, seat.isActive = false → seat.stake ≤ f'.largest := by
  have sound' := sound.run ran
  -- a seat that did not compete at the start is the same after the run
  have same : ∀ seat ∈ f.seats, seat.isActive = false → seat ∈ f'.seats := by
    intro seat mem inactive
    have idle : seat.isActionable = false := by
      by_contra live
      rw [Seat.isActive_of_isActionable (by simpa using live)] at inactive
      cases inactive
    have after := seat?_run_of_idle sound ran (seat?_of_mem sound.distinct mem) idle
    rw [Seat.passed, none] at after
    exact (mem_of_seat? after).1
  constructor
  · intro covers seat mem inactive
    exact covers seat (same seat mem inactive) trivial
  · intro apart seat mem _
    have start : f.Covers (fun p => f.competes p = true) := by
      intro old inOld competing
      rw [competes, seat?_of_mem sound.distinct inOld] at competing
      exact sound.stake_le old inOld competing
    cases competing : f.competes seat.player with
    | true => exact start.run sound ran seat mem competing
    | false =>
      obtain ⟨old, found, _⟩ :=
        (seatsFollow_run sound ran).exists_seat? (seat?_of_mem sound'.distinct mem)
      obtain ⟨inOld, own⟩ := mem_of_seat? found
      rw [competes, found] at competing
      obtain rfl := eq_of_player_eq sound'.distinct mem (same old inOld competing) own
      exact apart old inOld competing

end Flat

namespace Table

variable {t : Table} {f : Flat}

/-- The largest bet is at least every stake at the table. -/
def Dominates (t : Table) : Prop :=
  ∃ seats, t.seats = .ok seats ∧ ∀ seat ∈ seats, seat.stake ≤ t.largestBet

/-- The table's largest bet dominates exactly when it covers every stake in the flat account. -/
theorem Shows.dominates_iff (h : t.Shows f) (sound : f.Sound) :
    t.Dominates ↔ f.Covers (fun _ => True) := by
  have answers := h.answers sound
  rw [Dominates, answers.seats, answers.largestBet]
  constructor
  · rintro ⟨_, same, all⟩ seat mem _
    obtain rfl := Except.ok.inj same
    exact all seat mem
  · intro covers
    exact ⟨_, rfl, fun seat mem => covers seat mem trivial⟩

/-- The largest bet of a table of a run from an accepted snapshot is at least every stake exactly if
a round has begun, or it is at least the stakes of the seats that did not compete in the snapshot.
It is so at all tables of all runs exactly if it is so at the start, where it is the largest stake
of those that compete. -/
theorem largestBet_dominates_iff {s : Snapshot} {t₀ : Table}
    (start : Table.ofSnapshot s = .ok t₀) :
    (∀ events t, t₀.run events = .ok t → (t.Dominates ↔ events.any Event.isRound = true ∨
      ∀ seat ∈ s.seats, seat.isActive = false → seat.stake ≤ t.largestBet)) ∧
    ((∀ events t, t₀.run events = .ok t → t.Dominates) ↔
      ∀ seat ∈ s.seats, seat.isActive = false → seat.stake ≤ s.topStakes.1) := by
  obtain ⟨shows₀, sound₀⟩ := ofSnapshot_shows start
  have each : ∀ events t, t₀.run events = .ok t → (t.Dominates ↔
      events.any Event.isRound = true ∨
        ∀ seat ∈ s.seats, seat.isActive = false → seat.stake ≤ t.largestBet) := by
    intro events t ran
    obtain ⟨f, flatRan, h, sound⟩ := (shows₀.run_agrees sound₀ events).exists_some ran
    rw [h.dominates_iff sound, (h.answers sound).largestBet]
    cases begun : events.any Event.isRound with
    | true => exact iff_of_true (Flat.covers_of_round sound₀ flatRan begun) (Or.inl rfl)
    | false =>
      rw [or_iff_right Bool.false_ne_true]
      exact Flat.covers_iff_of_no_round sound₀ flatRan begun
  refine ⟨each, fun always => ?_, fun apart events t ran => ?_⟩
  · have first := (each [] t₀ rfl).1 (always [] t₀ rfl)
    rw [(shows₀.answers sound₀).largestBet] at first
    exact first.resolve_left (by simp)
  · obtain ⟨f, flatRan, h, sound⟩ := (shows₀.run_agrees sound₀ events).exists_some ran
    have covers : (Flat.ofSnapshot s).Covers (fun _ => True) := by
      intro seat mem _
      cases active : seat.isActive with
      | true => exact sound₀.stake_le seat mem active
      | false => exact apart seat mem active
    exact (h.dominates_iff sound).2 (covers.run sound₀ flatRan)

/-- Two players with blinds and nobody else: whatever they do, the largest bet is at least both
stakes. -/
theorem largestBet_dominates_headsUp : ∃ t₀ t, Table.ofSnapshot (.headsUp 5) = .ok t₀ ∧
    t₀.run [.move ⟨0⟩ (.raise 3), .turn ⟨1⟩, .move ⟨1⟩ .fold] = .ok t ∧ t.largestBet = 5 ∧
    t.Dominates := by
  have dealt : ∃ t₀ t, Table.ofSnapshot (.headsUp 5) = .ok t₀ ∧
      t₀.run [.move ⟨0⟩ (.raise 3), .turn ⟨1⟩, .move ⟨1⟩ .fold] = .ok t ∧ t.largestBet = 5 :=
    ⟨_, _, rfl, rfl, rfl⟩
  obtain ⟨t₀, t, start, ran, largest⟩ := dealt
  exact ⟨t₀, t, start, ran, largest,
    (largestBet_dominates_iff start).2.2 (by decide) _ t ran⟩

/-- A player has folded after putting in more than the others, who answer the lower bet. -/
theorem folded_stake_above : ∃ (s : Snapshot) (t : Table) (seat : Seat),
    Table.ofSnapshot s = .ok t ∧ t.run [] = .ok t ∧ t.seat ⟨2⟩ = .ok seat ∧
      seat.status = .folded ∧ seat.stake = 6 ∧ t.largestBet = 2 ∧ ¬ t.Dominates := by
  refine ⟨{
    seats := [
      { player := ⟨0⟩, stack := 100, stake := 1 },
      { player := ⟨1⟩, stack := 100, stake := 2 },
      { player := ⟨2⟩, stack := 50, stake := 6, status := .folded }]
    next := some ⟨0⟩ }, _, _, rfl, rfl, rfl, rfl, rfl, rfl, ?_⟩
  rintro ⟨_, same, all⟩
  obtain rfl := Except.ok.inj same
  exact absurd (all _ (List.mem_cons_of_mem _ (List.mem_cons_of_mem _ List.mem_cons_self)))
    (by decide)

end Table

end Holdem
