import Holdem.Proofs.Flat.Rounds
import Holdem.Proofs.Table.Simulation

/-!
# Tables refine flat tables

Whoever only asks questions cannot tell a table from the flat table of the same snapshot after the
same events: both accept the same events, and after them every answer is the same.
-/

set_option autoImplicit false

namespace Holdem

namespace Table

variable {t t₀ : Table} {f : Flat} {s : Snapshot} {p : Player}

/-- The table answers every question as the seats of the flat table do. -/
structure Answers (t : Table) (f : Flat) : Prop where
  seat : ∀ seat ∈ f.seats, t.seat seat.player = .ok seat
  stranger : ∀ p, p ∉ f.seats.map Seat.player →
    t.seat p = .error (.defect (.unknownPlayer p))
  seats : t.seats = .ok f.seats
  distinct : (f.seats.map Seat.player).Nodup
  stake : ∀ seat ∈ f.seats, t.stake seat.player = seat.stake
  deficit : ∀ seat ∈ f.seats, t.deficit seat.player = f.largest - seat.stake
  isActive : ∀ seat ∈ f.seats, t.isActive seat.player = seat.isActive
  isActionable : ∀ seat ∈ f.seats, t.isActionable seat.player = seat.isActionable
  hasActed : ∀ p, t.hasActed p = decide (p ∈ f.acted)
  position? : ∀ p, t.position? p = f.seats.findIdx? (fun seat => seat.player == p)
  /-- The row at each place is that of the seat at the place. -/
  rows : t.ledger.rows = f.seats.map f.row
  activeCount : t.activeCount = f.activeCount
  actionableCount : t.actionableCount = f.liveCount
  nextAfter : ∀ seat ∈ f.seats, t.nextAfter seat.player = f.nextAfter seat.player
  isRoundOver : t.isRoundOver = f.isRoundOver
  isHandOver : t.isHandOver = f.isHandOver
  street : t.street = f.street
  board : t.board = f.board
  previousPot : t.previousPot = f.carried
  roundPot : t.roundPot = f.staked
  pot : t.pot = addChips f.carried f.staked
  largestBet : t.largestBet = f.largest
  minRaise : t.minRaise = f.minRaise
  raises : t.raises = f.raises
  lastBettor : t.lastBettor = f.bettor
  nextToAct : t.nextToAct = f.next
  next_actionable : ∀ p ∈ t.nextToAct,
    ∃ seat, t.seat p = .ok seat ∧ seat.isActionable = true

/-- The table's mask says who has acted as the set of the flat account does. -/
theorem Shows.hasActed_eq (h : t.Shows f) (sound : f.Sound) (p : Player) :
    t.hasActed p = decide (p ∈ f.acted) := by
  rw [hasActed, h.ledger, Flat.row?_ledger]
  cases found : f.seat? p with
  | none =>
    have stranger := Flat.seat?_eq_none_iff.1 found
    have idle : p ∉ f.acted := fun acted => stranger (sound.acted_seated p acted)
    simp [idle]
  | some seat =>
    obtain ⟨_, rfl⟩ := Flat.mem_of_seat? found
    rfl

/-- A table answers as the flat table that it shows. -/
theorem Shows.answers (h : t.Shows f) (sound : f.Sound) : t.Answers f := by
  have row : ∀ seat ∈ f.seats, t.ledger.row? seat.player = some (f.row seat) := by
    intro seat mem
    rw [h.ledger, Flat.row?_ledger, Flat.seat?_of_mem sound.distinct mem]
    rfl
  refine {
    seat := fun seat mem => h.seat_eq (Flat.seat?_of_mem sound.distinct mem)
    stranger := fun p absent => h.seat_stranger (Flat.seat?_eq_none_iff.2 absent)
    seats := h.seats_eq sound
    distinct := sound.distinct
    stake := ?stake
    deficit := fun seat mem => h.deficit_eq (Flat.seat?_of_mem sound.distinct mem)
    isActive := ?isActive
    isActionable := ?isActionable
    hasActed := h.hasActed_eq sound
    position? := ?position
    rows := by rw [h.ledger, Flat.ledger]
    activeCount := by rw [activeCount, h.ledger, Flat.activeCount_ledger]
    actionableCount := by rw [actionableCount, h.ledger, Flat.liveCount_ledger]
    nextAfter := ?nextAfter
    isRoundOver := by rw [isRoundOver, h.ledger, Flat.isRoundOver_ledger]
    isHandOver := by rw [isHandOver, h.ledger, Flat.isHandOver_ledger]
    street := by rw [street, h.ledger, Flat.ledger]
    board := by rw [board, h.ledger, Flat.ledger]
    previousPot := by rw [previousPot, h.ledger, Flat.ledger]
    roundPot := by rw [roundPot, h.ledger, Flat.ledger]
    pot := by rw [pot, previousPot, roundPot, h.ledger, Flat.ledger]
    largestBet := by rw [largestBet, h.ledger, Flat.ledger]
    minRaise := by rw [minRaise, h.ledger, Flat.ledger]
    raises := by rw [raises, h.ledger, Flat.ledger]
    lastBettor := by rw [lastBettor, h.ledger, Flat.ledger]
    nextToAct := by rw [nextToAct, h.ledger, Flat.ledger]
    next_actionable := ?next }
  case stake =>
    intro seat mem
    rw [stake, row seat mem]
    rfl
  case isActive =>
    intro seat mem
    rw [isActive, row seat mem]
    rfl
  case isActionable =>
    intro seat mem
    rw [isActionable, row seat mem]
    rfl
  case position =>
    intro p
    rw [position?, h.ledger, Flat.ledger, List.findIdx?_map]
    rfl
  case nextAfter =>
    intro seat mem
    rw [nextAfter, h.ledger, Flat.nextAfter_ledger sound mem]
  case next =>
    intro p due
    rw [nextToAct, h.ledger, Flat.ledger] at due
    obtain ⟨seat, found, live⟩ := sound.next_actionable p due
    exact ⟨seat, h.seat_eq found, live⟩

/-- From every accepted snapshot, whatever the events: the table accepts them exactly when the flat
table does; then it answers every question as the flat table does, and accepts the same events
again. -/
theorem run_refines_flat {s : Snapshot} {t₀ : Table} (start : Table.ofSnapshot s = .ok t₀)
    (events : List Event) :
    Outcome.Agrees
      (fun t f => t.Answers f ∧ ∀ e, (∃ t', t.apply e = .ok t') ↔ ∃ f', f.apply e = some f')
      (t₀.run events) ((Flat.ofSnapshot s).run events) := by
  obtain ⟨shows₀, sound₀⟩ := ofSnapshot_shows start
  apply (shows₀.run_agrees sound₀ events).mono
  rintro t f ⟨shown, sound⟩
  exact ⟨shown.answers sound, fun e => (shown.apply_agrees sound e).exists_ok_iff⟩

/-- A run to the flop, which both tables accept and then answer alike. -/
theorem run_refines_flat_headsUp : ∃ t₀ t f, Table.ofSnapshot (.headsUp 5) = .ok t₀ ∧
    t₀.run [.move ⟨0⟩ .call, .turn ⟨1⟩, .move ⟨1⟩ .check, .round .flop Hand.empty] = .ok t ∧
    (Flat.ofSnapshot (.headsUp 5)).run
      [.move ⟨0⟩ .call, .turn ⟨1⟩, .move ⟨1⟩ .check, .round .flop Hand.empty] = some f ∧
    t.Answers f := by
  have dealt : ∃ t₀ t, Table.ofSnapshot (.headsUp 5) = .ok t₀ ∧
      t₀.run [.move ⟨0⟩ .call, .turn ⟨1⟩, .move ⟨1⟩ .check, .round .flop Hand.empty] = .ok t :=
    ⟨_, _, rfl, rfl⟩
  obtain ⟨t₀, t, start, ran⟩ := dealt
  obtain ⟨f, flatRan, answers, _⟩ := (run_refines_flat start _).exists_some ran
  exact ⟨t₀, t, f, start, ran, flatRan, answers⟩

end Table

end Holdem
