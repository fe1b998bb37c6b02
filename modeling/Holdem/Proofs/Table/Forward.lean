import Holdem.Proofs.Flat.Standing
import Holdem.Proofs.Table.Cards
import Holdem.Proofs.Table.Faults

/-!
# Runs move forward

Along a run streets, cards on the board and chips out of the stacks do not come back, and neither do
players who have stopped competing or deciding. Whoever has folded or is all in stays so: the seat
is not touched again but for its stake, which a round clears, and every event that names the player
is refused. The refusal of a turn names the pot, so it takes a pot that fits.
-/

set_option autoImplicit false

namespace Holdem

namespace Table

variable {t u v : Table} {f g : Flat} {p : Player} {seat : Seat} {e : Event} {events : List Event}

/-- What does not come back between two tables of a run. -/
structure Before (t u : Table) : Prop where
  street : t.street.index ≤ u.street.index
  board : ∀ c ∈ t.board.cards, c ∈ u.board.cards
  active : ∀ p, u.isActive p = true → t.isActive p = true
  actionable : ∀ p, u.isActionable p = true → t.isActionable p = true
  stack : ∀ p seat, t.seat p = .ok seat → ∃ seat', u.seat p = .ok seat' ∧ seat'.stack ≤ seat.stack

/-- The player stops competing between two tables. -/
def Leaves (t u : Table) (p : Player) : Prop := t.isActive p = true ∧ u.isActive p = false

/-- Every event that names the player is refused. -/
structure PassesOver (t : Table) (p : Player) : Prop where
  move : ∀ m, ∃ cause, t.apply (.move p m) = Outcome.illegal cause
  /-- The refusal names the pot, which has to fit. -/
  turn : t.apply (.turn p) =
    if t.previousPot + t.roundPot < chipLimit then
      Outcome.illegal (.outOfPlace (.turn p) t.street (t.previousPot + t.roundPot))
    else .error (.fault .addOverflow)

/-! ## One table -/

/-- The table says who competes as its flat account does. -/
theorem Shows.isActive_eq (h : t.Shows f) (p : Player) : t.isActive p = f.competes p := by
  rw [isActive, h.ledger, Flat.row?_ledger, Flat.competes]
  cases f.seat? p <;> rfl

/-- The table says who can act as its flat account does. -/
theorem Shows.isActionable_eq (h : t.Shows f) (p : Player) :
    t.isActionable p = (f.seat? p).any Seat.isActionable := by
  rw [isActionable, h.ledger, Flat.row?_ledger]
  cases f.seat? p <;> rfl

/-- The seat of a player is the one in the flat account. -/
theorem Shows.seat_eq_ok_iff (h : t.Shows f) : t.seat p = .ok seat ↔ f.seat? p = some seat := by
  cases found : f.seat? p with
  | none => simp [h.seat_stranger found]
  | some own => simp [h.seat_eq found]

/-- Whoever cannot decide may not act, whether it is somebody's turn or not. -/
theorem due_of_idle (found : t.seat p = .ok seat) (idle : seat.isActionable = false) :
    ∃ cause, t.due p = Outcome.illegal cause := by
  rw [due, found]
  cases t.nextToAct with
  | none => exact ⟨.cannotAct p seat.status, by simp [idle, Outcome.illegal, bind, Except.bind]⟩
  | some q =>
    by_cases same : q = p
    · exact ⟨.cannotAct p seat.status, by simp [same, idle, Outcome.illegal, bind, Except.bind]⟩
    · exact ⟨.outOfTurn p q, by simp [same, Outcome.illegal, bind, Except.bind]⟩

/-- A player who can no longer act is passed over by every event. -/
theorem Shows.passesOver (h : t.Shows f) (found : f.seat? p = some seat)
    (idle : seat.isActionable = false) : t.PassesOver p where
  move := by
    intro m
    obtain ⟨cause, refused⟩ := due_of_idle (h.seat_eq found) idle
    refine ⟨cause, ?_⟩
    show t.applyMove p m = _
    rw [applyMove, refused]
    rfl
  turn := by
    have refused : t.apply (.turn p) = t.outOfPlace (.turn p) := by
      show t.applyTurn p = _
      rw [applyTurn, h.ledger, Flat.row?_ledger, found]
      show (if seat.isActionable = true then _ else _) = _
      rw [if_neg (by simp [idle])]
    rw [refused]
    split
    · exact outOfPlace_eq ‹_› _
    · rw [outOfPlace, pot, addChips_eq_fault (Nat.le_of_not_lt ‹_›)]
      rfl

/-! ## Runs -/

/-- What does not come back along a run. -/
theorem Shows.before (h : t.Shows f) (sound : f.Sound) (shown : u.Shows g)
    (ran : f.run events = some g) : t.Before u where
  street := by
    have later := Flat.index_street_le_run sound ran
    rwa [street, street, h.ledger, shown.ledger]
  board := by
    intro c lies
    rw [Table.board, h.ledger] at lies
    rw [Table.board, shown.ledger]
    exact (Flat.mem_board_run ran c).2 (Or.inl lies)
  active := by
    intro p active
    rw [shown.isActive_eq] at active
    rw [h.isActive_eq]
    exact Flat.competes_of_run sound ran p active
  actionable := by
    intro p live
    rw [shown.isActionable_eq, Option.any_eq_true] at live
    obtain ⟨seat, found, live⟩ := live
    obtain ⟨old, before, follows⟩ := (Flat.seatsFollow_run sound ran).exists_seat? found
    rw [h.isActionable_eq, before]
    exact follows.actionable live
  stack := by
    intro p seat found
    obtain ⟨seat', after, follows⟩ :=
      (Flat.seatsFollow_run sound ran).exists_seat?_after (h.seat_eq_ok_iff.1 found)
    exact ⟨seat', shown.seat_eq after, follows.stack_le⟩

/-- Only a fold makes a player stop competing. -/
theorem Shows.eq_fold_of_leaves (h : t.Shows f) (sound : f.Sound) (applied : t.apply e = .ok u)
    (leaves : t.Leaves u p) : e = .move p .fold := by
  obtain ⟨g, step, shown⟩ := (h.apply_agrees sound e).exists_some applied
  obtain ⟨active, inactive⟩ := leaves
  rw [h.isActive_eq] at active
  rw [shown.isActive_eq, Flat.competes_apply sound step, active, Bool.true_and] at inactive
  simpa using inactive

/-- After a fold, or after going all in, a player cannot decide. -/
theorem Shows.idle_of_apply {m : Move} (h : t.Shows f) (sound : f.Sound)
    (applied : t.apply (.move p m) = .ok u) (last : m = .fold ∨ m = .allIn) :
    ∃ seat, u.seat p = .ok seat ∧ seat.isActionable = false := by
  obtain ⟨g, step, shown⟩ := (h.apply_agrees sound (.move p m)).exists_some applied
  obtain ⟨own, due, _⟩ := Flat.applyMove_cases step
  have found := (Flat.due?_eq_some_iff.1 due).1
  rcases Flat.seat?_apply sound step found with ⟨check, _⟩ | ⟨live, ⟨_, after⟩ |
    ⟨m', same, notFold, _, after⟩⟩
  · obtain rfl := check m rfl
    rcases last with same | same <;> cases same
  · exact ⟨own.fold, shown.seat_eq after, own.isActionable_fold⟩
  · obtain rfl := (Event.move.inj same).2
    obtain rfl := last.resolve_left notFold
    refine ⟨_, shown.seat_eq after, ?_⟩
    rw [Seat.isActionable_commit live]
    exact decide_eq_false (not_not.2 rfl)

/-- Of any two tables of a run from an accepted snapshot, the later one is on no earlier street, has
all the cards of the board and at most as many as its street, and five, allow; only those compete
and decide at it who did before, and no stack has grown. An event makes nobody stop competing but by
that player's own fold, and after a fold or an all-in the player cannot decide. A player who cannot
decide is passed over for good: the later seat is the same, its stake cleared if a round began in
between, and every event that names the player is refused, a turn as long as the pot fits. -/
theorem runs_move_forward {s : Snapshot} {t₀ : Table} {before after : List Event}
    (start : Table.ofSnapshot s = .ok t₀) (ran : t₀.run before = .ok t)
    (later : t.run after = .ok u) :
    t.Before u ∧ u.board.size ≤ u.street.boardSize ∧ u.board.size ≤ 5 ∧
      (∀ e v, u.apply e = .ok v →
        (∀ p, u.Leaves v p → e = .move p .fold) ∧ {p | u.Leaves v p}.Subsingleton) ∧
      (∀ p m v, u.apply (.move p m) = .ok v → m = .fold ∨ m = .allIn →
        ∃ seat, v.seat p = .ok seat ∧ seat.isActionable = false) ∧
      ∀ p seat, t.seat p = .ok seat → seat.isActionable = false →
        u.seat p = .ok (if after.any Event.isRound then seat.clearStake else seat) ∧
          u.PassesOver p := by
  obtain ⟨shows₀, sound₀⟩ := ofSnapshot_shows start
  obtain ⟨f, _, h, sound⟩ := (shows₀.run_agrees sound₀ before).exists_some ran
  obtain ⟨g, flatRan, shown, sound'⟩ := (h.run_agrees sound after).exists_some later
  have answers := shown.answers sound'
  refine ⟨h.before sound shown flatRan, ?_, u.board.atMostFive, fun e v applied => ?_,
    fun p m v applied => shown.idle_of_apply sound' applied, fun p seat found idle => ?_⟩
  · rw [answers.board, answers.street]
    exact sound'.board_le
  · have folds : ∀ p, u.Leaves v p → e = .move p .fold := fun p =>
      shown.eq_fold_of_leaves sound' applied
    refine ⟨folds, fun p leaves q leaves' => ?_⟩
    exact (Event.move.inj ((folds p leaves).symm.trans (folds q leaves'))).1
  · have passed := Flat.seat?_run_of_idle sound flatRan (h.seat_eq_ok_iff.1 found) idle
    exact ⟨shown.seat_eq passed, shown.passesOver passed (by rw [Seat.isActionable_passed, idle])⟩

/-- The first player folds before the flop and is passed over on the flop. -/
theorem runs_move_forward_headsUp : ∃ t₀ t u seat, Table.ofSnapshot (.headsUp 5) = .ok t₀ ∧
    t₀.run [.move ⟨0⟩ .fold] = .ok t ∧ t.seat ⟨0⟩ = .ok seat ∧ seat.stake = 1 ∧
    t.run [.round .flop Hand.empty] = .ok u ∧ u.seat ⟨0⟩ = .ok seat.clearStake ∧
    u.PassesOver ⟨0⟩ := by
  have dealt : ∃ t₀ t u seat, Table.ofSnapshot (.headsUp 5) = .ok t₀ ∧
      t₀.run [.move ⟨0⟩ .fold] = .ok t ∧ t.seat ⟨0⟩ = .ok seat ∧ seat.stake = 1 ∧
      seat.isActionable = false ∧ t.run [.round .flop Hand.empty] = .ok u :=
    ⟨_, _, _, _, rfl, rfl, rfl, rfl, rfl, rfl⟩
  obtain ⟨t₀, t, u, seat, start, ran, found, stake, idle, later⟩ := dealt
  obtain ⟨-, -, -, -, -, passed⟩ := runs_move_forward start ran later
  obtain ⟨same, refuses⟩ := passed _ _ found idle
  exact ⟨t₀, t, u, seat, start, ran, found, stake, later, same, refuses⟩

/-- With a pot that is no amount of chips the turn to a player who has folded is not refused: it is
a fault. -/
theorem turn_to_folded_faults : ∃ t₀ t seat,
    Table.ofSnapshot (.headsUp (2 ^ 32 - 1)) = .ok t₀ ∧ t₀.run [.move ⟨0⟩ .fold] = .ok t ∧
      t.seat ⟨0⟩ = .ok seat ∧ seat.status = .folded ∧
      t.apply (.turn ⟨0⟩) = .error (.fault .addOverflow) ∧
      ∀ cause, t.apply (.turn ⟨0⟩) ≠ .error (.defect cause) := by
  refine ⟨_, _, _, rfl, rfl, rfl, rfl, rfl, ?_⟩
  intro cause refused
  cases refused

end Table

end Holdem
