import Holdem.Proofs.Flat.Ledger
import Holdem.Table.Apply

/-!
# Tables behave like flat tables

A table shows a flat table if its newest ledger is that of the flat table and walking along its
chain finds the flat table's seats. One event keeps this: the table accepts it exactly when the
flat table does, and then shows the flat table after it. So does a run of events.
-/

set_option autoImplicit false

namespace Holdem

namespace Table

variable {t t' : Table} {f f' : Flat} {p : Player} {seat : Seat} {n : Chips}

/-- The table after some events, one after the other. -/
def run (t : Table) (events : List Event) : Outcome Table := events.foldlM apply t

/-- The table shows the flat table to whoever asks it. -/
structure Shows (t : Table) (f : Flat) : Prop where
  ledger : t.ledger = f.ledger
  /-- Walking along the chain finds the flat table's seats. -/
  walk : ∀ p, seatAlong p t.seated t.links = f.seat? p
  dealer : t.dealer = f.dealer
  bigBlind : t.bigBlind = f.bigBlind

/-! ## Seats and deficits -/

/-- The seat of a player is the flat account's. -/
theorem Shows.seat_eq (h : t.Shows f) (found : f.seat? p = some seat) : t.seat p = .ok seat := by
  rw [Table.seat, h.walk, found]

/-- A player who is not seated is unknown. -/
theorem Shows.seat_stranger (h : t.Shows f) (none : f.seat? p = none) :
    t.seat p = .error (.defect (.unknownPlayer p)) := by
  rw [Table.seat, h.walk, none]

/-- The seats are listed as in the flat account. -/
theorem Shows.seats_eq (h : t.Shows f) (sound : f.Sound) : t.seats = .ok f.seats := by
  have found : ∀ s ∈ f.seats, t.seat (f.row s).player = .ok s := by
    intro s mem
    exact h.seat_eq (Flat.seat?_of_mem sound.distinct mem)
  have all := mapM_eq_ok found
  rw [List.map_id'] at all
  rw [Table.seats, h.ledger, Flat.ledger, List.mapM_map]
  exact all

/-- A player lacks what the flat account says. -/
theorem Shows.deficit_eq (h : t.Shows f) (found : f.seat? p = some seat) :
    t.deficit p = f.lack seat := by
  rw [Table.deficit, h.ledger, Flat.deficit_ledger, found]
  rfl

/-- The player of a seat may act if nobody else's turn it is and the player can decide. -/
theorem due_eq_ok_iff : t.due p = .ok seat ↔
    t.seat p = .ok seat ∧ seat.isActionable = true ∧ ∀ q ∈ t.nextToAct, q = p := by
  -- once the turn is settled, what is left is the check that the player can decide
  have refused : ∀ s : Seat, (if (!s.isActionable) = true then
      (Outcome.illegal (.cannotAct p s.status) : Outcome Unit) >>= fun _ => pure s
      else pure s) = .ok seat ↔ s = seat ∧ s.isActionable = true := by
    intro s
    by_cases live : s.isActionable = true
    · simp [live, pure, Except.pure]
    · simp [live, Outcome.illegal, bind, Except.bind]
  rw [due, bind_eq_ok]
  cases turn : t.nextToAct with
  | none =>
    simp only [refused]
    constructor
    · rintro ⟨s, found, rfl, live⟩
      exact ⟨found, live, by simp⟩
    · rintro ⟨found, live, _⟩
      exact ⟨seat, found, rfl, live⟩
  | some q =>
    by_cases self : q = p
    · simp only [self, ne_eq, not_true_eq_false, if_false, refused]
      constructor
      · rintro ⟨s, found, rfl, live⟩
        exact ⟨found, live, by simp⟩
      · rintro ⟨found, live, _⟩
        exact ⟨seat, found, rfl, live⟩
    · constructor
      · rintro ⟨s, found, acted⟩
        simp only [ne_eq, self, not_false_eq_true, if_true] at acted
        cases acted
      · rintro ⟨_, _, own⟩
        exact absurd (own q rfl) self

/-- The table and its flat account ask the same of a player who would move. -/
theorem Shows.due_agrees (h : t.Shows f) (p : Player) :
    Outcome.Agrees Eq (t.due p) (f.due? p) := by
  have next : t.nextToAct = f.next := by rw [nextToAct, h.ledger, Flat.ledger]
  apply Outcome.agrees_eq
  intro seat
  rw [due_eq_ok_iff, Flat.due?_eq_some_iff, next]
  cases found : f.seat? p with
  | none => simp [h.seat_stranger found]
  | some s => simp [h.seat_eq found]

/-! ## One event -/

/-- An event out of place is never accepted. -/
theorem outOfPlace_ne_ok {α : Type} (e : Event) (a : α) : t.outOfPlace e ≠ .ok a := by
  intro ended
  obtain ⟨_, _, illegal⟩ := bind_eq_ok.1 ended
  cases illegal

/-- A link whose ledger and seats are those of another flat table shows that table. -/
theorem Shows.extend {e : Event} {change : Change} (h : t.Shows f) (dealer : f'.dealer = f.dealer)
    (bigBlind : f'.bigBlind = f.bigBlind)
    (walk : ∀ p, (match change with
      | .none => f.seat? p
      | .one seat => if seat.player = p then some seat else f.seat? p
      | .all seats => seatAmong p seats) = f'.seat? p) :
    (t.extend e change f'.ledger).Shows f' where
  ledger := rfl
  walk := by
    intro p
    rw [← walk p]
    cases change with
    | none => exact h.walk p
    | one seat =>
      -- the walk passes the new link unless it is about this player
      show (if seat.player = p then some seat else Table.seatAlong p t.seated t.links) = _
      rw [h.walk]
    | all seats => rfl
  dealer := h.dealer.trans dealer.symm
  bigBlind := h.bigBlind.trans bigBlind.symm

/-- Putting chips into the pot does the same to a table and to the flat table it shows. -/
theorem Shows.wager_agrees (h : t.Shows f) (sound : f.Sound) (mem : seat ∈ f.seats)
    (live : seat.isActionable = true) (enough : n ≤ seat.stack) (e : Event) :
    Outcome.Agrees Shows (t.wager e seat n) (f.put seat n) := by
  have moved := Flat.wager_agrees sound mem live enough
  rw [wager, h.ledger]
  cases put : f.put seat n with
  | none =>
    rw [put] at moved
    cases wagered : f.ledger.wager seat n with
    | error _ => trivial
    | ok _ => rw [wagered] at moved; exact moved.elim
  | some f' =>
    obtain ⟨_, wagered, rfl⟩ := moved.exists_ok put
    obtain ⟨seats, dealer, bigBlind⟩ := Flat.put_seats put
    rw [wagered]
    apply h.extend dealer bigBlind
    intro p
    rw [Flat.seat?_congr seats p]
    exact (Flat.seat?_replace sound.distinct mem (Seat.player_commit seat n) p).symm

/-- A guard that refuses an event as out of place agrees with the flat table's condition if each
says the opposite of the other. -/
theorem agrees_of_guard {e : Event} {guard : Prop} [Decidable guard] {fits : Bool}
    {x : Outcome Table} {y : Option Flat} (opposite : guard ↔ ¬ fits = true)
    (accepted : fits = true → Outcome.Agrees Shows x y) :
    Outcome.Agrees Shows (if guard then t.outOfPlace e else x)
      (if fits = true then y else none) := by
  by_cases refused : guard
  · rw [if_pos refused, if_neg (opposite.1 refused)]
    exact Outcome.agrees_none (outOfPlace_ne_ok _)
  · have fit : fits = true := by
      by_contra misfit
      exact refused (opposite.2 misfit)
    rw [if_neg refused, if_pos fit]
    exact accepted fit

/-- The table and its flat account accept the same moves, to the same effect. -/
theorem Shows.applyMove_agrees (h : t.Shows f) (sound : f.Sound) (p : Player) (m : Move) :
    Outcome.Agrees Shows (t.applyMove p m) (f.applyMove p m) := by
  rw [applyMove, Flat.applyMove]
  apply (h.due_agrees p).bind
  rintro seat _ _ due rfl
  obtain ⟨found, live, _⟩ := Flat.due?_eq_some_iff.1 due
  obtain ⟨mem, rfl⟩ := Flat.mem_of_seat? found
  have wagered : f.permits seat m = true →
      Outcome.Agrees Shows (t.wager (.move seat.player m) seat (f.price seat m))
        (f.put seat (f.price seat m)) :=
    fun fits => h.wager_agrees sound mem live (Flat.price_le_stack fits) _
  have largest : t.largestBet = f.largest := by rw [largestBet, h.ledger, Flat.ledger]
  have minRaise : t.minRaise = f.minRaise := by rw [Table.minRaise, h.ledger, Flat.ledger]
  simp only [h.deficit_eq found, largest, minRaise]
  -- the table lists what refuses a move, the flat table what it must satisfy
  cases m with
  | check =>
    refine agrees_of_guard ?_ fun _ => ?_
    · rw [Flat.permits, decide_eq_true_eq, Nat.pos_iff_ne_zero]
    · rw [h.ledger, Flat.ledger_closeTurn]
      show Shows _ _
      refine h.extend rfl rfl ?_
      intro p
      rfl
  | call => exact wagered rfl
  | bet n =>
    refine agrees_of_guard ?_ wagered
    simp only [Flat.permits, Bool.and_eq_true, Bool.or_eq_true, decide_eq_true_eq]
    lia
  | raise n =>
    dsimp only
    by_cases large : chipLimit ≤ f.lack seat + n
    · -- the table fails before it looks at the rules, the flat table when it comes to the pot
      have refuses : f.put seat (f.price seat (.raise n)) = none := by
        have more : chipLimit ≤ f.staked + (f.lack seat + n) := by lia
        exact if_pos more
      rw [addChips_eq_fault large, refuses, ite_self]
      trivial
    · rw [addChips_eq_ok_iff.2 ⟨rfl, Nat.lt_of_not_le large⟩]
      show Outcome.Agrees Shows (if _ then _ else _) _
      refine agrees_of_guard ?_ wagered
      simp only [Flat.permits, Bool.and_eq_true, Bool.or_eq_true, decide_eq_true_eq]
      lia
  | allIn =>
    refine agrees_of_guard ?_ wagered
    rw [Flat.permits, decide_eq_true_eq, Nat.pos_iff_ne_zero, not_not]
  | fold =>
    show Shows (t.extend _ (.one seat.fold) (t.ledger.fold seat.player)) _
    rw [h.ledger, Flat.ledger_fold sound mem]
    refine h.extend rfl rfl ?_
    intro p
    exact (Flat.seat?_replace sound.distinct mem (Seat.player_fold seat) p).symm

/-- The table and its flat account pass the turn alike. -/
theorem Shows.applyTurn_agrees (h : t.Shows f) (p : Player) :
    Outcome.Agrees Shows (t.applyTurn p) (f.applyTurn p) := by
  rw [applyTurn, Flat.applyTurn, h.ledger, Flat.row?_ledger]
  cases found : f.seat? p with
  | none => trivial
  | some seat =>
    show Outcome.Agrees Shows (if seat.isActionable = true then .ok _ else t.outOfPlace (.turn p))
      (if seat.isActionable = true then some (f.turnTo p) else none)
    by_cases live : seat.isActionable = true
    · rw [if_pos live, if_pos live]
      show Shows (t.extend (.turn p) .none (f.turnTo p).ledger) _
      refine h.extend rfl rfl ?_
      intro q
      rfl
    · rw [if_neg live, if_neg live]
      exact Outcome.agrees_none (outOfPlace_ne_ok _)

/-- The table and its flat account begin rounds alike. -/
theorem Shows.applyRound_agrees (h : t.Shows f) (sound : f.Sound) (street : Street) (cards : Hand) :
    Outcome.Agrees Shows (t.applyRound street cards) (f.applyRound street cards) := by
  have begins : t.street = f.street := by rw [Table.street, h.ledger, Flat.ledger]
  have lies : t.board = f.board := by rw [Table.board, h.ledger, Flat.ledger]
  have refused : Outcome.Agrees Shows (t.outOfPlace (.round street cards)) none :=
    Outcome.agrees_none (outOfPlace_ne_ok _)
  rw [applyRound, Flat.applyRound, begins, lies]
  by_cases early : street.index ≤ f.street.index
  · rw [if_pos early, if_pos (by simp [early])]
    exact refused
  rw [if_neg early]
  cases shown : f.board.reveal cards with
  | error cause =>
    rw [ite_self]
    trivial
  | ok board =>
    dsimp only
    by_cases large : street.boardSize < board.size
    · rw [if_pos large, if_pos large, ite_self]
      exact refused
    rw [if_neg large, if_neg large, h.seats_eq sound, h.ledger, h.dealer, h.bigBlind]
    show Outcome.Agrees Shows (f.ledger.newRound street board f.dealer f.bigBlind >>= _) _
    rw [Flat.newRound_ledger sound]
    by_cases full : chipLimit ≤ f.carried + f.staked
    · rw [if_pos full, if_pos (by simp [full])]
      trivial
    · rw [if_neg full, if_neg (by simp [early, full])]
      refine h.extend rfl rfl ?_
      intro p
      rfl

/-- A table accepts an event exactly when the flat table it shows does, and then shows the flat
table after the event. -/
theorem Shows.apply_agrees (h : t.Shows f) (sound : f.Sound) (e : Event) :
    Outcome.Agrees Shows (t.apply e) (f.apply e) := by
  cases e with
  | move p m => exact h.applyMove_agrees sound p m
  | turn p => exact h.applyTurn_agrees p
  | round street cards => exact h.applyRound_agrees sound street cards

/-- The same holds of a run of events, at every step of which the flat table is sound. -/
theorem Shows.run_agrees (h : t.Shows f) (sound : f.Sound) (events : List Event) :
    Outcome.Agrees (fun t f => t.Shows f ∧ f.Sound) (t.run events) (f.run events) := by
  -- the invariant is that the table shows a sound flat table
  induction events generalizing t f with
  | nil => exact ⟨h, sound⟩
  | cons e events ih =>
    rw [run, Flat.run, List.foldlM_cons, List.foldlM_cons]
    apply (h.apply_agrees sound e).bind
    intro t' f' _ applied shows'
    exact ih shows' (sound.apply applied)

/-! ## The start -/

/-- Adding up amounts one by one overflows exactly when their sum does. -/
theorem foldlM_addChips_eq_ok_iff {amounts : List Chips} {start n : Chips}
    (fits : start < chipLimit) :
    amounts.foldlM addChips start = .ok n ↔
      n = start + amounts.sum ∧ start + amounts.sum < chipLimit := by
  induction amounts generalizing start with
  | nil =>
    rw [List.foldlM_nil, List.sum_nil, Nat.add_zero]
    constructor
    · intro ended
      exact ⟨(Except.ok.inj ended).symm, fits⟩
    · rintro ⟨rfl, _⟩
      rfl
  | cons a amounts ih =>
    rw [List.foldlM_cons, List.sum_cons, ← Nat.add_assoc]
    by_cases large : start + a < chipLimit
    · rw [addChips_eq_ok_iff.2 ⟨rfl, large⟩]
      exact ih large
    · rw [addChips_eq_fault (Nat.le_of_not_lt large)]
      constructor
      · intro ended
        cases ended
      · rintro ⟨_, small⟩
        exact absurd (Nat.lt_of_le_of_lt (Nat.le_add_right _ _) small) large

/-- Amounts sum to their total exactly when it fits the range of chips. -/
theorem sumChips_eq_ok_iff {amounts : List Chips} {n : Chips} :
    sumChips amounts = .ok n ↔ n = amounts.sum ∧ amounts.sum < chipLimit := by
  have all : amounts.foldlM addChips 0 = .ok n ↔ n = 0 + amounts.sum ∧
    0 + amounts.sum < chipLimit :=
    foldlM_addChips_eq_ok_iff (by decide)
  rwa [Nat.zero_add] at all

/-- A table shows the flat table of the snapshot it starts from. -/
theorem ofSnapshot_shows {s : Snapshot} (start : Table.ofSnapshot s = .ok t) :
    t.Shows (Flat.ofSnapshot s) ∧ (Flat.ofSnapshot s).Sound := by
  obtain ⟨_, checked, opened⟩ := bind_eq_ok.1 start
  obtain ⟨opening, ledger, table⟩ := bind_eq_ok.1 opened
  cases table
  have accepted : s.Accepted := by
    apply Snapshot.accepted_of_check
    cases check : s.check with
    | error e => rw [check] at checked; cases checked
    | ok _ => rfl
  refine ⟨?_, Flat.sound_ofSnapshot accepted⟩
  obtain ⟨round, summed, written⟩ := bind_eq_ok.1 ledger
  obtain ⟨rfl, _⟩ := sumChips_eq_ok_iff.1 summed
  cases written
  have rows : s.seats.map (fun seat => ({
      player := seat.player
      stake := seat.stake
      active := seat.isActive
      live := seat.isActionable
      acted := s.acted.contains seat.player } : Row)) = s.seats.map (Flat.ofSnapshot s).row := by
    apply List.map_congr_left
    intro seat _
    simp [Flat.row, Flat.ofSnapshot]
  refine ⟨?_, fun p => rfl, rfl, rfl⟩
  rw [Table.ledger, rows]
  rfl

/-- What a run from an accepted snapshot reaches is what the same run of flat tables reaches. -/
theorem exists_flat_of_run {s : Snapshot} {t₀ : Table} {events : List Event}
    (start : Table.ofSnapshot s = .ok t₀) (ran : t₀.run events = .ok t) :
    ∃ f, (Flat.ofSnapshot s).run events = some f ∧ t.Shows f ∧ f.Sound := by
  obtain ⟨shows₀, sound₀⟩ := ofSnapshot_shows start
  exact (shows₀.run_agrees sound₀ events).exists_some ran

end Table

end Holdem
