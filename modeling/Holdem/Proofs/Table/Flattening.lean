import Holdem.Proofs.Table.Alike
import Holdem.Proofs.Table.Cards

/-!
# A table and the snapshot of its answers

What a table answers makes a snapshot. The snapshot says nothing of the largest bet: a table that
starts from it takes the largest stake of those who compete for the pot. Whoever folds in play lacks
some of the largest bet, so it is always the stake of somebody who still competes; then the snapshot
is accepted, and the table that starts from it is like the one that it was taken of.
-/

set_option autoImplicit false

namespace Holdem

namespace Flat

variable {f f' : Flat} {p : Player} {seat : Seat} {n : Chips}

/-- The flat table as a snapshot. -/
def snapshot (f : Flat) : Snapshot where
  seats := f.seats
  board := f.board
  pot := f.carried
  street := f.street
  dealer := f.dealer
  raises := f.raises
  next := f.next
  bettor := f.bettor
  acted := (f.seats.map Seat.player).filter (fun p => p ∈ f.acted)
  bigBlind := f.bigBlind
  minRaise := some f.minRaise

/-- The largest bet is zero or the stake of somebody who competes for the pot. -/
def Held (f : Flat) : Prop :=
  f.largest = 0 ∨ ∃ seat ∈ f.seats, seat.isActive = true ∧ seat.stake = f.largest

/-- What the snapshot of a sound flat table has to satisfy in order to be accepted and to lead back
to the flat table. -/
structure Presentable (f : Flat) : Prop where
  held : f.Held
  fits : f.staked < chipLimit
  few : f.seats.length ≤ seatLimit
  bettor_seated : ∀ p ∈ f.bettor, p ∈ f.seats.map Seat.player
  apart : NoCardTwice f.board (f.seats.filterMap Seat.hole)

/-! ## There and back -/

/-- The largest stake of the snapshot is the flat table's largest bet. -/
theorem Sound.topStakes_snapshot (sound : f.Sound) (held : f.Held) :
    f.snapshot.topStakes.1 = f.largest := by
  apply Nat.le_antisymm
  · rcases f.snapshot.topStakes_held with zero | ⟨seat, mem, active, stake⟩
    · lia
    · have most := sound.stake_le seat mem active
      lia
  · rcases held with zero | ⟨seat, mem, active, stake⟩
    · lia
    · have most := f.snapshot.stake_le_topStakes mem active
      lia

/-- The flat table of its own snapshot is the flat table itself. -/
theorem Presentable.ofSnapshot_snapshot (h : f.Presentable) (sound : f.Sound) :
    ofSnapshot f.snapshot = f := by
  have acted : f.snapshot.acted.toFinset = f.acted := by
    ext p
    have seated := sound.acted_seated p
    simp only [snapshot, List.mem_toFinset, List.mem_filter, decide_eq_true_eq]
    tauto
  rw [ofSnapshot, sound.topStakes_snapshot h.held, acted]
  rfl

/-- The snapshot of a presentable table passes its check. -/
theorem Presentable.check_snapshot (h : f.Presentable) (sound : f.Sound) :
    f.snapshot.check = .ok () := by
  have dealt : Snapshot.checkDealtOnce f.board.cards (f.seats.filterMap Seat.hole) = .ok () :=
    Snapshot.checkDealtOnce_eq_ok_iff.2 ⟨h.apart.board, h.apart.holes⟩
  refine Snapshot.check_eq_ok_iff.2 ⟨?_, h.few, sound.distinct, sound.dealer_seated,
    sound.next_actionable, ?_, sound.board_le, dealt⟩
  · intro empty
    have seated := sound.dealer_seated
    rw [show f.seats = [] from empty] at seated
    simp at seated
  · intro p mem
    rcases List.mem_append.1 mem with acted | bettor
    · exact (List.mem_filter.1 acted).1
    · exact h.bettor_seated p (Option.mem_toList.1 bettor)

/-! ## Play keeps it -/

/-- The largest bet stays held when a seat is replaced, if the new seat still holds what the old one
held. -/
theorem Held.replace (held : f.Held) (new : Seat)
    (same : ∀ s ∈ f.seats, s.player = new.player → s.isActive = true → s.stake = f.largest →
      new.isActive = true ∧ new.stake = f.largest) : (f.replace new).Held := by
  rcases held with zero | ⟨s, mem, active, stake⟩
  · exact Or.inl zero
  refine Or.inr ⟨if s.player = new.player then new else s, List.mem_map_of_mem mem, ?_⟩
  by_cases own : s.player = new.player
  · rw [if_pos own]
    exact same s mem own active stake
  · rw [if_neg own]
    exact ⟨active, stake⟩

/-- A move keeps the largest bet with somebody who competes, unless somebody folds who has it. -/
theorem Held.applyMove {m : Move} (held : f.Held) (sound : f.Sound)
    (applied : f.applyMove p m = some f')
    (owes : ∀ seat, f.seat? p = some seat → m = .fold → 0 < f.lack seat) : f'.Held := by
  obtain ⟨seat, due, _, moved⟩ := applyMove_cases applied
  obtain ⟨found, live, _⟩ := due?_eq_some_iff.1 due
  obtain ⟨mem, rfl⟩ := mem_of_seat? found
  have own : ∀ s ∈ f.seats, s.player = seat.player → s = seat := fun s inSeats same =>
    eq_of_player_eq sound.distinct mem inSeats same
  rcases moved with ⟨_, rfl⟩ | ⟨fold, rfl⟩ | ⟨_, _, put⟩
  · exact held
  · refine held.replace seat.fold (fun s inSeats same active stake => ?_)
    obtain rfl := own s inSeats same
    have lacks := owes s found fold
    rw [lack] at lacks
    lia
  · obtain ⟨_, ⟨matched, rfl⟩ | ⟨_, _, rfl⟩⟩ := put_cases put
    · refine held.replace (seat.commit (f.price seat m))
        (fun s inSeats same active stake => ⟨seat.isActive_commit live _, ?_⟩)
      obtain rfl := own s inSeats same
      rw [Seat.stake_commit]
      lia
    · exact Or.inr ⟨seat.commit (f.price seat m), List.mem_map.2 ⟨seat, mem, if_pos rfl⟩,
        seat.isActive_commit live _, rfl⟩

/-- Chips only join the pot of the round as long as they fit in it. -/
theorem staked_applyMove_lt {m : Move} (sound : f.Sound) (fits : f.staked < chipLimit)
    (applied : f.applyMove p m = some f') : f'.staked < chipLimit := by
  obtain ⟨seat, due, _, moved⟩ := applyMove_cases applied
  obtain ⟨mem, rfl⟩ := mem_of_seat? (due?_eq_some_iff.1 due).1
  rcases moved with ⟨_, rfl⟩ | ⟨_, rfl⟩ | ⟨_, _, put⟩
  · exact fits
  · have kept := staked_replace sound mem (Seat.player_fold seat)
    rw [Seat.stake_fold] at kept
    show (f.replace seat.fold).staked < chipLimit
    lia
  · have committed := staked_commit sound mem (f.price seat m)
    obtain ⟨room, ⟨_, rfl⟩ | ⟨_, _, rfl⟩⟩ := put_cases put
    · show (f.replace (seat.commit (f.price seat m))).staked < chipLimit
      lia
    · show (f.replace (seat.commit (f.price seat m))).staked < chipLimit
      lia

/-- A move leaves a table presentable, if a player folds only where there is something to call. -/
theorem Presentable.applyMove {m : Move} (h : f.Presentable) (sound : f.Sound)
    (applied : f.applyMove p m = some f')
    (owes : ∀ seat, f.seat? p = some seat → m = .fold → 0 < f.lack seat) : f'.Presentable := by
  have follow : f.SeatsFollow f' := seatsFollow_apply (e := .move p m) sound applied
  have players := follow.players_eq
  have count := congrArg List.length players
  rw [List.length_map, List.length_map] at count
  refine ⟨h.held.applyMove sound applied owes, staked_applyMove_lt sound h.fits applied,
    count ▸ h.few, ?_, ?_⟩
  · rw [players]
    rcases betting_applyMove applied with ⟨_, _, own, _⟩ | ⟨_, _, kept, _⟩
    · obtain ⟨seat, due, _⟩ := applyMove_cases applied
      obtain ⟨mem, rfl⟩ := mem_of_seat? (due?_eq_some_iff.1 due).1
      intro q bettor
      obtain rfl := Option.some.inj (own.symm.trans bettor)
      exact List.mem_map_of_mem mem
    · exact kept ▸ h.bettor_seated
  · rw [follow.holes_eq, board_applyMove applied]
    exact h.apart

/-- Passing the turn leaves a table presentable. -/
theorem Presentable.turnTo (h : f.Presentable) (p : Player) : (f.turnTo p).Presentable :=
  ⟨h.held, h.fits, h.few, h.bettor_seated, h.apart⟩

/-- A street on which no card is revealed. -/
theorem Presentable.begin (h : f.Presentable) (street : Street) :
    (f.begin street f.board).Presentable where
  held := Or.inl rfl
  fits := by
    rw [staked_begin]
    decide
  few := (List.length_map Seat.clearStake).trans_le h.few
  bettor_seated := fun _ nobody => nomatch nobody
  apart := by
    have holes : (f.seats.map Seat.clearStake).filterMap Seat.hole =
      f.seats.filterMap Seat.hole := by
      rw [List.filterMap_map]
      rfl
    show NoCardTwice f.board ((f.seats.map Seat.clearStake).filterMap Seat.hole)
    rw [holes]
    exact h.apart

end Flat

namespace Table

variable {t u : Table} {f : Flat} {s : Snapshot}

/-- A snapshot starts a table exactly if it passes its check and the pot of its round fits. -/
theorem exists_ofSnapshot_iff : (∃ t, Table.ofSnapshot s = .ok t) ↔
    s.check = .ok () ∧ (s.seats.map Seat.stake).sum < chipLimit := by
  constructor
  · rintro ⟨t, start⟩
    obtain ⟨_, _, opened⟩ := bind_eq_ok.1 start
    obtain ⟨_, ledger, _⟩ := bind_eq_ok.1 opened
    obtain ⟨_, summed, _⟩ := bind_eq_ok.1 ledger
    exact ⟨check_of_ofSnapshot start, (sumChips_eq_ok_iff.1 summed).2⟩
  · rintro ⟨check, fits⟩
    have summed : sumChips (s.seats.map Seat.stake) = .ok _ := sumChips_eq_ok_iff.2 ⟨rfl, fits⟩
    rw [Table.ofSnapshot, check, Ledger.ofSnapshot, summed]
    exact ⟨_, rfl⟩

/-- A table built from a snapshot is presentable. -/
theorem presentable_ofSnapshot (start : Table.ofSnapshot s = .ok t) :
    (Flat.ofSnapshot s).Presentable := by
  obtain ⟨check, fits⟩ := exists_ofSnapshot_iff.1 ⟨t, start⟩
  obtain ⟨_, few, _, _, _, seated, _, _⟩ := Snapshot.check_eq_ok_iff.1 check
  exact ⟨s.topStakes_held, fits, few,
    fun p bettor => seated p (List.mem_append_right _ (Option.mem_toList.2 bettor)),
    Snapshot.noCardTwice_of_check check⟩

/-- An action leaves a table presentable. -/
theorem Shows.presentable_play {a : Action} (h : t.Shows f) (sound : f.Sound)
    (presentable : f.Presentable) (played : t.play a = .ok u) :
    ∃ g, u.Shows g ∧ g.Sound ∧ g.Presentable := by
  obtain ⟨p, moved, f', due, allowed, applied, shown, sound', rest⟩ := h.play_cases sound played
  have owes : ∀ seat, f.seat? p = some seat → a.move = .fold → 0 < f.lack seat :=
    fun seat found => (h.fits_of_isAllowed sound due found allowed).2.1
  have presentable' := presentable.applyMove sound applied owes
  rcases rest with ⟨_, closed⟩ | ⟨_, q, _, turned, soundTurn⟩
  · exact shown.closings_invariant (fun g street holds => holds.begin street) sound' presentable'
      (closings_of_close closed).1
  · exact ⟨f'.turnTo q, turned, soundTurn, presentable'.turnTo q⟩

/-! ## The snapshot of a table -/

/-- The table as a snapshot, put together from what it answers. -/
def snapshot (t : Table) : Outcome Snapshot := do
  let seats ← t.seats
  return {
    seats
    board := t.board
    pot := t.previousPot
    street := t.street
    dealer := t.dealer
    raises := t.raises
    next := t.nextToAct
    bettor := t.lastBettor
    acted := (seats.map Seat.player).filter t.hasActed
    bigBlind := t.bigBlind
    minRaise := some t.minRaise }

/-- A table answers with the snapshot of its flat account. -/
theorem Shows.snapshot_eq (h : t.Shows f) (sound : f.Sound) : t.snapshot = .ok f.snapshot := by
  have answers := h.answers sound
  have acted : t.hasActed = fun p => decide (p ∈ f.acted) := funext answers.hasActed
  rw [snapshot, answers.seats, answers.board, answers.previousPot, answers.street, h.dealer,
    answers.raises, answers.nextToAct, answers.lastBettor, acted, h.bigBlind, answers.minRaise]
  rfl

/-- At every table reached by playing, the snapshot of its answers starts a table, and from then on
nobody can tell the two apart: actions and events are accepted by both or refused by both in the
same words, and after those that are accepted all answers agree. -/
theorem snapshot_starts_alike {t₀ : Table} {actions : List Action}
    (start : Table.ofSnapshot s = .ok t₀) (played : t₀.playAll actions = .ok t) :
    ∃ s' u, t.snapshot = .ok s' ∧ Table.ofSnapshot s' = .ok u ∧
      (∀ later : List Action,
        Outcome.Matches SameAnswers (t.playAll later) (u.playAll later)) ∧
      ∀ later : List Event, Outcome.Matches SameAnswers (t.run later) (u.run later) := by
  obtain ⟨shows₀, sound₀⟩ := ofSnapshot_shows start
  obtain ⟨f, shown, sound, presentable⟩ := shows₀.playAll_invariant
    (fun h sound presentable played => h.presentable_play sound presentable played) sound₀
    (presentable_ofSnapshot start) played
  obtain ⟨u, restart⟩ :=
    exists_ofSnapshot_iff.2 ⟨presentable.check_snapshot sound, presentable.fits⟩
  have shows' := (ofSnapshot_shows restart).1
  rw [presentable.ofSnapshot_snapshot sound] at shows'
  have alike : t.Alike u := shown.alike shows'
  exact ⟨f.snapshot, u, shown.snapshot_eq sound, restart,
    fun later => (alike.playAll later).mono (fun _ _ => Alike.sameAnswers),
    fun later => (alike.run later).mono (fun _ _ => Alike.sameAnswers)⟩

/-- A call and a raise before the flop, then a fresh start from there. -/
theorem snapshot_starts_alike_headsUp : ∃ t₀ t s u, Table.ofSnapshot (.headsUp 5) = .ok t₀ ∧
    t₀.playAll [.call 1, .raise 3] = .ok t ∧ t.snapshot = .ok s ∧ Table.ofSnapshot s = .ok u ∧
    t.depth = 4 ∧ u.depth = 0 ∧
    Outcome.Matches SameAnswers (t.playAll [.fold]) (u.playAll [.fold]) := by
  have dealt : ∃ t₀ t, Table.ofSnapshot (.headsUp 5) = .ok t₀ ∧
      t₀.playAll [.call 1, .raise 3] = .ok t ∧ t.depth = 4 :=
    ⟨_, _, rfl, rfl, rfl⟩
  obtain ⟨t₀, t, start, played, depth⟩ := dealt
  obtain ⟨s, u, taken, restart, alike, _⟩ := snapshot_starts_alike start played
  obtain ⟨_, _, opened⟩ := bind_eq_ok.1 restart
  obtain ⟨_, _, written⟩ := bind_eq_ok.1 opened
  cases written
  exact ⟨t₀, t, s, _, start, played, taken, restart, depth, rfl, alike [.fold]⟩

end Table

end Holdem
