import Holdem.Proofs.Flat.Invariants
import Holdem.Table.Ledger

/-!
# The ledger of a flat table

Every flat table determines a ledger: one row for each seat, read off the seat. Each operation on
ledgers does to the ledger of a flat table what the flat table's own operation does to its seats,
and it fails exactly when an amount of chips or a count would leave its bounds.
-/

set_option autoImplicit false

namespace Holdem

namespace Flat

variable {f f' : Flat} {p : Player} {seat : Seat} {n : Chips}

/-- The row of a seat. -/
def row (f : Flat) (seat : Seat) : Row where
  player := seat.player
  stake := seat.stake
  active := seat.isActive
  live := seat.isActionable
  acted := decide (seat.player ∈ f.acted)

/-- The ledger of a flat table. -/
def ledger (f : Flat) : Ledger where
  street := f.street
  board := f.board
  carried := f.carried
  round := f.staked
  largest := f.largest
  minRaise := f.minRaise
  raises := f.raises
  next := f.next
  bettor := f.bettor
  rows := f.seats.map f.row

/-- The row of a player in the ledger is that of the player's seat. -/
theorem row?_ledger (f : Flat) (p : Player) : f.ledger.row? p = (f.seat? p).map f.row := by
  rw [Ledger.row?, ledger, List.find?_map]
  rfl

/-- A player's deficit in the ledger is what the seat lacks, and nothing for a stranger. -/
theorem deficit_ledger (f : Flat) (p : Player) :
    f.ledger.deficit p = ((f.seat? p).map f.lack).getD 0 := by
  rw [Ledger.deficit, row?_ledger, Option.map_map]
  rfl

/-! ## The operations -/

/-- Closing a turn is the same in the ledger and on the flat table. -/
theorem ledger_closeTurn (f : Flat) (p : Player) :
    f.ledger.closeTurn p = (f.closeTurn p).ledger := by
  have rows : f.ledger.rows.map (fun r => if r.player = p then { r with acted := true } else r) =
      f.seats.map (f.closeTurn p).row := by
    rw [ledger, List.map_map]
    apply List.map_congr_left
    intro s _
    by_cases self : s.player = p <;> simp [row, closeTurn, self]
  rw [Ledger.closeTurn, Ledger.update, rows]
  rfl

/-- The row of a seat that took another's place is that row with the changed stake and standing. -/
theorem rows_replace (h : f.Sound) (mem : seat ∈ f.seats) {new : Seat}
    (same : new.player = seat.player) (change : Row → Row)
    (changed : change (f.row seat) = f.row new) :
    f.ledger.rows.map (fun r => if r.player = seat.player then change r else r) =
      (f.replace new).seats.map f.row := by
  rw [ledger, replace, List.map_map, List.map_map]
  apply List.map_congr_left
  intro s inSeats
  show (if s.player = seat.player then change (f.row s) else f.row s) =
    f.row (if s.player = new.player then new else s)
  rw [same]
  by_cases self : s.player = seat.player
  · rw [if_pos self, if_pos self, eq_of_player_eq h.distinct mem inSeats self, changed]
  · rw [if_neg self, if_neg self]

/-- Folding in the ledger is folding on the flat table. -/
theorem ledger_fold (h : f.Sound) (mem : seat ∈ f.seats) :
    f.ledger.fold seat.player = ((f.replace seat.fold).closeTurn seat.player).ledger := by
  have staked := staked_replace h mem (Seat.player_fold seat)
  rw [Seat.stake_fold] at staked
  have round : (f.replace seat.fold).staked = f.staked := by lia
  -- a fold changes the standing of one row and no amount
  have changed : { f.row seat with active := false, live := false } = f.row seat.fold := by
    rw [row, row, Seat.isActive_fold, Seat.isActionable_fold]
    rfl
  have folded : f.ledger.update seat.player (fun r => { r with active := false, live := false }) =
      (f.replace seat.fold).ledger := by
    rw [Ledger.update, rows_replace h mem (Seat.player_fold seat) _ changed, ledger, ledger, round]
    rfl
  rw [Ledger.fold, folded, ledger_closeTurn]

/-- The ledger with the chips of a seat in the pot, before anybody has to act again. -/
theorem ledger_commit (h : f.Sound) (mem : seat ∈ f.seats) (live : seat.isActionable = true)
    (n : Chips) :
    ({ f.ledger with round := f.staked + n } : Ledger).update seat.player (fun r =>
      { r with
        stake := (seat.commit n).stake
        live := r.live && (seat.commit n).status != Status.allIn }) =
      (f.replace (seat.commit n)).ledger := by
  have betting : seat.sitting = true ∧ seat.status = .betting := by
    simpa [Seat.isActionable] using live
  -- the ledger keeps a live row unless its player went all in, the seat asks its new status
  have standing : (seat.commit n).isActionable = ((seat.commit n).status != Status.allIn) := by
    by_cases all : seat.stack = n <;> simp [Seat.isActionable, Seat.commit, betting, all]
  have changed : { f.row seat with
      stake := (seat.commit n).stake
      live := (f.row seat).live && (seat.commit n).status != Status.allIn } =
      f.row (seat.commit n) := by
    rw [row, row, Seat.isActive_commit live, Seat.isActive_of_isActionable live, live, standing]
    rfl
  have rows := rows_replace h mem (Seat.player_commit seat n) (fun r =>
    { r with
      stake := (seat.commit n).stake
      live := r.live && (seat.commit n).status != Status.allIn }) changed
  show ({ f.ledger with round := f.staked + n, rows := f.ledger.rows.map _ } : Ledger) = _
  rw [rows, ledger, ledger, staked_commit h mem]
  rfl

/-- Reopening the betting is the same in the ledger and on the flat table, unless the raises can be
counted no further. -/
theorem ledger_reopen (f : Flat) (p : Player) (stake : Chips) :
    f.ledger.reopen p stake =
      if countLimit ≤ f.raises + 1 then .error (.fault .addOverflow)
      else .ok (f.reopen p stake).ledger := by
  have rows : f.ledger.rows.map (fun r => { r with acted := false }) =
      f.seats.map (f.reopen p stake).row := by
    rw [ledger, List.map_map]
    apply List.map_congr_left
    intro s _
    simp [row, reopen]
  rw [Ledger.reopen, rows]
  by_cases counted : countLimit ≤ f.raises + 1
  · have overflows : addCounts f.ledger.raises 1 = .error (.fault .addOverflow) :=
      if_neg (Nat.not_lt.2 counted)
    rw [overflows, if_pos counted]
    rfl
  · have fits : addCounts f.ledger.raises 1 = .ok (f.raises + 1) :=
      addCounts_eq_ok_iff.2 ⟨rfl, Nat.lt_of_not_le counted⟩
    rw [fits, if_neg counted]
    rfl

/-- A seat that has the chips, and room for them in its stake, bets by moving them. -/
theorem bet_eq_commit (enough : n ≤ seat.stack) (fits : seat.stake + n < chipLimit) :
    seat.bet n = .ok (seat.commit n) := by
  have affords : ¬ seat.stack < n := Nat.not_lt.2 enough
  have empty : seat.stack - n = 0 ↔ seat.stack = n := by lia
  rw [Seat.bet, if_neg affords, addChips_eq_ok_iff.2 ⟨rfl, fits⟩, Seat.commit]
  simp only [empty]
  rfl

/-- Putting chips into the pot does the same to a flat table and to its ledger. -/
theorem wager_agrees (h : f.Sound) (mem : seat ∈ f.seats) (live : seat.isActionable = true)
    (enough : n ≤ seat.stack) :
    Outcome.Agrees (fun after f' => after = (f'.ledger, seat.commit n))
      (f.ledger.wager seat n) (f.put seat n) := by
  by_cases large : chipLimit ≤ f.staked + n
  · rw [put, if_pos large]
    apply Outcome.agrees_none
    intro after ended
    simp only [Ledger.wager, bind_eq_ok] at ended
    obtain ⟨_, _, round, added, _⟩ := ended
    exact Nat.not_lt.2 large (addChips_eq_ok_iff.1 added).2
  have fits : f.staked + n < chipLimit := Nat.lt_of_not_le large
  -- the seat's own stake is part of the round, so it fits whenever the round does
  have stake : seat.stake ≤ f.staked := List.le_sum_of_mem (List.mem_map_of_mem mem)
  have bet : seat.bet n = .ok (seat.commit n) := bet_eq_commit enough (by lia)
  have round : addChips f.ledger.round n = .ok (f.staked + n) := addChips_eq_ok_iff.2 ⟨rfl, fits⟩
  have moved := ledger_commit h mem live n
  rw [put, if_neg large, Ledger.wager, bet]
  show Outcome.Agrees _ (addChips f.ledger.round n >>= _) _
  rw [round]
  -- from here on the ledger is that of the flat table whose seat has committed the chips
  show Outcome.Agrees _ (do
    let opened ← if f.ledger.largest < (seat.commit n).stake then
        (Ledger.update { f.ledger with round := f.staked + n } seat.player _).reopen seat.player
          (seat.commit n).stake
      else pure (Ledger.update { f.ledger with round := f.staked + n } seat.player _)
    pure (opened.closeTurn seat.player, seat.commit n)) _
  rw [moved]
  by_cases matched : seat.stake + n ≤ f.largest
  · have kept : ¬ f.ledger.largest < (seat.commit n).stake := Nat.not_lt.2 matched
    rw [if_pos matched]
    dsimp only
    rw [if_neg kept]
    show (((f.replace (seat.commit n)).ledger).closeTurn seat.player, seat.commit n) = _
    rw [ledger_closeTurn]
  · have above : f.ledger.largest < (seat.commit n).stake := Nat.lt_of_not_le matched
    rw [if_neg matched]
    dsimp only
    rw [if_pos above, ledger_reopen]
    by_cases counted : countLimit ≤ f.raises + 1
    · have counted' : countLimit ≤ (f.replace (seat.commit n)).raises + 1 := counted
      rw [if_pos counted, if_pos counted']
      trivial
    · have counts : ¬ countLimit ≤ (f.replace (seat.commit n)).raises + 1 := counted
      rw [if_neg counted, if_neg counts]
      show (((f.replace (seat.commit n)).reopen seat.player (seat.stake + n)).ledger.closeTurn
        seat.player, seat.commit n) = _
      rw [ledger_closeTurn]

/-! ## A new round -/

/-- The rows clockwise after a seat are those after its own, then those before it. -/
theorem around_ledger {before after : List Seat} (seats : f.seats = before ++ seat :: after)
    (first : ∀ s ∈ before, s.player ≠ seat.player) :
    f.ledger.around seat.player = (after ++ before).map f.row := by
  -- both walks along the rows stop at the seat, and none of the rows before it stops them
  have passed : ∀ r ∈ before.map f.row, (r.player != seat.player) = true := by
    intro r mem
    obtain ⟨s, inBefore, rfl⟩ := List.mem_map.1 mem
    simpa [row] using first s inBefore
  have stops : (f.row seat :: after.map f.row).dropWhile (fun r => r.player != seat.player) =
      f.row seat :: after.map f.row :=
    List.dropWhile_cons_of_neg (by simp [row])
  have starts : (f.row seat :: after.map f.row).takeWhile (fun r => r.player != seat.player) = [] :=
    List.takeWhile_cons_of_neg (by simp [row])
  have rows : f.ledger.rows = before.map f.row ++ f.row seat :: after.map f.row := by
    rw [ledger, seats, List.map_append, List.map_cons]
  rw [Ledger.around, rows, List.dropWhile_append_of_pos passed, List.takeWhile_append_of_pos passed,
    stops, starts, List.append_nil, List.map_append]

/-- A sound flat table splits at a seat, and nobody before it is the seat's player. -/
theorem split_of_mem (h : f.Sound) (mem : seat ∈ f.seats) :
    ∃ before after, f.seats = before ++ seat :: after ∧ ∀ s ∈ before, s.player ≠ seat.player := by
  obtain ⟨_, before, after, seats, first⟩ :=
    List.find?_eq_some_iff_append.1 (seat?_of_mem h.distinct mem)
  refine ⟨before, after, seats, ?_⟩
  intro s inBefore
  simpa using first s inBefore

/-- A ledger and its flat table let the same player open a street. -/
theorem firstAfter_ledger (h : f.Sound) : f.ledger.firstAfter f.dealer = f.opener := by
  obtain ⟨seat, mem, dealer⟩ := List.mem_map.1 h.dealer_seated
  obtain ⟨before, after, seats, first⟩ := split_of_mem h mem
  -- the flat table finds the dealer by place, the ledger by walking: both split the seats there
  have place : f.seats.findIdx (fun s => s.player == f.dealer) = before.length := by
    have none : before.findIdx (fun s => s.player == f.dealer) = before.length := by
      apply List.findIdx_eq_length_of_false
      intro s inBefore
      simpa [← dealer] using first s inBefore
    rw [seats, List.findIdx_append, if_neg (by lia), List.findIdx_cons]
    simp [dealer]
  have later : f.seats.drop (before.length + 1) = after := by
    rw [seats, List.append_cons, List.drop_left' (by simp)]
  have earlier : f.seats.take (before.length + 1) = before ++ [seat] := by
    rw [seats, List.append_cons, List.take_left' (by simp)]
  have order : f.ledger.around f.dealer ++ (f.ledger.row? f.dealer).toList =
      (f.seats.drop (before.length + 1) ++ f.seats.take (before.length + 1)).map f.row := by
    rw [row?_ledger, ← dealer, seat?_of_mem h.distinct mem, around_ledger seats first, later,
      earlier]
    simp
  rw [Ledger.firstAfter, order, opener, place, List.find?_map, Option.map_map]
  rfl

/-- A new round does the same to a flat table and to its ledger. -/
theorem newRound_ledger (h : f.Sound) (street : Street) (board : Board) :
    f.ledger.newRound street board f.dealer f.bigBlind =
      if chipLimit ≤ f.carried + f.staked then .error (.fault .addOverflow)
      else .ok (f.begin street board).ledger := by
  have rows : f.ledger.rows.map (fun r => { r with stake := 0, acted := false }) =
      (f.begin street board).seats.map (f.begin street board).row := by
    rw [ledger, begin, List.map_map, List.map_map]
    apply List.map_congr_left
    intro s _
    simp [row]
  rw [Ledger.newRound, rows, firstAfter_ledger h]
  by_cases large : chipLimit ≤ f.carried + f.staked
  · have overflows : addChips f.ledger.carried f.ledger.round = .error (.fault .addOverflow) :=
      addChips_eq_fault large
    rw [overflows, if_pos large]
    rfl
  · have fits : addChips f.ledger.carried f.ledger.round = .ok (f.carried + f.staked) :=
      addChips_eq_ok_iff.2 ⟨rfl, Nat.lt_of_not_le large⟩
    rw [fits, if_neg large]
    show Except.ok _ = Except.ok _
    rw [ledger, staked_begin]
    rfl

end Flat

end Holdem
