import Holdem.Proofs.Flat.Basic

/-!
# Steps of a flat table

What an accepted event does to a flat table, and what every accepted event keeps: no player is
seated twice, the turn belongs to someone who can decide, no bet of a competing player is above the
largest one. Chips are neither made nor lost, and every raise brings at least one chip into the pot.
-/

set_option autoImplicit false

namespace Holdem

namespace Seat

/-- A seat that puts chips in keeps its player. -/
@[simp] theorem player_commit (s : Seat) (n : Chips) : (s.commit n).player = s.player := rfl

/-- Chips that are put in are added to the stake. -/
@[simp] theorem stake_commit (s : Seat) (n : Chips) : (s.commit n).stake = s.stake + n := rfl

/-- Chips that are put in leave the stack. -/
@[simp] theorem stack_commit (s : Seat) (n : Chips) : (s.commit n).stack = s.stack - n := rfl

/-- A seat that folds keeps its player. -/
@[simp] theorem player_fold (s : Seat) : s.fold.player = s.player := rfl

/-- A seat that folds keeps its stake. -/
@[simp] theorem stake_fold (s : Seat) : s.fold.stake = s.stake := rfl

/-- A seat that folds keeps its stack. -/
@[simp] theorem stack_fold (s : Seat) : s.fold.stack = s.stack := rfl

/-- A cleared seat keeps its player. -/
@[simp] theorem player_clearStake (s : Seat) : s.clearStake.player = s.player := rfl

/-- A cleared seat has no stake. -/
@[simp] theorem stake_clearStake (s : Seat) : s.clearStake.stake = 0 := rfl

/-- A cleared seat keeps its stack. -/
@[simp] theorem stack_clearStake (s : Seat) : s.clearStake.stack = s.stack := rfl

/-- A cleared seat competes if it did before. -/
@[simp] theorem isActive_clearStake (s : Seat) : s.clearStake.isActive = s.isActive := rfl

/-- A cleared seat can decide if it could before. -/
@[simp] theorem isActionable_clearStake (s : Seat) :
    s.clearStake.isActionable = s.isActionable := rfl

/-- A seat that has folded does not compete. -/
@[simp] theorem isActive_fold (s : Seat) : s.fold.isActive = false := by
  simp [isActive, fold, Status.isActive]

/-- A seat that has folded has no decisions to make. -/
@[simp] theorem isActionable_fold (s : Seat) : s.fold.isActionable = false := by
  simp [isActionable, fold]

/-- Whoever can decide competes. -/
theorem isActive_of_isActionable {s : Seat} (h : s.isActionable = true) : s.isActive = true := by
  simp only [isActionable, Bool.and_eq_true, beq_iff_eq] at h
  simp [isActive, Status.isActive, h.1, h.2]

/-- A seat that could decide competes after it put chips in. -/
theorem isActive_commit {s : Seat} (h : s.isActionable = true) (n : Chips) :
    (s.commit n).isActive = true := by
  simp only [isActionable, Bool.and_eq_true, beq_iff_eq] at h
  by_cases all : s.stack = n <;> simp [isActive, Status.isActive, commit, h.1, h.2, all]

/-- A seat that could decide still can after it put chips in, unless these were all it had. -/
theorem isActionable_commit {s : Seat} (h : s.isActionable = true) (n : Chips) :
    (s.commit n).isActionable = decide (s.stack ≠ n) := by
  simp only [isActionable, Bool.and_eq_true, beq_iff_eq] at h
  by_cases all : s.stack = n <;> simp [isActionable, commit, h.1, h.2, all]

end Seat

/-! ## Lists of seats in which no player sits twice -/

section Seats

variable {seats : List Seat} {seat new : Seat}

/-- Replacing the seat of a stranger changes nothing. -/
theorem map_replace_of_notMem (stranger : new.player ∉ seats.map Seat.player) :
    seats.map (fun s => if s.player = new.player then new else s) = seats := by
  induction seats with
  | nil => rfl
  | cons s seats ih =>
    simp only [List.map_cons, List.mem_cons, not_or] at stranger
    simp only [List.map_cons, ih stranger.2, if_neg (Ne.symm stranger.1)]

/-- Replacing a seat keeps the players in their places. -/
theorem map_player_replace (seats : List Seat) (new : Seat) :
    (seats.map (fun s => if s.player = new.player then new else s)).map Seat.player =
      seats.map Seat.player := by
  rw [List.map_map]
  apply List.map_congr_left
  intro s _
  by_cases same : s.player = new.player <;> simp [same]

/-- Replacing a seat exchanges its part of a sum over all seats. -/
theorem sum_map_replace (amount : Seat → Nat) (distinct : (seats.map Seat.player).Nodup)
    (mem : seat ∈ seats) (same : new.player = seat.player) :
    ((seats.map (fun s => if s.player = new.player then new else s)).map amount).sum + amount seat =
      (seats.map amount).sum + amount new := by
  induction seats with
  | nil => cases mem
  | cons s seats ih =>
    rw [List.map_cons, List.nodup_cons] at distinct
    rcases List.mem_cons.1 mem with rfl | tail
    · -- the player sits here, so nobody further on is replaced
      have stranger : new.player ∉ seats.map Seat.player := same ▸ distinct.1
      simp only [List.map_cons, map_replace_of_notMem stranger, if_pos same.symm, List.sum_cons]
      omega
    · have other : s.player ≠ new.player := by
        intro eq
        exact distinct.1 (eq ▸ same ▸ List.mem_map_of_mem tail)
      have rest := ih distinct.2 tail
      simp only [List.map_cons, if_neg other, List.sum_cons]
      omega

/-- A seat among those with one replaced is the new one, or one of the others. -/
theorem mem_of_mem_replace {s : Seat}
    (mem : s ∈ seats.map (fun s => if s.player = new.player then new else s)) :
    s = new ∨ (s ∈ seats ∧ s.player ≠ new.player) := by
  obtain ⟨old, inOld, rfl⟩ := List.mem_map.1 mem
  by_cases same : old.player = new.player
  · simp [same]
  · simp [same, inOld]

/-- Players sit once, so a seat is known by its player. -/
theorem eq_of_player_eq {s : Seat} (distinct : (seats.map Seat.player).Nodup) (mem : seat ∈ seats)
    (inSeats : s ∈ seats) (same : s.player = seat.player) : s = seat :=
  List.inj_on_of_nodup_map distinct inSeats mem same

end Seats

namespace Flat

variable {f f' : Flat} {p : Player} {seat : Seat} {n : Chips}

/-! ## Looking up seats -/

/-- The seat that is found for a player is one of the table and the player's. -/
theorem mem_of_seat? (h : f.seat? p = some seat) : seat ∈ f.seats ∧ seat.player = p :=
  ⟨List.mem_of_find?_eq_some h, by simpa using List.find?_some h⟩

/-- A seat of a table is found for its player. -/
theorem seat?_of_mem (distinct : (f.seats.map Seat.player).Nodup) (mem : seat ∈ f.seats) :
    f.seat? seat.player = some seat := by
  cases found : f.seat? seat.player with
  | none =>
    have absent := List.find?_eq_none.1 found seat mem
    simp at absent
  | some s =>
    obtain ⟨inSeats, same⟩ := mem_of_seat? found
    rw [eq_of_player_eq distinct mem inSeats same]

/-- Which seat is found depends on the seats alone. -/
theorem seat?_congr (seats : f'.seats = f.seats) (p : Player) : f'.seat? p = f.seat? p := by
  rw [seat?, seat?, seats]

/-- No seat is found just for players who have none. -/
theorem seat?_eq_none_iff : f.seat? p = none ↔ p ∉ f.seats.map Seat.player := by
  rw [seat?, List.find?_eq_none, List.mem_map]
  constructor
  · rintro none ⟨s, mem, rfl⟩
    exact absurd (beq_self_eq_true _) (none s mem)
  · intro stranger s mem self
    exact stranger ⟨s, mem, by simpa using self⟩

/-- After a replacement the new seat is found for its player, and the old ones for the others. -/
theorem seat?_replace (distinct : (f.seats.map Seat.player).Nodup) (mem : seat ∈ f.seats)
    {new : Seat} (same : new.player = seat.player) (p : Player) :
    (f.replace new).seat? p = if new.player = p then some new else f.seat? p := by
  have players : (f.replace new).seats.map Seat.player = f.seats.map Seat.player :=
    map_player_replace f.seats new
  have apart : ((f.replace new).seats.map Seat.player).Nodup := players ▸ distinct
  -- either way the seat is in the new list, in which it is the only one of its player
  by_cases self : new.player = p
  · have inNew : new ∈ (f.replace new).seats := List.mem_map.2 ⟨seat, mem, if_pos same.symm⟩
    rw [if_pos self, ← self, seat?_of_mem apart inNew]
  · rw [if_neg self]
    cases found : f.seat? p with
    | none =>
      rw [seat?_eq_none_iff] at found ⊢
      rwa [players]
    | some s =>
      obtain ⟨inSeats, rfl⟩ := mem_of_seat? found
      have kept : s ∈ (f.replace new).seats := List.mem_map.2 ⟨s, inSeats, if_neg (Ne.symm self)⟩
      exact seat?_of_mem apart kept

/-- A player is due with a seat that can decide, unless the turn is somebody else's. -/
theorem due?_eq_some_iff : f.due? p = some seat ↔
    f.seat? p = some seat ∧ seat.isActionable = true ∧ ∀ q ∈ f.next, q = p := by
  rw [due?, Option.filter_eq_some_iff, Bool.and_eq_true, Option.all_eq_true]
  simp

/-! ## What an accepted event does -/

/-- A put that is accepted either leaves the largest bet or makes a new one. -/
theorem put_cases (h : f.put seat n = some f') :
    f.staked + n < chipLimit ∧
      ((seat.stake + n ≤ f.largest ∧
          f' = (f.replace (seat.commit n)).closeTurn seat.player) ∨
        (f.largest < seat.stake + n ∧ f.raises + 1 < countLimit ∧
          f' = ((f.replace (seat.commit n)).reopen seat.player (seat.stake + n)).closeTurn
            seat.player)) := by
  unfold put at h
  by_cases fits : chipLimit ≤ f.staked + n
  · simp [fits] at h
  rw [if_neg fits] at h
  refine ⟨by lia, ?_⟩
  by_cases matched : seat.stake + n ≤ f.largest
  · rw [if_pos matched] at h
    exact Or.inl ⟨matched, (Option.some.inj h).symm⟩
  · rw [if_neg matched] at h
    by_cases counted : countLimit ≤ f.raises + 1
    · simp [counted] at h
    · rw [if_neg counted] at h
      exact Or.inr ⟨by lia, by lia, (Option.some.inj h).symm⟩

/-- Putting chips in replaces one seat, and leaves the dealer and the big blind. -/
theorem put_seats (h : f.put seat n = some f') :
    f'.seats = (f.replace (seat.commit n)).seats ∧ f'.dealer = f.dealer ∧
      f'.bigBlind = f.bigBlind := by
  obtain ⟨_, ⟨_, rfl⟩ | ⟨_, _, rfl⟩⟩ := put_cases h
  · exact ⟨rfl, rfl, rfl⟩
  · exact ⟨rfl, rfl, rfl⟩

/-- A move that is accepted is made by a player who may act, and it is a check, a fold, or a put of
its price. -/
theorem applyMove_cases {m : Move} (h : f.applyMove p m = some f') :
    ∃ seat, f.due? p = some seat ∧ f.permits seat m = true ∧
      ((m = .check ∧ f' = f.closeTurn p) ∨
        (m = .fold ∧ f' = (f.replace seat.fold).closeTurn p) ∨
        (m ≠ .check ∧ m ≠ .fold ∧ f.put seat (f.price seat m) = some f')) := by
  unfold applyMove at h
  obtain ⟨seat, due, h⟩ := Option.bind_eq_some_iff.1 h
  refine ⟨seat, due, ?_⟩
  by_cases fits : f.permits seat m = true
  · rw [if_pos fits] at h
    refine ⟨fits, ?_⟩
    cases m with
    | check => exact Or.inl ⟨rfl, (Option.some.inj h).symm⟩
    | fold => exact Or.inr (Or.inl ⟨rfl, (Option.some.inj h).symm⟩)
    | call | bet _ | raise _ | allIn => exact Or.inr (Or.inr ⟨by simp, by simp, h⟩)
  · simp [fits] at h

/-- The same of the seat that is known to be the player's. -/
theorem applyMove_of_seat? {m : Move} (h : f.applyMove p m = some f')
    (found : f.seat? p = some seat) :
    seat.isActionable = true ∧ f.permits seat m = true ∧
      ((m = .check ∧ f' = f.closeTurn p) ∨
        (m = .fold ∧ f' = (f.replace seat.fold).closeTurn p) ∨
        (m ≠ .check ∧ m ≠ .fold ∧ f.put seat (f.price seat m) = some f')) := by
  obtain ⟨s, due, fits, moved⟩ := applyMove_cases h
  obtain ⟨found', live, _⟩ := due?_eq_some_iff.1 due
  obtain rfl : s = seat := Option.some.inj (found'.symm.trans found)
  exact ⟨live, fits, moved⟩

/-- A move that fits the betting is accepted as long as the amounts stay within their bounds. -/
theorem exists_applyMove {m : Move} (due : f.due? p = some seat) (fits : f.permits seat m = true)
    (room : f.staked + f.price seat m < chipLimit) (counted : f.raises + 1 < countLimit) :
    ∃ f', f.applyMove p m = some f' := by
  have put : ∃ f', f.put seat (f.price seat m) = some f' := by
    rw [Flat.put, if_neg (Nat.not_le.2 room)]
    by_cases matched : seat.stake + f.price seat m ≤ f.largest
    · exact ⟨_, if_pos matched⟩
    · rw [if_neg matched, if_neg (Nat.not_le.2 counted)]
      exact ⟨_, rfl⟩
  rw [applyMove, due]
  show ∃ f', (if f.permits seat m = true then _ else none) = some f'
  rw [if_pos fits]
  cases m with
  | check => exact ⟨_, rfl⟩
  | fold => exact ⟨_, rfl⟩
  | call | bet _ | raise _ | allIn => exact put

/-- No move changes the board. -/
theorem board_applyMove {m : Move} (h : f.applyMove p m = some f') : f'.board = f.board := by
  obtain ⟨seat, _, _, ⟨_, rfl⟩ | ⟨_, rfl⟩ | ⟨_, _, put⟩⟩ := applyMove_cases h
  · rfl
  · rfl
  · obtain ⟨_, ⟨_, rfl⟩ | ⟨_, _, rfl⟩⟩ := put_cases put <;> rfl

/-- A move that raises the largest bet is counted as a raise and makes its player the last bettor,
and its increment is the smallest raise if that was less; any other move leaves all this. -/
theorem betting_applyMove {m : Move} (h : f.applyMove p m = some f') :
    (f.largest < f'.largest ∧ f'.raises = f.raises + 1 ∧ f'.bettor = some p ∧
        f'.minRaise = max f.minRaise (f'.largest - f.largest) ∧ f'.acted = {p}) ∨
      (f'.largest = f.largest ∧ f'.raises = f.raises ∧ f'.bettor = f.bettor ∧
        f'.minRaise = f.minRaise ∧ f'.acted = insert p f.acted) := by
  obtain ⟨seat, due, _, ⟨_, rfl⟩ | ⟨_, rfl⟩ | ⟨_, _, put⟩⟩ := applyMove_cases h
  · exact Or.inr ⟨rfl, rfl, rfl, rfl, rfl⟩
  · exact Or.inr ⟨rfl, rfl, rfl, rfl, rfl⟩
  · obtain ⟨_, rfl⟩ := mem_of_seat? (due?_eq_some_iff.1 due).1
    obtain ⟨_, ⟨_, rfl⟩ | ⟨above, _, rfl⟩⟩ := put_cases put
    · exact Or.inr ⟨rfl, rfl, rfl, rfl, rfl⟩
    · exact Or.inl ⟨above, rfl, rfl, rfl, rfl⟩

/-- Nobody pays more than lies behind. -/
theorem price_le_stack {m : Move} (fits : f.permits seat m = true) :
    f.price seat m ≤ seat.stack := by
  cases m with
  | check | fold => exact Nat.zero_le _
  | call => exact Nat.min_le_right _ _
  | bet n =>
    simp only [permits, Bool.and_eq_true, decide_eq_true_eq] at fits
    exact fits.1.2
  | raise n =>
    simp only [permits, Bool.and_eq_true, decide_eq_true_eq] at fits
    exact fits.1.2
  | allIn => exact Nat.le_refl _

/-- Whoever pays less than all that lies behind matches the largest bet. -/
theorem lack_le_price {m : Move} (fits : f.permits seat m = true) (notCheck : m ≠ .check)
    (notFold : m ≠ .fold) (keeps : f.price seat m ≠ seat.stack) :
    f.lack seat ≤ f.price seat m := by
  cases m with
  | check => exact absurd rfl notCheck
  | fold => exact absurd rfl notFold
  | call =>
    simp only [price] at keeps ⊢
    lia
  | bet n =>
    simp only [permits, Bool.and_eq_true, decide_eq_true_eq] at fits
    simp only [price, lack]
    lia
  | raise n => exact Nat.le_add_right _ _
  | allIn => exact absurd rfl keeps

/-- A turn that is accepted passes to a player who can decide. -/
theorem applyTurn_cases (h : f.applyTurn p = some f') :
    ∃ seat, f.seat? p = some seat ∧ seat.isActionable = true ∧ f' = f.turnTo p := by
  unfold applyTurn at h
  by_cases live : (f.seat? p).any Seat.isActionable = true
  · rw [if_pos live] at h
    obtain ⟨seat, found, actionable⟩ := Option.any_eq_true _ _ |>.1 live
    exact ⟨seat, found, actionable, (Option.some.inj h).symm⟩
  · simp [live] at h

/-- A street that is accepted comes later than the one before, its board fits, and the pot is an
amount of chips. -/
theorem applyRound_cases {street : Street} {cards : Hand}
    (h : f.applyRound street cards = some f') :
    f.street.index < street.index ∧ f.carried + f.staked < chipLimit ∧
      ∃ board, f.board.reveal cards = .ok board ∧ board.size ≤ street.boardSize ∧
        f' = f.begin street board := by
  unfold applyRound at h
  by_cases early : (street.index ≤ f.street.index || chipLimit ≤ f.carried + f.staked) = true
  · simp [early] at h
  · rw [if_neg early] at h
    simp only [Bool.or_eq_true, decide_eq_true_eq, not_or, not_le] at early
    refine ⟨early.1, early.2, ?_⟩
    cases shown : f.board.reveal cards with
    | error _ => simp [shown] at h
    | ok board =>
      simp only [shown] at h
      by_cases large : street.boardSize < board.size
      · simp [large] at h
      · rw [if_neg large] at h
        exact ⟨board, rfl, by lia, (Option.some.inj h).symm⟩

/-- No event changes the big blind. -/
theorem bigBlind_apply {e : Event} (h : f.apply e = some f') : f'.bigBlind = f.bigBlind := by
  cases e with
  | move p m =>
    obtain ⟨_, _, _, ⟨_, rfl⟩ | ⟨_, rfl⟩ | ⟨_, _, put⟩⟩ := applyMove_cases h
    · rfl
    · rfl
    · exact (put_seats put).2.2
  | turn p =>
    obtain ⟨_, _, _, rfl⟩ := applyTurn_cases h
    rfl
  | round street cards =>
    obtain ⟨_, _, board, _, _, rfl⟩ := applyRound_cases h
    rfl

end Flat

end Holdem
