import Holdem.Proofs.Flat.Steps
import Holdem.Proofs.Snapshot

/-!
# What flat tables keep

The invariant of a flat table says that no player is seated twice, that the turn belongs to somebody
who can decide, and that the largest bet lies between the bets of the competing players and the
chips of the round. Accepted snapshots start with it and every accepted event keeps it. On top of
it, chips are neither made nor lost, and no more raises are counted than chips were put in.
-/

set_option autoImplicit false

namespace Holdem

namespace Flat

variable {f f' : Flat} {p : Player} {seat new : Seat} {n : Chips}

/-- The invariant of a flat table. -/
structure Sound (f : Flat) : Prop where
  distinct : (f.seats.map Seat.player).Nodup
  dealer_seated : f.dealer ∈ f.seats.map Seat.player
  next_actionable : ∀ p ∈ f.next, ∃ seat, f.seat? p = some seat ∧ seat.isActionable = true
  acted_seated : ∀ p ∈ f.acted, p ∈ f.seats.map Seat.player
  board_le : f.board.size ≤ f.street.boardSize
  stake_le : ∀ seat ∈ f.seats, seat.isActive = true → seat.stake ≤ f.largest
  largest_le : f.largest ≤ f.staked

/-- All chips at the table: in the pot and behind. -/
def total (f : Flat) : Nat := f.carried + f.staked + f.behind

/-! ## The amounts after an event -/

/-- Beginning a street moves no chips from behind the players. -/
@[simp] theorem behind_begin (f : Flat) (street : Street) (board : Board) :
    (f.begin street board).behind = f.behind := by
  simp [begin, behind, Function.comp_def]

/-- No chips are staked when a street begins. -/
@[simp] theorem staked_begin (f : Flat) (street : Street) (board : Board) :
    (f.begin street board).staked = 0 := by
  simp [begin, staked, Function.comp_def]

/-- Replacing a seat changes what is staked by the difference of the two stakes. -/
theorem staked_replace (h : f.Sound) (mem : seat ∈ f.seats) (same : new.player = seat.player) :
    (f.replace new).staked + seat.stake = f.staked + new.stake :=
  sum_map_replace Seat.stake h.distinct mem same

/-- Replacing a seat changes what is behind by the difference of the two stacks. -/
theorem behind_replace (h : f.Sound) (mem : seat ∈ f.seats) (same : new.player = seat.player) :
    (f.replace new).behind + seat.stack = f.behind + new.stack :=
  sum_map_replace Seat.stack h.distinct mem same

/-- Chips that a seat puts in are added to what is staked. -/
theorem staked_commit (h : f.Sound) (mem : seat ∈ f.seats) (n : Chips) :
    (f.replace (seat.commit n)).staked = f.staked + n := by
  have moved := staked_replace h mem (Seat.player_commit seat n)
  rw [Seat.stake_commit] at moved
  lia

/-- Chips that a seat puts in are missing from what is behind. -/
theorem behind_commit (h : f.Sound) (mem : seat ∈ f.seats) (enough : n ≤ seat.stack) :
    (f.replace (seat.commit n)).behind + n = f.behind := by
  have moved := behind_replace h mem (Seat.player_commit seat n)
  rw [Seat.stack_commit] at moved
  lia

/-! ## The invariant -/

/-- An accepted snapshot makes a sound flat table. -/
theorem sound_ofSnapshot {s : Snapshot} (h : s.Accepted) : (ofSnapshot s).Sound where
  distinct := h.distinct
  dealer_seated := h.dealer_seated
  next_actionable := h.next_actionable
  acted_seated := fun p mem => h.acted_seated p (List.mem_toFinset.1 mem)
  board_le := h.board_le
  stake_le := fun _ mem active => Snapshot.stake_le_topStakes mem active
  largest_le := s.topStakes_le_sum

/-- Whoever has acted after a turn has a seat. -/
theorem mem_acted_closeTurn (h : f.Sound) (mem : seat ∈ f.seats) :
    ∀ q ∈ (f.closeTurn seat.player).acted, q ∈ f.seats.map Seat.player := by
  intro q acted
  rcases Finset.mem_insert.1 acted with rfl | before
  · exact List.mem_map_of_mem mem
  · exact h.acted_seated q before

/-- A check leaves the flat table sound. -/
theorem Sound.of_check (h : f.Sound) (mem : seat ∈ f.seats) :
    (f.closeTurn seat.player).Sound where
  distinct := h.distinct
  dealer_seated := h.dealer_seated
  next_actionable := fun _ mem => by cases mem
  acted_seated := mem_acted_closeTurn h mem
  board_le := h.board_le
  stake_le := h.stake_le
  largest_le := h.largest_le

/-- A fold leaves the flat table sound. -/
theorem Sound.of_fold (h : f.Sound) (mem : seat ∈ f.seats) :
    ((f.replace seat.fold).closeTurn seat.player).Sound where
  distinct := by
    show ((f.replace seat.fold).seats.map Seat.player).Nodup
    rw [replace, map_player_replace]
    exact h.distinct
  dealer_seated := by
    show f.dealer ∈ (f.replace seat.fold).seats.map Seat.player
    rw [replace, map_player_replace]
    exact h.dealer_seated
  next_actionable := fun _ mem => by cases mem
  acted_seated := by
    show ∀ q ∈ (f.closeTurn seat.player).acted, q ∈ (f.replace seat.fold).seats.map Seat.player
    rw [replace, map_player_replace]
    exact mem_acted_closeTurn h mem
  board_le := h.board_le
  stake_le := by
    intro s inSeats active
    rcases mem_of_mem_replace inSeats with rfl | ⟨inOld, _⟩
    · simp at active
    · exact h.stake_le s inOld active
  largest_le := by
    have kept := staked_replace h mem (Seat.player_fold seat)
    rw [Seat.stake_fold] at kept
    have largest := h.largest_le
    show f.largest ≤ (f.replace seat.fold).staked
    lia

/-- Putting chips in leaves the flat table sound. -/
theorem Sound.of_put (h : f.Sound) (mem : seat ∈ f.seats) (put : f.put seat n = some f') :
    f'.Sound := by
  have staked := staked_commit h mem n
  have largest := h.largest_le
  have players : (f.replace (seat.commit n)).seats.map Seat.player = f.seats.map Seat.player :=
    map_player_replace f.seats (seat.commit n)
  have distinct : ((f.replace (seat.commit n)).seats.map Seat.player).Nodup := players ▸ h.distinct
  have dealer : f.dealer ∈ (f.replace (seat.commit n)).seats.map Seat.player :=
    players ▸ h.dealer_seated
  obtain ⟨_, ⟨matched, rfl⟩ | ⟨above, _, rfl⟩⟩ := put_cases put
  · -- the largest bet stays, and it is not below the new stake
    refine ⟨distinct, dealer, (fun _ due => by cases due), ?_, h.board_le, ?_, ?_⟩
    · intro q acted
      exact players ▸ mem_acted_closeTurn h mem q acted
    · intro s inSeats active
      rcases mem_of_mem_replace inSeats with rfl | ⟨inOld, _⟩
      · exact matched
      · exact h.stake_le s inOld active
    · show f.largest ≤ (f.replace (seat.commit n)).staked
      lia
  · -- the new stake is the largest bet, which the pot of the round has grown to cover
    have stake_le : seat.stake ≤ f.staked := List.le_sum_of_mem (List.mem_map_of_mem mem)
    refine ⟨distinct, dealer, (fun _ due => by cases due), ?_, h.board_le, ?_, ?_⟩
    · intro q acted
      have self : q = seat.player := by simpa [closeTurn, reopen] using acted
      exact players ▸ self ▸ List.mem_map_of_mem mem
    · intro s inSeats active
      rcases mem_of_mem_replace inSeats with rfl | ⟨inOld, _⟩
      · exact Nat.le_refl _
      · exact Nat.le_trans (h.stake_le s inOld active) (Nat.le_of_lt above)
    · show seat.stake + n ≤ (f.replace (seat.commit n)).staked
      lia

/-- Passing the turn to a player who can decide leaves the flat table sound. -/
theorem Sound.of_turn (h : f.Sound) (found : f.seat? p = some seat)
    (live : seat.isActionable = true) : (f.turnTo p).Sound where
  distinct := h.distinct
  dealer_seated := h.dealer_seated
  next_actionable := by
    intro q mem
    cases mem
    exact ⟨seat, found, live⟩
  acted_seated := h.acted_seated
  board_le := h.board_le
  stake_le := h.stake_le
  largest_le := h.largest_le

/-- Whoever opens a street can decide. -/
theorem actionable_of_opener (h : f.Sound) (mem : p ∈ f.opener) :
    ∃ seat, f.seat? p = some seat ∧ seat.isActionable = true := by
  obtain ⟨seat, found, rfl⟩ := Option.map_eq_some_iff.1 mem
  have inSeats : seat ∈ f.seats := by
    rcases List.mem_append.1 (List.mem_of_find?_eq_some found) with later | earlier
    · exact List.mem_of_mem_drop later
    · exact List.mem_of_mem_take earlier
  exact ⟨seat, seat?_of_mem h.distinct inSeats, List.find?_some found⟩

/-- When a street begins, a player's seat is the one before without its stake. -/
theorem seat?_begin (f : Flat) (street : Street) (board : Board) (p : Player) :
    (f.begin street board).seat? p = (f.seat? p).map Seat.clearStake := by
  simp [begin, seat?, Function.comp_def]

/-- Beginning a street leaves the flat table sound, as long as its board is no larger than the
street's. -/
theorem Sound.of_begin {street : Street} {board : Board} (h : f.Sound)
    (fits : board.size ≤ street.boardSize) : (f.begin street board).Sound where
  distinct := by
    simpa [begin, Function.comp_def] using h.distinct
  dealer_seated := by
    simpa [begin, Function.comp_def] using h.dealer_seated
  next_actionable := by
    intro p mem
    have opens : p ∈ f.opener := by
      by_cases betting : street.isBetting = true
      · simpa [begin, betting] using mem
      · simp [begin, betting] at mem
    obtain ⟨seat, found, live⟩ := actionable_of_opener h opens
    exact ⟨seat.clearStake, by rw [seat?_begin, found]; rfl, live⟩
  acted_seated := by
    intro q acted
    simp [begin] at acted
  board_le := fits
  stake_le := by
    intro s inSeats _
    obtain ⟨old, _, rfl⟩ := List.mem_map.1 inSeats
    exact Nat.le_refl 0
  largest_le := Nat.zero_le _

/-- Every accepted event keeps the invariant. -/
theorem Sound.apply {e : Event} (h : f.Sound) (applied : f.apply e = some f') : f'.Sound := by
  cases e with
  | move p m =>
    obtain ⟨seat, due, _, moved⟩ := applyMove_cases applied
    obtain ⟨mem, rfl⟩ := mem_of_seat? (due?_eq_some_iff.1 due).1
    rcases moved with ⟨_, rfl⟩ | ⟨_, rfl⟩ | ⟨_, _, put⟩
    · exact h.of_check mem
    · exact h.of_fold mem
    · exact h.of_put mem put
  | turn p =>
    obtain ⟨seat, found, live, rfl⟩ := applyTurn_cases applied
    exact h.of_turn found live
  | round street cards =>
    obtain ⟨_, _, board, _, fits, rfl⟩ := applyRound_cases applied
    exact h.of_begin fits

/-! ## Chips and raises -/

/-- Chips are neither made nor lost by an event. -/
theorem total_apply {e : Event} (h : f.Sound) (applied : f.apply e = some f') :
    f'.total = f.total := by
  cases e with
  | move p m =>
    obtain ⟨seat, due, fits, moved⟩ := applyMove_cases applied
    have mem : seat ∈ f.seats := (mem_of_seat? (due?_eq_some_iff.1 due).1).1
    rcases moved with ⟨_, rfl⟩ | ⟨_, rfl⟩ | ⟨notCheck, notFold, put⟩
    · rfl
    · have staked := staked_replace h mem (Seat.player_fold seat)
      have behind := behind_replace h mem (Seat.player_fold seat)
      rw [Seat.stake_fold] at staked
      rw [Seat.stack_fold] at behind
      show f.carried + (f.replace seat.fold).staked + (f.replace seat.fold).behind = f.total
      unfold total
      lia
    · have enough := price_le_stack fits
      have staked := staked_commit h mem (f.price seat m)
      have behind := behind_commit h mem enough
      have both : f.carried + (f.replace (seat.commit (f.price seat m))).staked +
          (f.replace (seat.commit (f.price seat m))).behind = f.total := by
        unfold total
        lia
      obtain ⟨_, ⟨_, rfl⟩ | ⟨_, _, rfl⟩⟩ := put_cases put
      · exact both
      · exact both
  | turn p =>
    obtain ⟨_, _, _, rfl⟩ := applyTurn_cases applied
    rfl
  | round street cards =>
    obtain ⟨_, _, board, _, _, rfl⟩ := applyRound_cases applied
    unfold total
    rw [staked_begin, behind_begin]
    rfl

/-- Every raise that is counted brings at least one chip into the pot. -/
theorem raises_apply {e : Event} (h : f.Sound) (applied : f.apply e = some f') :
    f'.raises + (f.carried + f.staked) ≤ f.raises + (f'.carried + f'.staked) := by
  cases e with
  | move p m =>
    obtain ⟨seat, due, fits, moved⟩ := applyMove_cases applied
    obtain ⟨found, live, _⟩ := due?_eq_some_iff.1 due
    have mem : seat ∈ f.seats := (mem_of_seat? found).1
    rcases moved with ⟨_, rfl⟩ | ⟨_, rfl⟩ | ⟨notCheck, notFold, put⟩
    · exact Nat.le_refl _
    · have staked := staked_replace h mem (Seat.player_fold seat)
      rw [Seat.stake_fold] at staked
      show f.raises + (f.carried + f.staked) ≤
        f.raises + (f.carried + (f.replace seat.fold).staked)
      lia
    · -- a stake that was at most the largest bet and is now above it has grown
      have staked := staked_commit h mem (f.price seat m)
      have stake := h.stake_le seat mem (Seat.isActive_of_isActionable live)
      obtain ⟨_, ⟨_, rfl⟩ | ⟨above, _, rfl⟩⟩ := put_cases put
      · show f.raises + (f.carried + f.staked) ≤
          f.raises + (f.carried + (f.replace (seat.commit (f.price seat m))).staked)
        lia
      · show f.raises + 1 + (f.carried + f.staked) ≤
          f.raises + (f.carried + (f.replace (seat.commit (f.price seat m))).staked)
        lia
  | turn p =>
    obtain ⟨_, _, _, rfl⟩ := applyTurn_cases applied
    exact Nat.le_refl _
  | round street cards =>
    obtain ⟨_, _, board, _, _, rfl⟩ := applyRound_cases applied
    rw [staked_begin]
    show 0 + (f.carried + f.staked) ≤ f.raises + (f.carried + f.staked + 0)
    lia

/-- The smallest raise stays below a bound on all chips and on the big blind. -/
theorem minRaise_apply {e : Event} {bound : Chips} (h : f.Sound) (applied : f.apply e = some f')
    (chips : f.total ≤ bound) (blind : f.bigBlind ≤ bound) (least : f.minRaise ≤ bound) :
    f'.minRaise ≤ bound := by
  have kept := total_apply h applied
  have largest := (h.apply applied).largest_le
  cases e with
  | move p m =>
    rcases betting_applyMove applied with ⟨_, _, _, grown, _⟩ | ⟨_, _, _, same, _⟩
    · -- the increment is part of the new largest bet, which lies in the pot
      rw [grown]
      refine max_le least ((Nat.sub_le _ _).trans (largest.trans ?_))
      unfold total at kept
      unfold total at chips
      lia
    · exact same ▸ least
  | turn p =>
    obtain ⟨_, _, _, rfl⟩ := applyTurn_cases applied
    exact least
  | round street cards =>
    obtain ⟨_, _, board, _, _, rfl⟩ := applyRound_cases applied
    exact blind

/-! ## Runs -/

/-- What every accepted event keeps is kept by every run of them. -/
theorem run_invariant {P : Flat → Prop} {events : List Event}
    (step : ∀ g g' e, g.Sound → P g → g.apply e = some g' → P g') (h : f.Sound) (holds : P f)
    (ran : f.run events = some f') : f'.Sound ∧ P f' := by
  induction events generalizing f with
  | nil =>
    obtain rfl := Option.some.inj ran
    exact ⟨h, holds⟩
  | cons e events ih =>
    rw [run, List.foldlM_cons] at ran
    obtain ⟨g, applied, rest⟩ := Option.bind_eq_some_iff.1 ran
    exact ih (h.apply applied) (step f g e h holds applied) rest

/-- Every run keeps a flat table sound. -/
theorem Sound.run {events : List Event} (h : f.Sound) (ran : f.run events = some f') : f'.Sound :=
  (run_invariant (P := fun _ => True) (fun _ _ _ _ _ _ => trivial) h trivial ran).1

/-- Chips are neither made nor lost by a run. -/
theorem total_run {events : List Event} (h : f.Sound) (ran : f.run events = some f') :
    f'.total = f.total := by
  have kept := run_invariant (P := fun g => g.total = f.total)
    (fun g g' e sound same applied => (total_apply sound applied).trans same) h rfl ran
  exact kept.2

/-- No run changes the big blind. -/
theorem bigBlind_run {events : List Event} (h : f.Sound) (ran : f.run events = some f') :
    f'.bigBlind = f.bigBlind := by
  have kept := run_invariant (P := fun g => g.bigBlind = f.bigBlind)
    (fun _ _ _ _ same applied => (bigBlind_apply applied).trans same) h rfl ran
  exact kept.2

/-- A bound on all chips, the big blind and the smallest raise holds for the smallest raise after
every run. -/
theorem minRaise_run {events : List Event} {bound : Chips} (h : f.Sound)
    (ran : f.run events = some f') (chips : f.total ≤ bound) (blind : f.bigBlind ≤ bound)
    (least : f.minRaise ≤ bound) : f'.minRaise ≤ bound := by
  have kept := run_invariant
    (P := fun g => g.total ≤ bound ∧ g.bigBlind ≤ bound ∧ g.minRaise ≤ bound)
    (fun g g' e sound before applied => by
      obtain ⟨chips, blind, least⟩ := before
      exact ⟨total_apply sound applied ▸ chips, bigBlind_apply applied ▸ blind,
        minRaise_apply sound applied chips blind least⟩)
    h ⟨chips, blind, least⟩ ran
  exact kept.2.2.2

/-- Raises take chips: over a run they grow by no more than the pot does. -/
theorem raises_run {events : List Event} (h : f.Sound) (ran : f.run events = some f') :
    f'.raises + (f.carried + f.staked) ≤ f.raises + (f'.carried + f'.staked) := by
  have kept := run_invariant
    (P := fun g => g.raises + (f.carried + f.staked) ≤ f.raises + (g.carried + g.staked))
    (fun g g' e sound before applied => by have counted := raises_apply sound applied; lia)
    h (Nat.le_refl _) ran
  exact kept.2

end Flat

end Holdem
