import Holdem.Proofs.Outcome
import Holdem.Table.Snapshot
import Mathlib

/-!
# Accepted snapshots

What the check of a snapshot promises to the table that starts from it, and what its largest stake
is.
-/

set_option autoImplicit false

namespace Holdem

namespace Snapshot

variable {s : Snapshot}

/-- A snapshot that passes its check seats somebody and nobody twice; its dealer, its next player
and the players who have acted have seats; the next player can decide; the board is not ahead of the
street. -/
structure Accepted (s : Snapshot) : Prop where
  seated : s.seats ≠ []
  distinct : (s.seats.map Seat.player).Nodup
  dealer_seated : s.dealer ∈ s.seats.map Seat.player
  next_actionable : ∀ p ∈ s.next, ∃ seat, s.seat? p = some seat ∧ seat.isActionable = true
  acted_seated : ∀ p ∈ s.acted, p ∈ s.seats.map Seat.player
  board_le : s.board.size ≤ s.street.boardSize

/-- The seats are checked to have distinct players, none of whom was seen before. -/
theorem checkSeatedOnce_eq_ok_iff {seats : List Seat} {seen : List Player} :
    checkSeatedOnce seen seats = .ok () ↔
      (seats.map Seat.player).Nodup ∧ ∀ p ∈ seen, p ∉ seats.map Seat.player := by
  -- the players seen so far grow, so the statement is about every list of them
  induction seats generalizing seen with
  | nil => simp [checkSeatedOnce]
  | cons seat seats ih =>
    unfold checkSeatedOnce
    by_cases before : seen.contains seat.player = true
    · have again : seat.player ∈ seen := by simpa using before
      rw [if_pos before]
      constructor
      · intro ended
        cases ended
      · rintro ⟨_, apart⟩
        exact absurd List.mem_cons_self (apart _ again)
    rw [if_neg before, ih, List.map_cons, List.nodup_cons]
    have fresh : seat.player ∉ seen := by simpa using before
    constructor
    · rintro ⟨distinct, apart⟩
      refine ⟨⟨apart _ (by simp), distinct⟩, ?_⟩
      intro p inSeen
      have other : p ≠ seat.player := fun same => fresh (same ▸ inSeen)
      have later := apart p (by simp [inSeen])
      simp [other, later]
    · rintro ⟨⟨once, distinct⟩, apart⟩
      refine ⟨distinct, List.forall_mem_cons.2 ⟨once, ?_⟩⟩
      intro p inSeen later
      exact apart p inSeen (List.mem_cons_of_mem _ later)

/-- A player is seated exactly when some seat is the player's. -/
theorem isSeated_iff {p : Player} : s.isSeated p = true ↔ p ∈ s.seats.map Seat.player := by
  rw [isSeated, seat?, List.find?_isSome]
  simp

/-- The next player is checked to be seated and able to act. -/
theorem checkNext_eq_ok_iff : s.checkNext = .ok () ↔
    ∀ p ∈ s.next, ∃ seat, s.seat? p = some seat ∧ seat.isActionable = true := by
  unfold checkNext
  cases next : s.next with
  | none => simp
  | some p =>
    cases found : s.seat? p with
    | none => simp [found]
    | some seat => simp [found]

/-- The players named are checked to be seated. -/
theorem checkSeated_eq_ok_iff {players : List Player} :
    s.checkSeated players = .ok () ↔ ∀ p ∈ players, p ∈ s.seats.map Seat.player := by
  unfold checkSeated
  cases found : players.find? (fun p => !s.isSeated p) with
  | some q =>
    have stranger : s.isSeated q = false := by simpa using List.find?_some found
    constructor
    · intro ended
      cases ended
    · intro seated
      have known := isSeated_iff.2 (seated q (List.mem_of_find?_eq_some found))
      rw [stranger] at known
      cases known
  | none =>
    refine ⟨fun _ p mem => ?_, fun _ => rfl⟩
    have seated := List.find?_eq_none.1 found p mem
    exact isSeated_iff.1 (by simpa using seated)

/-- What the check of a snapshot checks. -/
theorem check_eq_ok_iff : s.check = .ok () ↔
    s.seats ≠ [] ∧ s.seats.length ≤ seatLimit ∧ (s.seats.map Seat.player).Nodup ∧
      s.dealer ∈ s.seats.map Seat.player ∧
      (∀ p ∈ s.next, ∃ seat, s.seat? p = some seat ∧ seat.isActionable = true) ∧
      (∀ p ∈ s.acted ++ s.bettor.toList, p ∈ s.seats.map Seat.player) ∧
      s.board.size ≤ s.street.boardSize ∧
      checkDealtOnce s.board.cards (s.seats.filterMap Seat.hole) = .ok () := by
  have once : checkSeatedOnce [] s.seats = .ok () ↔ (s.seats.map Seat.player).Nodup := by
    simp [checkSeatedOnce_eq_ok_iff]
  have dealer : (!s.isSeated s.dealer) = true ↔ s.dealer ∉ s.seats.map Seat.player := by
    rw [← isSeated_iff, Bool.not_eq_true', Bool.not_eq_true]
  simp only [check, refuse_eq_ok, bind_eq_ok, Unique.exists_iff, PUnit.default_eq_unit,
    once, dealer, checkNext_eq_ok_iff, checkSeated_eq_ok_iff, List.isEmpty_iff, not_lt, not_not,
    ne_eq]

/-- A snapshot that passes its check is accepted. -/
theorem accepted_of_check (h : s.check = .ok ()) : s.Accepted := by
  obtain ⟨seated, _, distinct, dealer, next, acted, board, _⟩ := check_eq_ok_iff.1 h
  exact ⟨seated, distinct, dealer, next, fun p mem => acted p (List.mem_append_left _ mem), board⟩

/-! ## The largest stake -/

/-- The largest stake is that of the active seats, and zero if there are none. -/
theorem topStakes_fst (s : Snapshot) :
    s.topStakes.1 = (((s.seats.filter Seat.isActive).map Seat.stake).max?).getD 0 := by
  -- the first of the two stakes that are carried along is a running maximum
  have step : ∀ (top : Chips × Chips) (stake : Chips), max top.1 stake =
      (if top.1 < stake then (stake, top.1)
        else if top.2 < stake then (top.1, stake) else (top.1, top.2)).1 := by
    intro top stake
    by_cases more : top.1 < stake
    · simp only [if_pos more]
      lia
    · rw [if_neg more]
      by_cases second : top.2 < stake
      · rw [if_pos second]
        lia
      · rw [if_neg second]
        lia
  calc s.topStakes.1
      = ((s.seats.filter Seat.isActive).map Seat.stake).foldl max 0 :=
        (List.foldl_hom Prod.fst step).symm
    _ = _ := by rw [List.foldl_max, Nat.zero_max]

/-- The stake of an active seat is at most the largest one. -/
theorem stake_le_topStakes {seat : Seat} (mem : seat ∈ s.seats) (active : seat.isActive = true) :
    seat.stake ≤ s.topStakes.1 := by
  have inStakes : seat.stake ∈ (s.seats.filter Seat.isActive).map Seat.stake :=
    List.mem_map_of_mem (List.mem_filter.2 ⟨mem, active⟩)
  rw [topStakes_fst]
  exact List.le_max?_getD_of_mem inStakes

/-- The largest stake is zero or that of an active seat. -/
theorem topStakes_held (s : Snapshot) :
    s.topStakes.1 = 0 ∨ ∃ seat ∈ s.seats, seat.isActive = true ∧ seat.stake = s.topStakes.1 := by
  rw [topStakes_fst]
  cases found : ((s.seats.filter Seat.isActive).map Seat.stake).max? with
  | none => exact Or.inl rfl
  | some top =>
    obtain ⟨seat, mem, rfl⟩ := List.mem_map.1 (List.max?_mem found)
    obtain ⟨inSeats, active⟩ := List.mem_filter.1 mem
    exact Or.inr ⟨seat, inSeats, active, rfl⟩

/-- The largest stake is at most the sum of all. -/
theorem topStakes_le_sum (s : Snapshot) : s.topStakes.1 ≤ (s.seats.map Seat.stake).sum := by
  rw [topStakes_fst]
  cases found : ((s.seats.filter Seat.isActive).map Seat.stake).max? with
  | none => exact Nat.zero_le _
  | some most =>
    obtain ⟨seat, inActive, rfl⟩ := List.mem_map.1 (List.max?_mem found)
    exact List.le_sum_of_mem (List.mem_map_of_mem (List.mem_filter.1 inActive).1)

/-! ## A small one -/

/-- Two players before the flop with the blinds posted, and chips of an earlier round in the pot. -/
def headsUp (pot : Chips) : Snapshot where
  seats := [
    { player := ⟨0⟩, stack := 9, stake := 1 },
    { player := ⟨1⟩, stack := 8, stake := 2 }]
  pot := pot
  next := some ⟨0⟩

end Snapshot

end Holdem
