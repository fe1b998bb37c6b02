import Holdem.Proofs.Table.Progress
import Holdem.Proofs.Within

/-!
# What keeps a legal action from being played

As long as the amounts fit, every legal action is played. So one that is not played came to a sum
that does not fit: of the stake, of the pot, or of the raises. It is never refused, nobody is
missing to answer it, and no assertion is broken.
-/

set_option autoImplicit false

namespace Holdem

/-- A bet that the stack allows fails only if the stake overflows. -/
theorem Seat.within_bet {seat : Seat} {n : Chips} (enough : n ≤ seat.stack) :
    Outcome.Within (· = .fault .addOverflow) (fun _ => True) (seat.bet n) := by
  rw [bet, if_neg (Nat.not_lt.2 enough)]
  exact ((Outcome.within_addChips _ _).mono (fun _ => And.left) (fun _ => id)).bind
    (fun _ _ => trivial)

/-- A wager that the stack allows fails only if an amount overflows. -/
theorem Ledger.within_wager (l : Ledger) {seat : Seat} {n : Chips} (enough : n ≤ seat.stack) :
    Outcome.Within (· = .fault .addOverflow) (fun _ => True) (l.wager seat n) := by
  unfold wager
  refine (Seat.within_bet enough).bind (fun staked _ => ?_)
  refine ((Outcome.within_addChips _ _).mono (fun _ => And.left) (fun _ => id)).bind
    (fun round _ => ?_)
  dsimp only
  split
  · have counted : Outcome.Within (· = .fault .addOverflow) (fun _ => True)
        (addCounts l.raises 1) :=
      (Outcome.within_addCounts _ _).mono (fun _ => And.left) (fun _ _ => trivial)
    exact Outcome.Within.bind (P := fun _ => True) (counted.bind (fun _ _ => trivial))
      (fun _ _ => trivial)
  · trivial

namespace Table

variable {t t' : Table} {f : Flat} {a : Action} {p : Player} {seat : Seat}

/-- A move that fits the betting is accepted unless a sum does not fit. -/
theorem Shows.within_applyMove {m : Move} (h : t.Shows f) (sound : f.Sound) (due : f.next = some p)
    (found : f.seat? p = some seat) (fits : f.permits seat m = true) :
    Outcome.Within (· = .fault .addOverflow) (fun _ => True) (t.applyMove p m) := by
  obtain ⟨own, found', live⟩ := sound.next_actionable p due
  obtain rfl : own = seat := Option.some.inj (found'.symm.trans found)
  have answers := h.answers sound
  have mayAct : t.due p = .ok own :=
    due_eq_ok_iff.2 ⟨h.seat_eq found, live, by rw [answers.nextToAct, due]; simp [eq_comm]⟩
  have wagered : ∀ (e : Event) (n : Chips), n ≤ own.stack →
      Outcome.Within (· = .fault .addOverflow) (fun _ => True) (t.wager e own n) :=
    fun e n enough => (t.ledger.within_wager enough).bind (fun _ _ => trivial)
  have enough := Flat.price_le_stack fits
  rw [applyMove, mayAct]
  simp only [h.deficit_eq found, answers.largestBet, answers.minRaise]
  -- the flat table's condition is the opposite of what the table refuses
  cases m with
  | check =>
    have free : ¬ 0 < f.lack own := by simpa [Flat.permits] using fits
    show Outcome.Within _ _ (if 0 < f.lack own then _ else _)
    rw [if_neg free]
    trivial
  | fold => trivial
  | call => exact wagered _ _ enough
  | bet n =>
    simp only [Flat.permits, Bool.and_eq_true, Bool.or_eq_true, decide_eq_true_eq] at fits
    show Outcome.Within _ _ (if (0 < f.largest || n = 0 || own.stack < n ||
      (n < f.minRaise && n < own.stack)) = true then _ else _)
    rw [if_neg (by simp only [Bool.and_eq_true, Bool.or_eq_true, decide_eq_true_eq]; lia)]
    exact wagered _ _ enough
  | raise n =>
    simp only [Flat.permits, Bool.and_eq_true, Bool.or_eq_true, decide_eq_true_eq] at fits
    refine ((Outcome.within_addChips _ _).mono (fun _ => And.left) (fun _ => id)).bind ?_
    rintro total rfl
    rw [if_neg (by simp only [Bool.and_eq_true, Bool.or_eq_true, decide_eq_true_eq]; lia)]
    exact wagered _ _ enough
  | allIn =>
    have chips : own.stack ≠ 0 := by
      simpa [Flat.permits, Nat.pos_iff_ne_zero] using fits
    show Outcome.Within _ _ (if own.stack = 0 then _ else _)
    rw [if_neg chips]
    exact wagered _ _ (Nat.le_refl _)

/-- The next street begins unless the pot does not fit. -/
theorem Shows.within_close (h : t.Shows f) (sound : f.Sound) :
    Outcome.Within (· = .fault .addOverflow) (fun _ => True) t.close := by
  by_cases fits : f.carried + f.staked < chipLimit
  · obtain ⟨t', closed⟩ := h.exists_close sound fits
    exact Outcome.within_of_ok closed trivial
  cases loop : t.isHandOver || !t.isRoundOver with
  | true => exact Outcome.within_of_ok (close_of_stop loop) trivial
  | false =>
    obtain ⟨street, next, goes, _⟩ := close_of_running loop
    have answers := h.answers sound
    have left := Street.left_next (answers.street ▸ next)
    have opened := Street.boardSize_next (answers.street ▸ next)
    have board := sound.board_le
    have later : ¬ street.index ≤ f.street.index := by
      simp only [Street.left] at left
      lia
    have room : ¬ street.boardSize < f.board.size := by lia
    have overflows : t.applyRound street Hand.empty = .error (.fault .addOverflow) := by
      rw [applyRound, answers.street, answers.board, if_neg later, reveal_empty]
      dsimp only
      rw [if_neg room, answers.seats, h.ledger, h.dealer, h.bigBlind]
      show (f.ledger.newRound street f.board f.dealer f.bigBlind >>= _) = _
      rw [Flat.newRound_ledger sound, if_pos (Nat.le_of_not_lt fits)]
      rfl
    rw [goes, overflows]
    rfl

/-- An action that is allowed is played unless a sum does not fit. -/
theorem Shows.within_play (h : t.Shows f) (sound : f.Sound) (due : f.next = some p)
    (allowed : t.isAllowed a = .ok true) :
    Outcome.Within (fun e => e = .fault .addOverflow ∧
        (chipLimit ≤ f.total ∨ countLimit ≤ f.raises + 1)) (fun _ => True) (t.play a) := by
  cases played : t.play a with
  | ok t' => trivial
  | error e =>
    constructor
    · have next : t.nextToAct = some p := (h.answers sound).nextToAct.trans due
      obtain ⟨seat, found, _⟩ := sound.next_actionable p due
      obtain ⟨fits, _, _⟩ := h.fits_of_isAllowed sound due found allowed
      refine Outcome.Within.error (F := (· = .fault .addOverflow)) (P := fun _ => True) ?_ played
      rw [play, next]
      show Outcome.Within _ _ (t.isAllowed a >>= _)
      rw [allowed]
      show Outcome.Within _ _ (t.applyMove p a.move >>= _)
      cases accepted : t.applyMove p a.move with
      | error e => exact (h.within_applyMove sound due found fits).error accepted
      | ok moved =>
        obtain ⟨f', applied, shown⟩ :=
          (h.apply_agrees sound (a.event p)).exists_some (a := moved) accepted
        have sound' : f'.Sound := sound.apply (e := a.event p) applied
        have ended : moved.isRoundOver = f'.isRoundOver := (shown.answers sound').isRoundOver
        show Outcome.Within _ _ (if moved.isRoundOver = true then moved.close else _)
        cases ends : f'.isRoundOver with
        | true =>
          rw [if_pos (ended.trans ends)]
          exact shown.within_close sound'
        | false =>
          obtain ⟨_, _, own, mem, rfl, settled⟩ := Flat.settled_applyMove applied
          obtain ⟨q, t', after, passed⟩ := shown.exists_turn sound' ends mem settled
          rw [if_neg (by simp [ended, ends]), after]
          exact Outcome.within_of_ok passed trivial
    · by_contra fits
      rw [not_or, Nat.not_le, Nat.not_le] at fits
      obtain ⟨t', plays⟩ := h.exists_play sound due fits.1 fits.2 allowed
      rw [plays] at played
      cases played

end Table

end Holdem
