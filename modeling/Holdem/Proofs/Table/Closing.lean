import Holdem.Proofs.Table.Refinement
import Holdem.Table.Play

/-!
# Closing rounds

A round is closed by a loop: as long as there is nothing to decide and the hand is not over, the
next street begins. The number of streets that are left bounds the loop, so the bound on its
iterations is never felt, and the street after the showdown is never asked for.
-/

set_option autoImplicit false

namespace Holdem

namespace Table

variable {t t' u : Table} {f f' : Flat}

/-- One iteration of the loop: there is nothing to decide, and the next street begins. -/
def Closing (t t' : Table) : Prop :=
  t.isHandOver = false ∧ t.isRoundOver = true ∧
    ∃ street, t.street.next? = some street ∧ t.applyRound street Hand.empty = .ok t'

/-- A new round is on the street it was opened for. -/
theorem street_applyRound {street : Street} {cards : Hand}
    (applied : t.applyRound street cards = .ok t') : t'.street = street := by
  simp only [applyRound] at applied
  by_cases early : street.index ≤ t.street.index
  · rw [if_pos early] at applied
    exact absurd applied (outOfPlace_ne_ok _ _)
  rw [if_neg early] at applied
  cases shown : t.board.reveal cards with
  | error cause =>
    rw [shown] at applied
    cases applied
  | ok board =>
    simp only [shown] at applied
    by_cases large : street.boardSize < board.size
    · rw [if_pos large] at applied
      exact absurd applied (outOfPlace_ne_ok _ _)
    rw [if_neg large] at applied
    obtain ⟨seats, _, applied⟩ := bind_eq_ok.1 applied
    obtain ⟨ledger, begun, extended⟩ := bind_eq_ok.1 applied
    obtain ⟨carried, _, written⟩ := bind_eq_ok.1 begun
    cases extended
    cases written
    rfl

/-- Closing a round leaves fewer streets to play. -/
theorem Closing.left_lt (step : t.Closing t') : t'.street.left < t.street.left := by
  obtain ⟨_, _, street, next, applied⟩ := step
  rw [street_applyRound applied, Street.left_next next]
  exact Nat.lt_succ_self _

/-- The loop cannot go on forever. -/
theorem wellFounded_closing : WellFounded (fun t' t : Table => t.Closing t') :=
  Subrelation.wf (fun step => step.left_lt) (measure (fun t : Table => t.street.left)).wf

/-- While the hand is not over there is a next street. -/
theorem exists_next_street (running : t.isHandOver = false) :
    ∃ street, t.street.next? = some street ∧ t.street.next = .ok street := by
  have notShown : t.street ≠ .showdown := by
    intro shown
    have ended : t.isHandOver = true := by
      show (_ || t.street == .showdown) = true
      rw [shown]
      simp
    rw [ended] at running
    cases running
  cases shown : t.street with
  | showdown => exact absurd shown notShown
  | _ => exact ⟨_, rfl, rfl⟩

/-! ## The loop without its bound -/

/-- Nothing is closed where the hand is over or the round is not. -/
theorem close_of_stop (stop : (t.isHandOver || !t.isRoundOver) = true) : t.close = .ok t := by
  rw [close]
  cases t.street.left with
  | zero => rfl
  | succ n => exact if_pos stop

/-- If the loop goes on, the next street begins and the loop starts again. -/
theorem close_of_running (running : (t.isHandOver || !t.isRoundOver) = false) :
    ∃ street, t.street.next? = some street ∧
      t.close = (t.applyRound street Hand.empty >>= close) ∧
      ∀ u, t.applyRound street Hand.empty = .ok u → t.Closing u := by
  obtain ⟨notOver, settled⟩ := Bool.or_eq_false_iff.1 running
  obtain ⟨street, next, follows⟩ := exists_next_street notOver
  refine ⟨street, next, ?_, fun u applied => ⟨notOver, by simpa using settled, street, next,
    applied⟩⟩
  have goes : ¬ (t.isHandOver || !t.isRoundOver) = true := by simp [running]
  rw [close, Street.left_next next]
  show (if (t.isHandOver || !t.isRoundOver) = true then Except.ok t
    else (t.street.next >>= fun street' =>
      t.applyRound street' Hand.empty >>= settle street.left)) = _
  rw [if_neg goes, follows]
  show (t.applyRound street Hand.empty >>= settle street.left) =
    (t.applyRound street Hand.empty >>= close)
  -- the bound is the number of streets left, also after the next one has begun
  cases applied : t.applyRound street Hand.empty with
  | error e => rfl
  | ok u =>
    show settle street.left u = settle u.street.left u
    rw [street_applyRound applied]

/-- Closing a round is the loop itself, with no bound on its iterations. -/
theorem close_eq (t : Table) : t.close =
    if t.isHandOver || !t.isRoundOver then .ok t
    else (t.street.next >>= fun street => t.applyRound street Hand.empty >>= close) := by
  cases loop : t.isHandOver || !t.isRoundOver with
  | true => exact close_of_stop loop
  | false =>
    obtain ⟨street, next, goes, _⟩ := close_of_running loop
    rw [goes, if_neg Bool.false_ne_true, Street.next, next]
    rfl

/-- Where the loop ends: after some iterations, at a table with something to decide or with no more
betting. -/
theorem closings_of_close (closed : t.close = .ok t') :
    Relation.ReflTransGen Closing t t' ∧ (t'.isHandOver || !t'.isRoundOver) = true := by
  -- the loop is unrolled along its own well-founded relation, not along the bound
  induction t using wellFounded_closing.induction with
  | _ t ih =>
    cases loop : t.isHandOver || !t.isRoundOver with
    | true =>
      rw [close_of_stop loop] at closed
      obtain rfl := Except.ok.inj closed
      exact ⟨.refl, loop⟩
    | false =>
      obtain ⟨street, _, goes, steps⟩ := close_of_running loop
      rw [goes] at closed
      obtain ⟨u, applied, closed⟩ := bind_eq_ok.1 closed
      obtain ⟨later, stop⟩ := ih u (steps u applied) closed
      exact ⟨.head (steps u applied) later, stop⟩

/-! ## The street after the showdown -/

/-- Adding chips never fails for want of a next street. -/
theorem addChips_ne_terminal (a b : Chips) : addChips a b ≠ .error (.fault .terminal) := by
  unfold addChips
  split
  · simp
  · simp

/-- Listing the seats never fails for want of a next street. -/
theorem seats_ne_terminal (t : Table) : t.seats ≠ .error (.fault .terminal) := by
  apply mapM_ne_error
  intro r
  unfold seat
  split
  · simp
  · simp

/-- Opening a round never fails for want of a next street. -/
theorem applyRound_ne_terminal (t : Table) (street : Street) (cards : Hand) :
    t.applyRound street cards ≠ .error (.fault .terminal) := by
  -- the failures of a round are refusals, overflows and strangers, never a missing street
  have refuses : (t.outOfPlace (.round street cards) : Outcome Table) ≠
      .error (.fault .terminal) := by
    apply bind_ne_error (addChips_ne_terminal _ _)
    intro pot
    simp [Outcome.illegal]
  unfold applyRound
  split
  · exact refuses
  split
  · simp [Outcome.illegal]
  split
  · exact refuses
  apply bind_ne_error t.seats_ne_terminal
  intro seats
  apply bind_ne_error (bind_ne_error (addChips_ne_terminal _ _) (by simp [pure, Except.pure]))
  simp [pure, Except.pure]

/-- No table whatever is asked for the street after the showdown when its round is closed. -/
theorem close_ne_terminal (t : Table) : t.close ≠ .error (.fault .terminal) := by
  induction t using wellFounded_closing.induction with
  | _ t ih =>
    cases loop : t.isHandOver || !t.isRoundOver with
    | true =>
      rw [close_of_stop loop]
      simp
    | false =>
      obtain ⟨street, _, goes, steps⟩ := close_of_running loop
      rw [goes]
      cases applied : t.applyRound street Hand.empty with
      | error e =>
        intro failed
        cases failed
        exact t.applyRound_ne_terminal _ _ applied
      | ok u => exact ih u (steps u applied)

/-! ## Closing a flat table -/

/-- Revealing no cards leaves the board as it is. -/
theorem reveal_empty (b : Board) : b.reveal Hand.empty = .ok b := by
  have same : b.cards.union Hand.empty = b.cards := by simp [Hand.union, Hand.empty]
  have apart : b.cards.overlaps Hand.empty = false := by
    simp [Hand.overlaps, Hand.inter, Hand.empty, Hand.isEmpty]
  have none : Hand.empty.size = 0 := by decide
  have fits : b.cards.size + Hand.empty.size ≤ 5 := by
    rw [none]
    exact b.atMostFive
  simp only [Board.reveal, apart, Bool.false_eq_true, if_false, dif_pos fits, same]

/-- The next street can begin with no card revealed as long as the pot fits. -/
theorem applyRound_next {street : Street} (sound : f.Sound) (next : f.street.next? = some street)
    (fits : f.carried + f.staked < chipLimit) :
    f.applyRound street Hand.empty = some (f.begin street f.board) := by
  have later : f.street.index < street.index := by
    have left := Street.left_next next
    simp only [Street.left] at left
    omega
  have room : f.board.size ≤ street.boardSize := by
    have opened := Street.boardSize_next next
    have board := sound.board_le
    omega
  rw [Flat.applyRound, reveal_empty, if_neg (by simp [later, fits])]
  exact if_neg (Nat.not_lt.2 room)

/-- One iteration begins the next street, the same cards on the board. -/
theorem Shows.closing_cases (h : t.Shows f) (sound : f.Sound) (step : t.Closing t') :
    ∃ street, f.street.next? = some street ∧ f.isHandOver = false ∧
      t'.Shows (f.begin street f.board) ∧ (f.begin street f.board).Sound := by
  obtain ⟨running, _, street, next, applied⟩ := step
  obtain ⟨f', begun, shown⟩ := (h.applyRound_agrees sound street Hand.empty).exists_some applied
  obtain ⟨_, _, board, revealed, fits, rfl⟩ := Flat.applyRound_cases begun
  rw [reveal_empty] at revealed
  obtain rfl := Except.ok.inj revealed
  have answers := h.answers sound
  rw [answers.street] at next
  rw [answers.isHandOver] at running
  exact ⟨street, next, running, shown, sound.of_begin fits⟩

/-- What the beginning of a street keeps is kept however many streets begin. -/
theorem Shows.closings_invariant {P : Flat → Prop}
    (step : ∀ (g : Flat) (street : Street), P g → P (g.begin street g.board))
    (h : t.Shows f) (sound : f.Sound) (holds : P f) (steps : Relation.ReflTransGen Closing t t') :
    ∃ f', t'.Shows f' ∧ f'.Sound ∧ P f' := by
  induction steps with
  | refl => exact ⟨f, h, sound, holds⟩
  | tail _ last ih =>
    obtain ⟨g, shown, sound', holds'⟩ := ih
    obtain ⟨street, _, _, begun, soundBegun⟩ := shown.closing_cases sound' last
    exact ⟨_, begun, soundBegun, step g street holds'⟩

/-- However many streets begin, the stacks stay; unless none begins, a street less is left. -/
theorem Shows.closings (h : t.Shows f) (sound : f.Sound)
    (steps : Relation.ReflTransGen Closing t t') :
    ∃ f', t'.Shows f' ∧ f'.Sound ∧ f'.behind = f.behind ∧ f'.seats.length = f.seats.length ∧
      (f' = f ∨ f'.street.left < f.street.left) := by
  induction steps with
  | refl => exact ⟨f, h, sound, rfl, rfl, Or.inl rfl⟩
  | tail _ step ih =>
    obtain ⟨g, shown, sound', behind, seats, ends⟩ := ih
    obtain ⟨street, next, _, begun, soundBegun⟩ := shown.closing_cases sound' step
    refine ⟨g.begin street g.board, begun, soundBegun, ?_, ?_, Or.inr ?_⟩
    · rw [Flat.behind_begin, behind]
    · exact (List.length_map _).trans seats
    · have fewer := Street.left_next next
      show street.left < f.street.left
      rcases ends with rfl | later
      · omega
      · omega

/-- Closing a round ends well if the pot fits. -/
theorem Shows.exists_close (h : t.Shows f) (sound : f.Sound)
    (fits : f.carried + f.staked < chipLimit) : ∃ t', t.close = .ok t' := by
  induction t using wellFounded_closing.induction generalizing f with
  | _ t ih =>
    cases loop : t.isHandOver || !t.isRoundOver with
    | true => exact ⟨t, close_of_stop loop⟩
    | false =>
      obtain ⟨street, next, goes, steps⟩ := close_of_running loop
      have flatNext : f.street.next? = some street := (h.answers sound).street ▸ next
      have begun := applyRound_next sound flatNext fits
      obtain ⟨u, applied, shown⟩ :=
        (h.applyRound_agrees sound street Hand.empty).exists_ok begun
      -- the round's chips join the carried ones, so the sum that has to fit is the same
      have kept : (f.begin street f.board).carried + (f.begin street f.board).staked <
        chipLimit := by
        rw [Flat.staked_begin]
        exact fits
      have sound' : (f.begin street f.board).Sound :=
        sound.apply (e := .round street Hand.empty) begun
      rw [goes, applied]
      exact ih u (steps u applied) shown sound' kept

end Table

end Holdem
