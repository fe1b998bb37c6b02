import Holdem.Proofs.Flat.Standing
import Holdem.Proofs.Flat.Turns

/-!
# A raise is answered

A move raises the largest bet exactly if it costs more than its player lacks. If somebody else can
decide, the round then stays open: that player lacks some of the new largest bet, and so does
whoever the turn passes to. A street that begins is over at once only if at most one player is left
who competes, or who can decide.
-/

set_option autoImplicit false

namespace Holdem

namespace Flat

variable {f f' : Flat} {p : Player} {seat : Seat} {m : Move}

/-- If a player competes, somebody does. -/
theorem activeCount_pos (competing : f.competes p = true) : 0 < f.activeCount := by
  obtain ⟨seat, found, active⟩ := Option.any_eq_true _ _ |>.1 competing
  exact List.countP_pos_iff.2 ⟨seat, (mem_of_seat? found).1, active⟩

/-- A move raises the largest bet exactly if it costs more than its player lacks. -/
theorem largest_lt_applyMove_iff (sound : f.Sound) (found : f.seat? p = some seat)
    (applied : f.applyMove p m = some f') :
    f.largest < f'.largest ↔ f.lack seat < f.price seat m := by
  obtain ⟨live, _, moved⟩ := applyMove_of_seat? applied found
  have stake := sound.stake_le seat (mem_of_seat? found).1 (Seat.isActive_of_isActionable live)
  rcases moved with ⟨rfl, rfl⟩ | ⟨rfl, rfl⟩ | ⟨_, _, put⟩
  · exact iff_of_false (Nat.lt_irrefl _) (Nat.not_lt_zero _)
  · exact iff_of_false (Nat.lt_irrefl _) (Nat.not_lt_zero _)
  · rw [lack]
    obtain ⟨_, ⟨matched, rfl⟩ | ⟨above, _, rfl⟩⟩ := put_cases put
    · exact iff_of_false (Nat.lt_irrefl _) (by lia)
    · exact iff_of_true above (by lia)

/-- Whoever raises the largest bet goes on competing. -/
theorem active_of_raise (sound : f.Sound) (sound' : f'.Sound) (applied : f.applyMove p m = some f')
    (raised : f.largest < f'.largest) (mem : seat ∈ f'.seats) (own : seat.player = p) :
    seat.isActive = true := by
  obtain ⟨old, due, _, _⟩ := applyMove_cases applied
  obtain ⟨found, live, _⟩ := due?_eq_some_iff.1 due
  have costs := (largest_lt_applyMove_iff sound found applied).1 raised
  have stays : (Event.move p m != .move p .fold) = true := by
    rw [bne_iff_ne]
    rintro same
    obtain rfl := (Event.move.inj same).2
    exact absurd costs (Nat.not_lt_zero _)
  have competes : f'.competes p = true := by
    rw [competes_apply (e := .move p m) sound applied, stays, Bool.and_true, Flat.competes, found]
    exact Seat.isActive_of_isActionable live
  rwa [Flat.competes, ← own, seat?_of_mem sound'.distinct mem] at competes

/-- Whoever can decide when the largest bet is raised has to answer: the round stays open, and the
turn passes to another player who lacks some of the largest bet. -/
theorem answered_of_raise (sound : f.Sound) (applied : f.applyMove p m = some f')
    (raised : f.largest < f'.largest)
    (other : ∃ s ∈ f.seats, s.player ≠ p ∧ s.isActionable = true) :
    f'.isRoundOver = false ∧ ∃ next, f'.seat? next.player = some next ∧ next.player ≠ p ∧
      next.isActionable = true ∧ 0 < f'.lack next ∧ f'.nextAfter p = some next.player := by
  have sound' : f'.Sound := sound.apply (e := .move p m) applied
  obtain ⟨_, _, own, memOwn, samePlayer, settled⟩ := settled_applyMove applied
  obtain ⟨before, old, new, after, seats, seats', rfl, same⟩ := seats_applyMove sound applied
  -- nobody else's seat has changed, and nobody's stake was above the old largest bet
  have others := player_ne_of_around sound seats
  have kept : ∀ s ∈ after ++ before, s ∈ f.seats ∧ s ∈ f'.seats := by
    intro s around
    rw [seats, seats']
    simp only [List.mem_append, List.mem_cons] at around ⊢
    tauto
  have lacks : ∀ s ∈ after ++ before, s.isActionable = true → 0 < f'.lack s := by
    intro s around live
    have stake := sound.stake_le s (kept s around).1 (Seat.isActive_of_isActionable live)
    rw [lack]
    lia
  obtain ⟨s, mem, notOwn, live⟩ := other
  have around : s ∈ after ++ before := by
    rw [seats] at mem
    simp only [List.mem_append, List.mem_cons] at mem ⊢
    rcases mem with early | rfl | late
    · exact Or.inr early
    · exact absurd rfl notOwn
    · exact Or.inl late
  have several : ¬ f'.activeCount ≤ 1 := by
    have moves : new.isActive = true := by
      obtain rfl := eq_of_player_eq sound'.distinct memOwn
        (seats' ▸ List.mem_append_right before List.mem_cons_self) (same.trans samePlayer.symm)
      exact active_of_raise sound sound' applied raised memOwn samePlayer
    have competes : 0 < (after ++ before).countP Seat.isActive :=
      List.countP_pos_iff.2 ⟨s, around, Seat.isActive_of_isActionable live⟩
    rw [List.countP_append] at competes
    rw [activeCount, seats', List.countP_append, List.countP_cons_of_pos moves]
    lia
  have somebody : f'.liveCount ≠ 0 :=
    Nat.pos_iff_ne_zero.1 (List.countP_pos_iff.2 ⟨s, (kept s around).2, live⟩)
  have unmatched :
      f'.seats.all (fun seat => !seat.isActionable || f'.largest ≤ seat.stake) = false := by
    have short := lacks s around live
    rw [lack] at short
    refine List.all_eq_false.2 ⟨s, (kept s around).2, ?_⟩
    simp only [live, Bool.not_true, Bool.false_or, decide_eq_true_eq]
    lia
  have running : f'.isRoundOver = false := by
    simp [isRoundOver, several, somebody, unmatched]
  refine ⟨running, ?_⟩
  obtain ⟨xs, next, ys, order, _, found, liveNext, passes⟩ :=
    exists_next sound' running memOwn settled
  rw [samePlayer] at passes order
  rw [← same, clockwise_eq sound' seats'] at order
  have inAround : next ∈ after ++ before := by
    rw [(List.cons.inj order).2]
    simp
  exact ⟨next, found, others next inAround, liveNext, lacks next inAround liveNext, passes⟩

/-- At the beginning of a street nobody has bet, so the round is over only if at most one player
competes or can decide. -/
theorem isRoundOver_begin (f : Flat) (street : Street) (board : Board) :
    (f.begin street board).isRoundOver =
      (decide (f.activeCount ≤ 1) || decide (f.liveCount ≤ 1)) := by
  have matched : (f.begin street board).seats.all
      (fun seat => !seat.isActionable || (f.begin street board).largest ≤ seat.stake) = true := by
    simp [begin]
  have acted : (f.begin street board).seats.all
      (fun seat => !seat.isActionable || seat.player ∈ (f.begin street board).acted) =
        (f.liveCount == 0) := by
    rw [Bool.eq_iff_iff, beq_iff_eq, ← liveCount_begin f street board, liveCount,
      List.countP_eq_zero, List.all_eq_true]
    simp [begin]
  rw [isRoundOver, activeCount_begin, liveCount_begin, matched, acted, Bool.eq_iff_iff]
  simp only [Bool.or_eq_true, Bool.true_and, decide_eq_true_eq, beq_iff_eq]
  lia

end Flat

end Holdem
