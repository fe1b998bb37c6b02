import Holdem.Proofs.Flat.Rounds
import Holdem.Proofs.Flat.Seats

/-!
# How players stand

An event touches the seat of one player only, who makes a move and could decide, and a round clears
all stakes. So whoever cannot decide is passed over from then on: the seat stays as it is until a
round clears its stake. Players stop competing one at a time, by their own fold.
-/

set_option autoImplicit false

namespace Holdem

/-- Whether the event begins a round. -/
def Event.isRound : Event → Bool
  | round _ _ => true
  | move _ _ | turn _ => false

/-- The seat after events that pass its player over: a round clears its stake. -/
def Seat.passed (seat : Seat) (events : List Event) : Seat :=
  if events.any Event.isRound then seat.clearStake else seat

namespace Seat

variable (seat : Seat) (events : List Event)

/-- Events that pass a seat over do so one after the other. -/
theorem passed_cons (e : Event) : (seat.passed [e]).passed events = seat.passed (e :: events) := by
  unfold passed
  rw [List.any_cons, List.any_cons, List.any_nil, Bool.or_false]
  cases e.isRound <;> cases events.any Event.isRound <;> rfl

/-- To be passed over changes nothing about who competes. -/
@[simp] theorem isActive_passed : (seat.passed events).isActive = seat.isActive := by
  unfold passed
  split <;> rfl

/-- To be passed over changes nothing about who can decide. -/
@[simp] theorem isActionable_passed : (seat.passed events).isActionable = seat.isActionable := by
  unfold passed
  split <;> rfl

end Seat

namespace Flat

variable {f f' : Flat} {p : Player} {seat : Seat} {e : Event} {events : List Event}

/-- What an accepted event makes of a seat: it passes its player over, who at most checks, or it is
a move of its player, who can decide and folds or puts chips into the pot. -/
theorem seat?_apply (sound : f.Sound) (applied : f.apply e = some f')
    (found : f.seat? p = some seat) :
    ((∀ m, e = .move p m → m = .check) ∧ f'.seat? p = some (seat.passed [e])) ∨
      (seat.isActionable = true ∧
        ((e = .move p .fold ∧ f'.seat? p = some seat.fold) ∨
          ∃ m, e = .move p m ∧ m ≠ .fold ∧ f.permits seat m = true ∧
            f'.seat? p = some (seat.commit (f.price seat m)))) := by
  cases e with
  | move q m =>
    obtain ⟨own, due, fits, moved⟩ := applyMove_cases applied
    obtain ⟨found', live, _⟩ := due?_eq_some_iff.1 due
    obtain ⟨mem, rfl⟩ := mem_of_seat? found'
    rcases moved with ⟨rfl, rfl⟩ | ⟨rfl, rfl⟩ | ⟨_, notFold, put⟩
    · exact Or.inl ⟨fun m same => (Event.move.inj same).2.symm, found⟩
    · have after := seat?_replace sound.distinct mem (Seat.player_fold own) p
      by_cases same : own.player = p
      · subst same
        obtain rfl := Option.some.inj (found'.symm.trans found)
        exact Or.inr ⟨live, Or.inl ⟨rfl, after.trans (if_pos rfl)⟩⟩
      · exact Or.inl ⟨fun m own => absurd (Event.move.inj own).1 same,
          (after.trans (if_neg same)).trans found⟩
    · have after := seat?_replace sound.distinct mem (Seat.player_commit own (f.price own m)) p
      rw [← seat?_congr (put_seats put).1] at after
      by_cases same : own.player = p
      · subst same
        obtain rfl := Option.some.inj (found'.symm.trans found)
        exact Or.inr ⟨live, Or.inr ⟨m, rfl, notFold, fits, after.trans (if_pos rfl)⟩⟩
      · exact Or.inl ⟨fun m own => absurd (Event.move.inj own).1 same,
          (after.trans (if_neg same)).trans found⟩
  | turn q =>
    obtain ⟨_, _, _, rfl⟩ := applyTurn_cases applied
    exact Or.inl ⟨fun _ => nofun, found⟩
  | round street cards =>
    obtain ⟨_, _, board, _, _, rfl⟩ := applyRound_cases applied
    refine Or.inl ⟨fun _ => nofun, ?_⟩
    rw [seat?_begin, found]
    rfl

/-- Whoever cannot decide is passed over. -/
theorem seat?_run_of_idle (sound : f.Sound) (ran : f.run events = some f')
    (found : f.seat? p = some seat) (idle : seat.isActionable = false) :
    f'.seat? p = some (seat.passed events) := by
  -- the seat that is passed over cannot decide either, so the next event passes it over again
  induction events generalizing f seat with
  | nil =>
    obtain rfl := Option.some.inj ran
    exact found
  | cons e events ih =>
    rw [run, List.foldlM_cons] at ran
    obtain ⟨g, applied, rest⟩ := Option.bind_eq_some_iff.1 ran
    rcases seat?_apply sound applied found with ⟨_, after⟩ | ⟨live, _⟩
    · rw [← Seat.passed_cons]
      exact ih (sound.apply applied) rest after (by rw [Seat.isActionable_passed, idle])
    · rw [idle] at live
      cases live

/-! ## Who competes -/

/-- Whether a player has a seat and competes for the pot. -/
def competes (f : Flat) (p : Player) : Bool := (f.seat? p).any Seat.isActive

/-- Whoever competes goes on competing unless the event is that player's fold. -/
theorem competes_apply (sound : f.Sound) (applied : f.apply e = some f') (p : Player) :
    f'.competes p = (f.competes p && e != .move p .fold) := by
  unfold competes
  cases found : f.seat? p with
  | none =>
    have absent : f'.seat? p = none := by
      rw [seat?_eq_none_iff] at found ⊢
      rwa [(seatsFollow_apply sound applied).players_eq]
    rw [absent]
    rfl
  | some seat =>
    rcases seat?_apply sound applied found with ⟨other, after⟩ | ⟨live, ⟨rfl, after⟩ |
      ⟨m, rfl, notFold, _, after⟩⟩
    · have unfolded : e ≠ .move p .fold := fun fold => nomatch other _ fold
      simp [after, unfolded]
    · simp [after]
    · simp [after, notFold, Seat.isActive_commit live, Seat.isActive_of_isActionable live]

/-- Nobody starts to compete along a run. -/
theorem competes_of_run (sound : f.Sound) (ran : f.run events = some f') (p : Player)
    (competes' : f'.competes p = true) : f.competes p = true := by
  have kept := run_invariant (P := fun g => g.competes p = true → f.competes p = true)
    (fun g g' e sound before applied after => by
      rw [competes_apply sound applied, Bool.and_eq_true] at after
      exact before after.1)
    sound id ran
  exact kept.2 competes'

/-- Streets do not come back along a run. -/
theorem index_street_le_run (sound : f.Sound) (ran : f.run events = some f') :
    f.street.index ≤ f'.street.index := by
  have kept := run_invariant (P := fun g => f.street.index ≤ g.street.index)
    (fun g g' e _ before applied => by
      cases e with
      | move p m => rwa [(settled_applyMove applied).2.1]
      | turn p =>
        obtain ⟨_, _, _, rfl⟩ := applyTurn_cases applied
        exact before
      | round street cards =>
        obtain ⟨later, _, board, _, _, rfl⟩ := applyRound_cases applied
        exact before.trans (Nat.le_of_lt later))
    sound (Nat.le_refl _) ran
  exact kept.2

end Flat

end Holdem
