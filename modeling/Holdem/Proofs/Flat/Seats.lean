import Holdem.Proofs.Flat.Invariants

/-!
# What becomes of a seat

Along a run every seat of the snapshot stays in its place. Its player and the hole cards stay what
they were, chips only leave the stack, and whoever can still decide could decide from the start. A
stack that an event empties is all in; so a player who can decide has an empty stack only if the
snapshot gave none.
-/

set_option autoImplicit false

namespace Holdem

/-- What a seat may become. -/
structure Seat.Follows (old new : Seat) : Prop where
  player : new.player = old.player
  hole : new.hole = old.hole
  stack_le : new.stack ≤ old.stack
  actionable : new.isActionable = true → old.isActionable = true
  stack_pos : new.isActionable = true → 0 < old.stack → 0 < new.stack

namespace Seat

variable {old new : Seat}

/-- A seat may stay as it is. -/
theorem Follows.refl (seat : Seat) : seat.Follows seat :=
  ⟨rfl, rfl, Nat.le_refl _, id, fun _ => id⟩

/-- What a seat may become step by step it may become at once. -/
theorem Follows.trans {mid : Seat} (first : old.Follows mid) (second : mid.Follows new) :
    old.Follows new where
  player := second.player.trans first.player
  hole := second.hole.trans first.hole
  stack_le := second.stack_le.trans first.stack_le
  actionable := fun live => first.actionable (second.actionable live)
  stack_pos := fun live chips => second.stack_pos live
    (first.stack_pos (second.actionable live) chips)

/-- A seat may fold. -/
theorem follows_fold (seat : Seat) : seat.Follows seat.fold :=
  ⟨rfl, rfl, Nat.le_refl _, by simp, by simp⟩

/-- A seat may have its stake cleared. -/
theorem follows_clearStake (seat : Seat) : seat.Follows seat.clearStake :=
  ⟨rfl, rfl, Nat.le_refl _, id, fun _ => id⟩

/-- A seat that can decide may put in chips that it has. -/
theorem follows_commit {seat : Seat} {n : Chips} (live : seat.isActionable = true)
    (enough : n ≤ seat.stack) : seat.Follows (seat.commit n) where
  player := rfl
  hole := rfl
  stack_le := Nat.sub_le _ _
  actionable := fun _ => live
  stack_pos := by
    intro left _
    rw [isActionable_commit live, decide_eq_true_eq] at left
    exact Nat.sub_pos_of_lt (Nat.lt_of_le_of_ne enough (Ne.symm left))

end Seat

namespace Flat

variable {f f' : Flat}

/-- The seats of a flat table come from those of another, place by place. -/
def SeatsFollow (f f' : Flat) : Prop :=
  ∃ become : Seat → Seat, f'.seats = f.seats.map become ∧
    ∀ seat ∈ f.seats, seat.Follows (become seat)

/-- All seats may stay as they are. -/
theorem SeatsFollow.refl (f : Flat) : f.SeatsFollow f :=
  ⟨id, (List.map_id _).symm, fun seat _ => .refl seat⟩

/-- What the seats may become step by step they may become at once. -/
theorem SeatsFollow.trans {g : Flat} (first : f.SeatsFollow g) (second : g.SeatsFollow f') :
    f.SeatsFollow f' := by
  obtain ⟨become, seats, follows⟩ := first
  obtain ⟨become', seats', follows'⟩ := second
  refine ⟨become' ∘ become, by rw [seats', seats, List.map_map], fun seat mem => ?_⟩
  exact (follows seat mem).trans (follows' _ (seats ▸ List.mem_map_of_mem mem))

/-- Replacing one seat by what it may become. -/
theorem seatsFollow_replace (sound : f.Sound) {seat new : Seat} (mem : seat ∈ f.seats)
    (follows : seat.Follows new) : f.SeatsFollow (f.replace new) := by
  refine ⟨fun s => if s.player = new.player then new else s, rfl, ?_⟩
  intro s inSeats
  show s.Follows (if s.player = new.player then new else s)
  by_cases same : s.player = new.player
  · rw [if_pos same]
    obtain rfl := eq_of_player_eq sound.distinct mem inSeats (same.trans follows.player)
    exact follows
  · rw [if_neg same]
    exact .refl s

/-- An event makes of the seats only what they may become. -/
theorem seatsFollow_apply (sound : f.Sound) {e : Event} (applied : f.apply e = some f') :
    f.SeatsFollow f' := by
  cases e with
  | move p m =>
    obtain ⟨seat, due, fits, moved⟩ := applyMove_cases applied
    obtain ⟨found, live, _⟩ := due?_eq_some_iff.1 due
    have mem : seat ∈ f.seats := (mem_of_seat? found).1
    rcases moved with ⟨_, rfl⟩ | ⟨_, rfl⟩ | ⟨_, _, put⟩
    · exact .refl f
    · exact seatsFollow_replace sound mem seat.follows_fold
    · have follows := seatsFollow_replace sound mem (Seat.follows_commit live (price_le_stack fits))
      rw [SeatsFollow, (put_seats put).1]
      exact follows
  | turn p =>
    obtain ⟨_, _, _, rfl⟩ := applyTurn_cases applied
    exact .refl f
  | round street cards =>
    obtain ⟨_, _, board, _, _, rfl⟩ := applyRound_cases applied
    exact ⟨Seat.clearStake, rfl, fun seat _ => seat.follows_clearStake⟩

/-- Along a run every seat stays in its place and becomes what it may. -/
theorem seatsFollow_run {events : List Event} (sound : f.Sound) (ran : f.run events = some f') :
    f.SeatsFollow f' := by
  have kept := run_invariant (P := fun g => f.SeatsFollow g)
    (fun g g' e sound before applied => before.trans (seatsFollow_apply sound applied))
    sound (.refl f) ran
  exact kept.2

/-- Where a player's seat is found, the player had a seat before. -/
theorem SeatsFollow.exists_seat? (follow : f.SeatsFollow f') {p : Player} {seat : Seat}
    (found : f'.seat? p = some seat) : ∃ old, f.seat? p = some old ∧ old.Follows seat := by
  obtain ⟨become, seats, follows⟩ := follow
  have same : ∀ old ∈ f.seats, ((become old).player == p) = (old.player == p) := fun old mem => by
    rw [(follows old mem).player]
  rw [seat?, seats, List.find?_map] at found
  obtain ⟨old, before, rfl⟩ := Option.map_eq_some_iff.1 found
  have before' : f.seat? p = some old := by
    rw [← before, seat?]
    exact List.find?_congr (fun old mem => (same old mem).symm)
  exact ⟨old, before', follows old (mem_of_seat? before').1⟩

/-- A player who had a seat still has one. -/
theorem SeatsFollow.exists_seat?_after (follow : f.SeatsFollow f') {p : Player} {old : Seat}
    (found : f.seat? p = some old) : ∃ seat, f'.seat? p = some seat ∧ old.Follows seat := by
  cases after : f'.seat? p with
  | some seat =>
    obtain ⟨old', before, follows⟩ := follow.exists_seat? after
    obtain rfl := Option.some.inj (before.symm.trans found)
    exact ⟨seat, rfl, follows⟩
  | none =>
    obtain ⟨become, seats, follows⟩ := follow
    obtain ⟨mem, rfl⟩ := mem_of_seat? found
    rw [seat?_eq_none_iff, seats, List.map_map] at after
    exact absurd (List.mem_map.2 ⟨old, mem, (follows old mem).player⟩) after

/-- The players keep their places. -/
theorem SeatsFollow.players_eq (follow : f.SeatsFollow f') :
    f'.seats.map Seat.player = f.seats.map Seat.player := by
  obtain ⟨become, seats, follows⟩ := follow
  rw [seats, List.map_map]
  exact List.map_congr_left (fun seat mem => (follows seat mem).player)

/-- The hole cards stay where they are. -/
theorem SeatsFollow.holes_eq (follow : f.SeatsFollow f') :
    f'.seats.filterMap Seat.hole = f.seats.filterMap Seat.hole := by
  obtain ⟨become, seats, follows⟩ := follow
  rw [seats, List.filterMap_map]
  exact List.filterMap_congr (fun seat mem => (follows seat mem).hole)

/-! ## Stacks that an event leaves -/

/-- The chips behind a player who has a seat. -/
def stack? (f : Flat) (p : Player) : Option Chips := (f.seat? p).map Seat.stack

/-- A move takes no chips from the stacks of others, and a check or a fold takes none at all. -/
theorem stack?_applyMove {p q : Player} {m : Move} (sound : f.Sound)
    (applied : f.applyMove p m = some f') (quiet : q ≠ p ∨ m = .check ∨ m = .fold) :
    f'.stack? q = f.stack? q := by
  obtain ⟨seat, due, _, moved⟩ := applyMove_cases applied
  obtain ⟨mem, rfl⟩ := mem_of_seat? (due?_eq_some_iff.1 due).1
  have found := seat?_of_mem sound.distinct mem
  rcases moved with ⟨_, rfl⟩ | ⟨_, rfl⟩ | ⟨notCheck, notFold, put⟩
  · rfl
  · have after := seat?_replace sound.distinct mem (Seat.player_fold seat) q
    show ((f.replace seat.fold).seat? q).map Seat.stack = _
    rw [after]
    split
    · rename_i same
      rw [stack?, ← same, Seat.player_fold, found]
      rfl
    · rfl
  · have other : q ≠ seat.player := quiet.resolve_right (not_or.2 ⟨notCheck, notFold⟩)
    have after := seat?_replace sound.distinct mem (Seat.player_commit seat (f.price seat m)) q
    rw [stack?, seat?_congr (put_seats put).1, after, Seat.player_commit,
      if_neg (Ne.symm other), stack?]

/-- Beginning a street leaves every stack. -/
theorem stack?_begin (f : Flat) (street : Street) (board : Board) (p : Player) :
    (f.begin street board).stack? p = f.stack? p := by
  rw [stack?, seat?_begin, Option.map_map]
  rfl

/-- Whoever is due has chips behind exactly if the player came with some. -/
theorem stack_pos_of_due {events : List Event} (sound : f.Sound) (ran : f.run events = some f')
    {p : Player} (due : f'.next = some p) : ∃ old seat, f.seat? p = some old ∧
      f'.seat? p = some seat ∧ (0 < seat.stack ↔ 0 < old.stack) := by
  obtain ⟨seat, found, live⟩ := (sound.run ran).next_actionable p due
  obtain ⟨old, before, follows⟩ := (seatsFollow_run sound ran).exists_seat? found
  exact ⟨old, seat, before, found,
    fun chips => chips.trans_le follows.stack_le, follows.stack_pos live⟩

end Flat

end Holdem
