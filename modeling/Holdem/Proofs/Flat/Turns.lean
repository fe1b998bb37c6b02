import Holdem.Proofs.Flat.Rounds

/-!
# The order of the turns

The turn passes to the next player who can decide, whether or not that player has acted already. It
still never comes back too early: clockwise from the player due, those who have yet to act come
first, and those who have acted follow. A move puts its player at the end of this order, or behind
everybody if it raises the largest bet, and the turn then goes to the player at the front.
-/

set_option autoImplicit false

namespace Holdem

namespace Flat

variable {f f' : Flat} {p : Player} {seat : Seat} {m : Move}

/-- Along some seats, nobody who can decide and has yet to act comes after somebody who can decide
and has acted. -/
def ActedLast (f : Flat) (seats : List Seat) : Prop :=
  seats.Pairwise (fun a b => a.isActionable = true → b.isActionable = true →
    a.player ∈ f.acted → b.player ∈ f.acted)

/-- Whoever has acted and can decide has matched the largest bet; the player due has yet to act, and
so have those who follow clockwise up to the first who has acted. -/
structure Orderly (f : Flat) : Prop where
  matched : ∀ seat ∈ f.seats, seat.isActionable = true → seat.player ∈ f.acted →
    f.largest ≤ seat.stake
  due_idle : ∀ p ∈ f.next, p ∉ f.acted
  actedLast : ∀ p ∈ f.next, f.ActedLast (f.clockwise p)

/-- That those who have acted come last depends only on who has acted. -/
theorem ActedLast.mono {seats : List Seat} (h : f.ActedLast seats)
    (acted : ∀ s ∈ seats, s.player ∈ f'.acted ↔ s.player ∈ f.acted) : f'.ActedLast seats := by
  refine h.imp_of_mem (fun {a b} inA inB later liveA liveB actedA => ?_)
  exact (acted b inB).2 (later liveA liveB ((acted a inA).1 actedA))

/-- At the beginning of a street nobody has acted. -/
theorem orderly_begin (f : Flat) (street : Street) (board : Board) :
    (f.begin street board).Orderly where
  matched := fun _ _ _ acted => by simp [begin] at acted
  due_idle := fun _ _ acted => by simp [begin] at acted
  actedLast := fun _ _ => List.pairwise_of_forall (fun _ _ _ _ acted => by simp [begin] at acted)

/-! ## Who has acted after a move -/

/-- A move adds its player to those who have acted and keeps the largest bet, or it raises the
largest bet and nobody else has acted since. -/
theorem acted_applyMove (applied : f.applyMove p m = some f') :
    (f'.acted = insert p f.acted ∧ f'.largest = f.largest) ∨
      (f'.acted = {p} ∧ f.largest < f'.largest) := by
  rcases betting_applyMove applied with ⟨grown, _, _, _, alone⟩ | ⟨kept, _, _, _, added⟩
  · exact Or.inr ⟨alone, grown⟩
  · exact Or.inl ⟨added, kept⟩

/-- Replacing a seat leaves those before and after it. -/
theorem seats_replace {new : Seat} {before after : List Seat} (h : f.Sound)
    (seats : f.seats = before ++ seat :: after) (same : new.player = seat.player) :
    (f.replace new).seats = before ++ new :: after := by
  have distinct := h.distinct
  rw [seats, List.map_append, List.map_cons, List.nodup_append, List.nodup_cons] at distinct
  have early : new.player ∉ before.map Seat.player := fun mem =>
    distinct.2.2 _ mem _ List.mem_cons_self same
  have late : new.player ∉ after.map Seat.player := same ▸ distinct.2.1.1
  rw [replace, seats, List.map_append, List.map_cons, map_replace_of_notMem early,
    map_replace_of_notMem late, if_pos same.symm]

/-- A move changes no seat but its player's. -/
theorem seats_applyMove (h : f.Sound) (applied : f.applyMove p m = some f') :
    ∃ before old new after, f.seats = before ++ old :: after ∧
      f'.seats = before ++ new :: after ∧ old.player = p ∧ new.player = p := by
  obtain ⟨old, due, _, moved⟩ := applyMove_cases applied
  obtain ⟨mem, rfl⟩ := mem_of_seat? (due?_eq_some_iff.1 due).1
  obtain ⟨before, after, seats, _⟩ := split_of_mem h mem
  rcases moved with ⟨_, rfl⟩ | ⟨_, rfl⟩ | ⟨_, _, put⟩
  · exact ⟨before, old, old, after, seats, seats, rfl, rfl⟩
  · exact ⟨before, old, old.fold, after, seats, seats_replace h seats rfl, rfl, rfl⟩
  · exact ⟨before, old, old.commit (f.price old m), after, seats,
      (put_seats put).1.trans (seats_replace h seats rfl), rfl, rfl⟩

/-- The seats around one are those of other players. -/
theorem player_ne_of_around {before after : List Seat} (h : f.Sound)
    (seats : f.seats = before ++ seat :: after) :
    ∀ s ∈ after ++ before, s.player ≠ seat.player := by
  have distinct := h.distinct
  rw [seats, (List.perm_middle.map Seat.player).nodup_iff, List.map_cons, List.nodup_cons]
    at distinct
  intro s around same
  exact distinct.1 (same ▸ List.mem_map_of_mem (List.perm_append_comm.mem_iff.1 around))

/-- After a move of the player due, those who can decide and have acted have matched the largest
bet, and along the seats that follow its player's they still come last. -/
theorem Orderly.applyMove (order : f.Orderly) (h : f.Sound) (due : f.next = some p)
    (applied : f.applyMove p m = some f') :
    (∀ seat ∈ f'.seats, seat.isActionable = true → seat.player ∈ f'.acted →
      f'.largest ≤ seat.stake) ∧ f'.ActedLast (f'.clockwise p).tail := by
  have sound : f'.Sound := h.apply (e := .move p m) applied
  obtain ⟨_, _, own, memOwn, samePlayer, settled⟩ := settled_applyMove applied
  obtain ⟨before, old, new, after, seats, seats', rfl, same⟩ := seats_applyMove h applied
  have others := player_ne_of_around h seats
  have acted := acted_applyMove applied
  constructor
  · intro seat mem live hasActed
    by_cases mover : seat.player = old.player
    · obtain rfl := eq_of_player_eq sound.distinct memOwn mem (mover.trans samePlayer.symm)
      exact (unsettled_eq_false_iff.1 settled live).1
    · -- the seats of the others are the ones they had before the move
      have memOld : seat ∈ f.seats := by
        rw [seats', List.mem_append, List.mem_cons] at mem
        rw [seats, List.mem_append, List.mem_cons]
        rcases mem with earlier | rfl | later
        · exact Or.inl earlier
        · exact absurd same mover
        · exact Or.inr (Or.inr later)
      rcases acted with ⟨grown, kept⟩ | ⟨alone, _⟩
      · rw [grown, Finset.mem_insert] at hasActed
        rw [kept]
        exact order.matched seat memOld live (hasActed.resolve_left mover)
      · rw [alone, Finset.mem_singleton] at hasActed
        exact absurd hasActed mover
  · have tail : (f'.clockwise old.player).tail = after ++ before := by
      rw [← same, clockwise_eq sound seats', List.tail_cons]
    rw [tail]
    have last := order.actedLast _ due
    rw [clockwise_eq h seats] at last
    rcases acted with ⟨grown, _⟩ | ⟨alone, _⟩
    · refine ActedLast.mono (List.pairwise_cons.1 last).2 (fun s around => ?_)
      rw [grown, Finset.mem_insert]
      exact or_iff_right (others s around)
    · refine List.pairwise_of_forall_mem_list (fun s around _ _ _ _ hasActed => ?_)
      rw [alone, Finset.mem_singleton] at hasActed
      exact absurd hasActed (others s around)

/-- Clockwise from any player all seats are met once. -/
theorem clockwise_perm (f : Flat) (p : Player) : (f.clockwise p).Perm f.seats := by
  have whole := List.takeWhile_append_dropWhile (p := fun s => s.player != p) (l := f.seats)
  exact List.perm_append_comm.trans (.of_eq whole)

/-- While the betting is open the turn passes to somebody who has yet to act, and the order of the
turns is kept. -/
theorem Orderly.turnTo {q : Player} (order : f.Orderly) (h : f.Sound) (due : f.next = some p)
    (applied : f.applyMove p m = some f') (running : f'.isRoundOver = false)
    (after : f'.nextAfter p = some q) : (f'.turnTo q).Orderly := by
  have sound : f'.Sound := h.apply (e := .move p m) applied
  obtain ⟨matched, last⟩ := order.applyMove h due applied
  obtain ⟨_, _, own, memOwn, rfl, settled⟩ := settled_applyMove applied
  obtain ⟨xs, next, ys, around, skipped, _, live, after'⟩ :=
    exists_next sound running memOwn settled
  obtain rfl : next.player = q := Option.some.inj (after'.symm.trans after)
  rw [around, List.tail_cons] at last
  have later : f'.ActedLast (next :: ys) := last.sublist (List.sublist_append_right xs _)
  have idle : next.player ∉ f'.acted := by
    intro acted
    obtain ⟨other, mem, yet⟩ := exists_unsettled running
    obtain ⟨canDecide, owes⟩ := unsettled_eq_true_iff.1 yet
    have idle : other.player ∉ f'.acted := by
      rcases owes with short | idle
      · exact fun acted => Nat.not_lt.2 (matched other mem canDecide acted) short
      · exact idle
    -- whoever has yet to act is found behind the next player, who has acted
    have among := (f'.clockwise_perm own.player).mem_iff.2 mem
    rw [around, List.mem_cons, List.mem_append, List.mem_cons] at among
    rcases among with rfl | between | rfl | behind
    · exact idle (unsettled_eq_false_iff.1 settled canDecide).2
    · rw [skipped other between] at canDecide
      cases canDecide
    · exact idle acted
    · exact idle ((List.pairwise_cons.1 later).1 other behind live canDecide acted)
  refine ⟨matched, fun q mem => ?_, fun q mem => ?_⟩
  · obtain rfl := Option.some.inj mem
    exact idle
  · obtain rfl := Option.some.inj mem
    show f'.ActedLast (f'.clockwise next.player)
    rw [clockwise_later sound memOwn around, ← List.cons_append]
    refine List.pairwise_append.2 ⟨later, List.pairwise_cons.2 ⟨?_, ?_⟩, ?_⟩
    · intro s between _ canDecide
      rw [skipped s between] at canDecide
      cases canDecide
    · refine List.pairwise_of_forall_mem_list (fun s between _ _ canDecide => ?_)
      rw [skipped s between] at canDecide
      cases canDecide
    · -- the player who has just moved, and those who cannot decide, close the circle
      intro s _ last inLast _ canDecide _
      rcases List.mem_cons.1 inLast with rfl | between
      · exact (unsettled_eq_false_iff.1 settled canDecide).2
      · rw [skipped last between] at canDecide
        cases canDecide

end Flat

end Holdem
