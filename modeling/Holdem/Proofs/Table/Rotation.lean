import Holdem.Proofs.Betting.Amounts
import Holdem.Proofs.Table.Resemblance

/-!
# Where the list of seats begins

The seats of a table lie in a circle; a snapshot lists them from some seat on. Which seat that is
makes no difference: a snapshot and any rotation of it are both accepted or both refused, and the
tables they start accept the same actions and events and give the same answers about the betting and
about each player.
-/

set_option autoImplicit false

namespace Holdem

namespace Snapshot

variable {s : Snapshot} {seats : List Seat}

/-- The check of a snapshot does not depend on the order of the seats. -/
theorem check_reseat (perm : seats.Perm s.seats) (checked : s.check = .ok ()) :
    (s.reseat seats).check = .ok () := by
  obtain ⟨some, few, distinct, dealer, next, acted, board, dealt⟩ := check_eq_ok_iff.1 checked
  have players := perm.map Seat.player
  have holes : (seats.filterMap Seat.hole).Perm (s.seats.filterMap Seat.hole) := perm.filterMap _
  obtain ⟨onBoard, apart⟩ := checkDealtOnce_eq_ok_iff.1 dealt
  refine check_eq_ok_iff.2 ⟨?_, perm.length_eq ▸ few, players.nodup_iff.2 distinct,
    players.mem_iff.2 dealer, ?_, fun p mem => players.mem_iff.2 (acted p mem), board,
    checkDealtOnce_eq_ok_iff.2 ⟨fun hole mem => onBoard hole (holes.mem_iff.1 mem), ?_⟩⟩
  · rintro rfl
    exact some (List.nil_perm.1 perm)
  · intro p due
    obtain ⟨seat, found, live⟩ := next p due
    exact ⟨seat, (find?_key_perm perm.symm distinct p).trans found, live⟩
  · exact (holes.pairwise_iff (fun apart => apart.symm)).2 apart

end Snapshot

namespace Table

variable {t u : Table} {n : Nat}

/-- Two refusals of a snapshot, each for a reason of its own, or the overflow of the stakes at
both. -/
inductive RefusedBoth : Failure → Failure → Prop
  | seating (cause cause' : SeatingError) :
      RefusedBoth (.refusal (.seating cause)) (.refusal (.seating cause'))
  | stakes : RefusedBoth (.fault .addOverflow) (.fault .addOverflow)

/-- How a snapshot starts a table or fails to. -/
theorem ofSnapshot_cases (s : Snapshot) :
    (∃ cause, s.check ≠ .ok () ∧ ofSnapshot s = .error (.refusal (.seating cause))) ∨
      (s.check = .ok () ∧ chipLimit ≤ (s.seats.map Seat.stake).sum ∧
        ofSnapshot s = .error (.fault .addOverflow)) ∨
      (s.check = .ok () ∧ (s.seats.map Seat.stake).sum < chipLimit ∧
        ∃ t, ofSnapshot s = .ok t) := by
  cases checked : s.check with
  | error cause =>
    refine Or.inl ⟨cause, by simp, ?_⟩
    rw [ofSnapshot, checked]
    rfl
  | ok _ =>
    by_cases fits : (s.seats.map Seat.stake).sum < chipLimit
    · exact Or.inr (Or.inr ⟨rfl, fits, exists_ofSnapshot_iff.2 ⟨checked, fits⟩⟩)
    · exact Or.inr (Or.inl ⟨rfl, Nat.le_of_not_lt fits,
        ofSnapshot_eq_fault_iff.2 ⟨rfl, checked, Nat.le_of_not_lt fits⟩⟩)

/-- A snapshot and a rotation of it start tables that resemble each other, or both start none. -/
theorem ofSnapshot_turned (s : Snapshot) (n : Nat) :
    Outcome.Concurs RefusedBoth (Resembles id n) (ofSnapshot s)
      (ofSnapshot (s.reseat (s.seats.rotate n))) := by
  have perm := List.rotate_perm s.seats n
  have same : (s.reseat (s.seats.rotate n)).check = .ok () ↔ s.check = .ok () :=
    ⟨Snapshot.check_reseat (s := s.reseat (s.seats.rotate n)) perm.symm, Snapshot.check_reseat perm⟩
  have stakes : ((s.seats.rotate n).map Seat.stake).sum = (s.seats.map Seat.stake).sum :=
    (perm.map _).sum_eq
  rcases ofSnapshot_cases s with ⟨cause, bad, refused⟩ | ⟨good, large, spills⟩ |
    ⟨good, fits, t, start⟩
  · rcases ofSnapshot_cases (s.reseat (s.seats.rotate n)) with
      ⟨cause', _, refused'⟩ | ⟨good, _⟩ | ⟨good, _⟩
    · rw [refused, refused']
      exact .seating cause cause'
    · exact absurd (same.1 good) bad
    · exact absurd (same.1 good) bad
  · have spills' : ofSnapshot (s.reseat (s.seats.rotate n)) = .error (.fault .addOverflow) :=
      ofSnapshot_eq_fault_iff.2 ⟨rfl, same.2 good, stakes.symm ▸ large⟩
    rw [spills, spills']
    exact .stakes
  · obtain ⟨u, start'⟩ := exists_ofSnapshot_iff.2 ⟨same.2 good, stakes.symm ▸ fits⟩
    rw [start, start']
    refine Resembles.ofSnapshot Seat.view_id ?_ start start'
    rw [List.map_id, List.map_id]

/-- The second table answers as the first, with its seats listed from another one on. -/
structure SameTurned (n : Nat) (t u : Table) : Prop extends SameBetting t u where
  seat : u.seat = t.seat
  seats : u.seats = t.seats.map (fun seats => seats.rotate n)

/-- Sound tables that resemble each other up to a turn answer every question alike, with the seats
turned. -/
theorem Resembles.sameTurned (h : Resembles id n t u) : SameTurned n t u where
  toSameBetting := h.sameBetting Seat.view_id
  seat := by
    funext p
    rcases h.seat_cases p with ⟨e, missing, missing'⟩ | ⟨s, s', found, found', same⟩
    · rw [missing, missing']
    · rw [found, found', show s' = s from same]
  seats := by
    obtain ⟨l, m, seats, seats', turned, _⟩ := h.seats_turned
    rw [List.map_id, List.map_id] at turned
    rw [seats, seats', turned]
    rfl

/-- A snapshot and a rotation of it are both accepted or both refused. If they are accepted, the two
tables accept and refuse the same actions and the same events, and after any of them they answer
the same. -/
theorem rotation_unnoticed (s : Snapshot) (n : Nat) :
    Outcome.Concurs RefusedBoth
      (fun t u =>
        (∀ actions, Outcome.Concurs Failure.Reworded (SameTurned n) (t.playAll actions)
          (u.playAll actions)) ∧
        ∀ events, Outcome.Matches (SameTurned n) (t.run events) (u.run events))
      (ofSnapshot s) (ofSnapshot (s.reseat (s.seats.rotate n))) := by
  refine (ofSnapshot_turned s n).mono (fun _ _ _ _ => id) (fun t u _ _ h => ⟨?_, ?_⟩)
  · intro actions
    exact ((Resembles.inStep Seat.view_id n).playAll h actions).mono (fun _ _ _ _ => id)
      (fun _ _ _ _ h => h.sameTurned)
  · intro events
    exact (Outcome.matches_foldlM (fun _ _ e h => h.apply Seat.view_id e) events h).mono
      (fun _ _ h => h.sameTurned)

end Table

end Holdem
