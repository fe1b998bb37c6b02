import Holdem.Proofs.Flat.Ledger

/-!
# Rounds of a flat table

When the betting of a round is complete, read off the seats, and whose turn comes next. While the
betting is open somebody has yet to act. Passing the turn from a player who need not act brings it
closer to the first one who has to.
-/

set_option autoImplicit false

namespace Holdem

namespace Flat

variable {f f' : Flat} {p : Player} {seat : Seat}

/-- How many players compete for the pot. -/
def activeCount (f : Flat) : Nat := f.seats.countP Seat.isActive

/-- How many players can still make decisions. -/
def liveCount (f : Flat) : Nat := f.seats.countP Seat.isActionable

/-- Whether a seat's player can decide and has not acted since the last bet or raise. -/
def unsettled (f : Flat) (seat : Seat) : Bool :=
  seat.isActionable && (seat.stake < f.largest || seat.player ∉ f.acted)

/-- Whether the betting of the round is complete: at most one player competes, nobody can decide
anything, or all who can have matched the largest bet and, unless there is only one, acted. -/
def isRoundOver (f : Flat) : Bool :=
  f.activeCount ≤ 1 || f.liveCount == 0 ||
    (f.seats.all (fun seat => !seat.isActionable || f.largest ≤ seat.stake) &&
      (f.liveCount == 1 || f.seats.all (fun seat => !seat.isActionable || seat.player ∈ f.acted)))

/-- Whether there is no more betting. -/
def isHandOver (f : Flat) : Bool := f.activeCount ≤ 1 || f.street == .showdown

/-- The seats clockwise, from a player's own on. -/
def clockwise (f : Flat) (p : Player) : List Seat :=
  f.seats.dropWhile (fun seat => seat.player != p) ++
    f.seats.takeWhile (fun seat => seat.player != p)

/-- The next player clockwise after another who can still make decisions. -/
def nextAfter (f : Flat) (p : Player) : Option Player :=
  ((f.clockwise p).tail.find? Seat.isActionable).map Seat.player

/-! ## What the ledger says about rounds -/

/-- The ledger counts as many players who compete as the flat table. -/
theorem activeCount_ledger (f : Flat) : f.ledger.activeCount = f.activeCount := by
  rw [Ledger.activeCount, ledger, List.countP_map]
  rfl

/-- The ledger counts as many players who can decide as the flat table. -/
theorem liveCount_ledger (f : Flat) : f.ledger.liveCount = f.liveCount := by
  rw [Ledger.liveCount, ledger, List.countP_map]
  rfl

/-- Ledger and flat table agree whether the round is over. -/
theorem isRoundOver_ledger (f : Flat) : f.ledger.isRoundOver = f.isRoundOver := by
  have matched : f.ledger.isMatched =
      f.seats.all (fun seat => !seat.isActionable || f.largest ≤ seat.stake) := by
    rw [Ledger.isMatched, ledger, List.all_map]
    rfl
  have acted : f.ledger.allActed =
      f.seats.all (fun seat => !seat.isActionable || seat.player ∈ f.acted) := by
    rw [Ledger.allActed, ledger, List.all_map]
    rfl
  rw [Ledger.isRoundOver, matched, acted, activeCount_ledger, liveCount_ledger, isRoundOver]

/-- Ledger and flat table agree whether the hand is over. -/
theorem isHandOver_ledger (f : Flat) : f.ledger.isHandOver = f.isHandOver := by
  rw [Ledger.isHandOver, activeCount_ledger]
  rfl

/-! ## The clockwise order -/

/-- The seats clockwise from one of them are those from its place on, then those before it. -/
theorem clockwise_eq {before after : List Seat} (h : f.Sound)
    (seats : f.seats = before ++ seat :: after) :
    f.clockwise seat.player = seat :: (after ++ before) := by
  -- no player sits twice, so the walk does not stop before the seat
  have distinct := h.distinct
  rw [seats, List.map_append, List.map_cons, List.nodup_append] at distinct
  have first : ∀ s ∈ before, (s.player != seat.player) = true := by
    intro s inBefore
    simpa using distinct.2.2 _ (List.mem_map_of_mem inBefore) _ List.mem_cons_self
  have stops : (seat :: after).dropWhile (fun s => s.player != seat.player) = seat :: after :=
    List.dropWhile_cons_of_neg (by simp)
  have starts : (seat :: after).takeWhile (fun s => s.player != seat.player) = [] :=
    List.takeWhile_cons_of_neg (by simp)
  rw [clockwise, seats, List.dropWhile_append_of_pos first, List.takeWhile_append_of_pos first,
    stops, starts, List.append_nil, List.cons_append]

/-- From a seat further on the same seats are passed, those in between last. -/
theorem clockwise_later {next : Seat} {xs ys : List Seat} (h : f.Sound) (mem : seat ∈ f.seats)
    (order : f.clockwise seat.player = seat :: (xs ++ next :: ys)) :
    f.clockwise next.player = next :: (ys ++ seat :: xs) := by
  obtain ⟨before, after, seats, _⟩ := split_of_mem h mem
  rw [clockwise_eq h seats] at order
  rcases List.append_eq_append_iff.1 (List.cons.inj order).2 with
    ⟨skipped, rfl, rest⟩ | ⟨between, rfl, rest⟩
  · -- the later seat comes before the first one in the list
    have later : f.seats = skipped ++ next :: (ys ++ seat :: after) := by
      rw [seats, rest, List.append_assoc, List.cons_append]
    rw [clockwise_eq h later, List.append_assoc, List.cons_append]
  · -- the later seat comes after the first one, or it is the first of the list
    cases between with
    | nil =>
      have later : f.seats = [] ++ next :: (ys ++ seat :: xs) := by
        rw [seats, ← List.nil_append before, ← rest, List.append_nil, List.cons_append,
          List.nil_append]
      rw [clockwise_eq h later, List.append_nil]
    | cons s between =>
      rw [List.cons_append, List.cons.injEq] at rest
      obtain ⟨rfl, rfl⟩ := rest
      have later : f.seats = (before ++ seat :: xs) ++ next :: between := by
        rw [seats, List.append_assoc, List.cons_append]
      rw [clockwise_eq h later, List.append_assoc]

/-- Ledger and flat table agree on who is next after a seat. -/
theorem nextAfter_ledger (h : f.Sound) (mem : seat ∈ f.seats) :
    f.ledger.nextAfter seat.player = f.nextAfter seat.player := by
  obtain ⟨before, after, seats, first⟩ := split_of_mem h mem
  rw [Ledger.nextAfter, around_ledger seats first, nextAfter, clockwise_eq h seats, List.tail_cons,
    List.find?_map, Option.map_map]
  rfl

/-! ## While the betting is open -/

/-- A seat is unsettled if its player can decide and lacks chips or has not acted. -/
theorem unsettled_eq_true_iff : f.unsettled seat = true ↔
    seat.isActionable = true ∧ (seat.stake < f.largest ∨ seat.player ∉ f.acted) := by
  rw [unsettled, Bool.and_eq_true, Bool.or_eq_true, decide_eq_true_eq, decide_eq_true_eq]

/-- A seat is settled if its player cannot decide, or has acted and lacks nothing. -/
theorem unsettled_eq_false_iff : f.unsettled seat = false ↔
    (seat.isActionable = true → f.largest ≤ seat.stake ∧ seat.player ∈ f.acted) := by
  rw [← Bool.not_eq_true, unsettled_eq_true_iff, not_and, not_or, not_not, not_lt]

/-- While the betting is open somebody has yet to act. -/
theorem exists_unsettled (running : f.isRoundOver = false) :
    ∃ seat ∈ f.seats, f.unsettled seat = true := by
  -- otherwise all who can decide have matched and acted, which completes the round
  by_contra none
  have settled : ∀ seat ∈ f.seats, seat.isActionable = true →
      f.largest ≤ seat.stake ∧ seat.player ∈ f.acted := by
    intro seat mem
    apply unsettled_eq_false_iff.1
    cases yet : f.unsettled seat with
    | false => rfl
    | true => exact absurd ⟨seat, mem, yet⟩ none
  have matched : f.seats.all (fun seat => !seat.isActionable || f.largest ≤ seat.stake) = true := by
    rw [List.all_eq_true]
    intro seat mem
    by_cases live : seat.isActionable = true
    · simpa [live] using (settled seat mem live).1
    · simp [live]
  have acted : f.seats.all (fun seat => !seat.isActionable || seat.player ∈ f.acted) = true := by
    rw [List.all_eq_true]
    intro seat mem
    by_cases live : seat.isActionable = true
    · simpa [live] using (settled seat mem live).2
    · simp [live]
  simp [isRoundOver, matched, acted] at running

/-- While the betting is open there is somebody to answer a player who need not act. -/
theorem exists_next (h : f.Sound) (running : f.isRoundOver = false) (mem : seat ∈ f.seats)
    (settled : f.unsettled seat = false) :
    ∃ xs next ys, f.clockwise seat.player = seat :: (xs ++ next :: ys) ∧
      (∀ s ∈ xs, s.isActionable = false) ∧ f.seat? next.player = some next ∧
      next.isActionable = true ∧ f.nextAfter seat.player = some next.player := by
  obtain ⟨before, after, seats, _⟩ := split_of_mem h mem
  obtain ⟨other, inSeats, yet⟩ := exists_unsettled running
  have order := clockwise_eq h seats
  -- whoever has yet to act is another player, and so can be found further on
  have among : other ∈ after ++ before := by
    rw [seats, List.mem_append, List.mem_cons] at inSeats
    rcases inSeats with earlier | rfl | later
    · exact List.mem_append_right _ earlier
    · rw [yet] at settled
      cases settled
    · exact List.mem_append_left _ later
  have somebody : ((after ++ before).find? Seat.isActionable).isSome := by
    rw [List.find?_isSome]
    exact ⟨other, among, (unsettled_eq_true_iff.1 yet).1⟩
  obtain ⟨next, found⟩ := Option.isSome_iff_exists.1 somebody
  obtain ⟨live, xs, ys, split, skipped⟩ := List.find?_eq_some_iff_append.1 found
  refine ⟨xs, next, ys, ?_, ?_, ?_, live, ?_⟩
  · rw [order, split]
  · intro s inBetween
    simpa using skipped s inBetween
  · have around : next ∈ after ++ before := List.mem_of_find?_eq_some found
    apply seat?_of_mem h.distinct
    rw [seats, List.mem_append, List.mem_cons]
    rcases List.mem_append.1 around with later | earlier
    · exact Or.inr (Or.inr later)
    · exact Or.inl earlier
  · rw [nextAfter, order, List.tail_cons, found]
    rfl

/-- How many seats the turn passes from a player to the first one who has yet to act. -/
def wait (f : Flat) (p : Player) : Nat := (f.clockwise p).findIdx f.unsettled

/-- Passing the turn from a player who need not act brings it closer to the first one who has
to. -/
theorem wait_lt {next : Seat} {xs ys : List Seat} (h : f.Sound) (running : f.isRoundOver = false)
    (mem : seat ∈ f.seats) (settled : f.unsettled seat = false)
    (order : f.clockwise seat.player = seat :: (xs ++ next :: ys))
    (skipped : ∀ s ∈ xs, s.isActionable = false) :
    f.wait next.player < f.wait seat.player := by
  -- nobody up to the next player has to act, so the first who has is no nearer than that
  have passed : ∀ s ∈ seat :: xs, f.unsettled s = false := by
    intro s inBetween
    rcases List.mem_cons.1 inBetween with rfl | skip
    · exact settled
    · rw [unsettled, skipped s skip, Bool.false_and]
  obtain ⟨before, after, seats, _⟩ := split_of_mem h mem
  obtain ⟨other, inSeats, yet⟩ := exists_unsettled running
  have among : other ∈ next :: ys := by
    have circle : other ∈ (seat :: xs) ++ next :: ys := by
      rw [List.cons_append, ← order, clockwise_eq h seats]
      rw [seats] at inSeats
      simp only [List.mem_append, List.mem_cons] at inSeats ⊢
      tauto
    rcases List.mem_append.1 circle with between | later
    · rw [passed other between] at yet
      cases yet
    · exact later
  have stops : (next :: ys).findIdx f.unsettled < (next :: ys).length :=
    List.findIdx_lt_length_of_exists ⟨other, among, yet⟩
  have skips : (seat :: xs).findIdx f.unsettled = (seat :: xs).length :=
    List.findIdx_eq_length_of_false passed
  have near : f.wait next.player = (next :: ys).findIdx f.unsettled := by
    rw [wait, clockwise_later h mem order, ← List.cons_append, List.findIdx_append, if_pos stops]
  have far : f.wait seat.player =
      (next :: ys).findIdx f.unsettled + (seat :: xs).length := by
    rw [wait, order, ← List.cons_append, List.findIdx_append, skips, if_neg (Nat.lt_irrefl _)]
  rw [near, far, List.length_cons]
  omega

/-! ## After a move, and when a street begins -/

/-- After a move its player does not have to act again, and it is nobody's turn. -/
theorem settled_applyMove {m : Move} (applied : f.applyMove p m = some f') :
    f'.next = none ∧ f'.street = f.street ∧
      ∃ seat ∈ f'.seats, seat.player = p ∧ f'.unsettled seat = false := by
  obtain ⟨seat, due, fits, moved⟩ := applyMove_cases applied
  obtain ⟨mem, rfl⟩ := mem_of_seat? (due?_eq_some_iff.1 due).1
  have replaced : ∀ new : Seat, new.player = seat.player → new ∈ (f.replace new).seats := by
    intro new same
    exact List.mem_map.2 ⟨seat, mem, if_pos same.symm⟩
  have acts : ∀ g : Flat, seat.player ∈ (g.closeTurn seat.player).acted := by
    intro g
    exact Finset.mem_insert_self _ _
  rcases moved with ⟨rfl, rfl⟩ | ⟨_, rfl⟩ | ⟨notCheck, notFold, put⟩
  · refine ⟨rfl, rfl, seat, mem, rfl, unsettled_eq_false_iff.2 fun _ => ⟨?_, acts f⟩⟩
    have free : f.lack seat = 0 := of_decide_eq_true fits
    exact Nat.le_of_sub_eq_zero free
  · refine ⟨rfl, rfl, seat.fold, replaced _ rfl, rfl, unsettled_eq_false_iff.2 ?_⟩
    intro live
    simp at live
  · -- either everything that lay behind is in the pot, or the largest bet is matched
    have live := (due?_eq_some_iff.1 due).2.1
    have matched : (seat.commit (f.price seat m)).isActionable = true →
        f.largest ≤ seat.stake + f.price seat m := by
      intro stillLive
      rw [Seat.isActionable_commit live, decide_eq_true_eq] at stillLive
      have paid := lack_le_price fits notCheck notFold (Ne.symm stillLive)
      rw [lack] at paid
      lia
    obtain ⟨_, ⟨_, rfl⟩ | ⟨_, _, rfl⟩⟩ := put_cases put
    · exact ⟨rfl, rfl, seat.commit (f.price seat m), replaced _ rfl, rfl,
        unsettled_eq_false_iff.2 fun stillLive => ⟨matched stillLive, acts _⟩⟩
    · exact ⟨rfl, rfl, seat.commit (f.price seat m), replaced _ rfl, rfl,
        unsettled_eq_false_iff.2 fun _ => ⟨Nat.le_refl _, acts _⟩⟩

/-- Beginning a street leaves the number of players who compete. -/
theorem activeCount_begin (f : Flat) (street : Street) (board : Board) :
    (f.begin street board).activeCount = f.activeCount := by
  rw [activeCount, begin, List.countP_map]
  rfl

/-- Beginning a street leaves the number of players who can decide. -/
theorem liveCount_begin (f : Flat) (street : Street) (board : Board) :
    (f.begin street board).liveCount = f.liveCount := by
  rw [liveCount, begin, List.countP_map]
  rfl

/-- Somebody opens a street if there is anybody who can decide. -/
theorem exists_opener (somebody : f.liveCount ≠ 0) : ∃ p, f.opener = some p := by
  obtain ⟨seat, mem, live⟩ := List.countP_pos_iff.1 (Nat.pos_of_ne_zero somebody)
  have order : ∀ n, seat ∈ f.seats.drop n ++ f.seats.take n := by
    intro n
    rw [← List.take_append_drop n f.seats, List.mem_append] at mem
    exact List.mem_append.2 mem.symm
  have found : ((f.seats.drop (f.seats.findIdx (fun seat => seat.player == f.dealer) + 1) ++
      f.seats.take (f.seats.findIdx (fun seat => seat.player == f.dealer) + 1)).find?
        Seat.isActionable).isSome :=
    List.find?_isSome.2 ⟨seat, order _, live⟩
  obtain ⟨first, opens⟩ := Option.isSome_iff_exists.1 found
  exact ⟨first.player, by rw [opener, opens]; rfl⟩

end Flat

end Holdem
