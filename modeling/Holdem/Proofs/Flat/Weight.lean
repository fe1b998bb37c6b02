import Holdem.Proofs.Flat.Rounds

/-!
# How much is left to play

The weight of a flat table goes down with every action that is played. Its first digit counts the
streets to come and the chips behind, its second the players who have yet to act, its third the
seats that the turn passes before the first of them. A bet takes chips from behind, a check or fold
settles its player or brings the turn closer to somebody who is not, and a closed round takes a
street or leaves nobody due.
-/

set_option autoImplicit false

namespace Holdem

namespace Flat

variable {f f' : Flat} {p q : Player} {seat : Seat} {m : Move}

/-- How many players have yet to act. -/
def unsettledCount (f : Flat) : Nat := f.seats.countP f.unsettled

/-- How far the turn is from somebody who has yet to act. -/
def delay (f : Flat) : Nat :=
  match f.next with
  | none => 0
  | some p => f.wait p + 1

/-- What is left to play on this street while nobody bets. -/
def pace (f : Flat) : Nat := f.unsettledCount * (f.seats.length + 1) + f.delay

/-- What is left to play. -/
def weight (f : Flat) : Nat :=
  (f.street.left + f.behind) * (f.seats.length + 1) ^ 2 + f.pace

/-! ## Digits -/

/-- A number with a smaller leading digit is smaller. -/
theorem digits_lt {base a b x y : Nat} (less : a < b) (digit : x < base) :
    a * base + x < b * base + y := by
  calc a * base + x < a * base + base := Nat.add_lt_add_left digit _
    _ = (a + 1) * base := (Nat.succ_mul a base).symm
    _ ≤ b * base := Nat.mul_le_mul_right base less
    _ ≤ b * base + y := Nat.le_add_right _ _

/-- Clockwise from any player there are as many seats as at the table. -/
theorem length_clockwise (f : Flat) (p : Player) : (f.clockwise p).length = f.seats.length := by
  rw [clockwise, List.length_append, Nat.add_comm, ← List.length_append,
    List.takeWhile_append_dropWhile]

/-- Nobody waits for more turns than there are seats. -/
theorem wait_le (f : Flat) (p : Player) : f.wait p ≤ f.seats.length := by
  rw [← f.length_clockwise p]
  exact List.findIdx_le_length

/-- While somebody has yet to act the delay is a digit. -/
theorem delay_le (somebody : ∃ seat ∈ f.seats, f.unsettled seat = true) :
    f.delay ≤ f.seats.length := by
  obtain ⟨seat, mem, yet⟩ := somebody
  unfold delay
  cases f.next with
  | none => exact Nat.zero_le _
  | some p =>
    have among : seat ∈ f.clockwise p := by
      rw [← List.takeWhile_append_dropWhile (p := fun s => s.player != p) (l := f.seats),
        List.mem_append] at mem
      exact List.mem_append.2 mem.symm
    have near : f.wait p < (f.clockwise p).length :=
      List.findIdx_lt_length_of_exists ⟨seat, among, yet⟩
    rwa [length_clockwise] at near

/-- What is left to play on a street is bounded by the number of seats. -/
theorem pace_lt (h : f.Sound) : f.pace < (f.seats.length + 1) ^ 2 := by
  have count : f.unsettledCount ≤ f.seats.length := List.countP_le_length
  rw [pow_two]
  by_cases somebody : ∃ seat ∈ f.seats, f.unsettled seat = true
  · exact digits_lt (y := 0) (Nat.lt_succ_of_le count) (Nat.lt_succ_of_le (delay_le somebody))
  · -- nobody is found, so the wait is one more than a digit, but the digit before it is zero
    have settled : f.unsettledCount = 0 := by
      rw [unsettledCount, List.countP_eq_zero]
      intro seat mem yet
      exact somebody ⟨seat, mem, yet⟩
    have seated : 0 < f.seats.length := by
      obtain ⟨dealer, mem, _⟩ := List.mem_map.1 h.dealer_seated
      exact List.length_pos_of_mem mem
    have far : f.delay ≤ f.seats.length + 1 := by
      unfold delay
      cases f.next with
      | none => exact Nat.zero_le _
      | some p => exact Nat.succ_le_succ (f.wait_le p)
    have twice : (f.seats.length + 1) * 2 ≤ (f.seats.length + 1) * (f.seats.length + 1) :=
      Nat.mul_le_mul_left _ (by omega)
    rw [pace, settled]
    omega

/-- The weight falls where fewer streets and chips are left, whatever is to play on the street. -/
theorem weight_lt_of_less (h : f'.Sound) (length : f'.seats.length = f.seats.length)
    (less : f'.street.left + f'.behind < f.street.left + f.behind) : f'.weight < f.weight := by
  have digit := pace_lt h
  rw [weight, weight, length]
  rw [length] at digit
  exact digits_lt less digit

/-- The weight falls where less is left to play on the same street. -/
theorem weight_lt_of_pace (length : f'.seats.length = f.seats.length)
    (same : f'.street.left + f'.behind = f.street.left + f.behind) (slower : f'.pace < f.pace) :
    f'.weight < f.weight := by
  rw [weight, weight, length, same]
  exact Nat.add_lt_add_left slower _

/-! ## What an event does to the digits -/

/-- No event changes the number of seats. -/
theorem length_apply {e : Event} (applied : f.apply e = some f') :
    f'.seats.length = f.seats.length := by
  cases e with
  | move p m =>
    obtain ⟨seat, _, _, moved⟩ := applyMove_cases applied
    rcases moved with ⟨_, rfl⟩ | ⟨_, rfl⟩ | ⟨_, _, put⟩
    · rfl
    · exact List.length_map _
    · rw [(put_seats put).1]
      exact List.length_map _
  | turn p =>
    obtain ⟨_, _, _, rfl⟩ := applyTurn_cases applied
    rfl
  | round street cards =>
    obtain ⟨_, _, board, _, _, rfl⟩ := applyRound_cases applied
    exact List.length_map _

/-- A move takes its price from behind. -/
theorem behind_applyMove (h : f.Sound) (applied : f.applyMove p m = some f')
    (found : f.seat? p = some seat) : f'.behind + f.price seat m = f.behind := by
  obtain ⟨_, fits, moved⟩ := applyMove_of_seat? applied found
  have mem : seat ∈ f.seats := (mem_of_seat? found).1
  rcases moved with ⟨rfl, rfl⟩ | ⟨rfl, rfl⟩ | ⟨_, _, put⟩
  · rfl
  · have kept := behind_replace h mem (Seat.player_fold seat)
    rw [Seat.stack_fold] at kept
    show (f.replace seat.fold).behind + 0 = f.behind
    lia
  · have paid := behind_commit h mem (price_le_stack fits)
    obtain ⟨_, ⟨_, rfl⟩ | ⟨_, _, rfl⟩⟩ := put_cases put
    · exact paid
    · exact paid

/-- A list counts fewer of its members if one of them is left out. -/
theorem countP_lt_countP {α : Type} {l : List α} {few many : α → Bool} {a : α}
    (le : ∀ x ∈ l, few x = true → many x = true) (mem : a ∈ l) (out : few a = false)
    (counted : many a = true) : l.countP few < l.countP many := by
  obtain ⟨before, after, rfl⟩ := List.append_of_mem mem
  have left : before.countP few ≤ before.countP many :=
    List.countP_mono_left fun x inBefore => le x (by simp [inBefore])
  have right : after.countP few ≤ after.countP many :=
    List.countP_mono_left fun x inAfter => le x (by simp [inAfter])
  simp only [List.countP_append, List.countP_cons, out, counted, if_true, Bool.false_eq_true,
    if_false]
  omega

/-- Whoever is unsettled after a turn was so before it. -/
theorem unsettled_of_closeTurn (yet : (f.closeTurn p).unsettled seat = true) :
    f.unsettled seat = true := by
  obtain ⟨live, owes | idle⟩ := unsettled_eq_true_iff.1 yet
  · exact unsettled_eq_true_iff.2 ⟨live, Or.inl owes⟩
  · have before : seat.player ∉ f.acted := fun acted => idle (Finset.mem_insert_of_mem acted)
    exact unsettled_eq_true_iff.2 ⟨live, Or.inr before⟩

/-- A change of the seats that unsettles none of them and settles one. -/
theorem unsettledCount_map {change : Seat → Seat} (seats : f'.seats = f.seats.map change)
    (weaker : ∀ s ∈ f.seats, f'.unsettled (change s) = true → f.unsettled s = true)
    (mem : seat ∈ f.seats) (settles : f'.unsettled (change seat) = false) :
    f'.unsettledCount ≤ f.unsettledCount ∧
      (f.unsettled seat = true → f'.unsettledCount < f.unsettledCount) := by
  rw [unsettledCount, unsettledCount, seats, List.countP_map]
  exact ⟨List.countP_mono_left weaker, fun yet => countP_lt_countP weaker mem settles yet⟩

/-- A check or a fold unsettles nobody and settles its player. -/
theorem unsettledCount_applyMove (applied : f.applyMove p m = some f')
    (found : f.seat? p = some seat) (quiet : m = .check ∨ m = .fold) :
    f'.unsettledCount ≤ f.unsettledCount ∧
      (f.unsettled seat = true → f'.unsettledCount < f.unsettledCount) := by
  obtain ⟨_, fits, moved⟩ := applyMove_of_seat? applied found
  obtain ⟨mem, rfl⟩ := mem_of_seat? found
  rcases moved with ⟨rfl, rfl⟩ | ⟨rfl, rfl⟩ | ⟨notCheck, notFold, _⟩
  · have free : f.lack seat = 0 := of_decide_eq_true fits
    have settles : (f.closeTurn seat.player).unsettled seat = false :=
      unsettled_eq_false_iff.2 fun _ =>
        ⟨Nat.le_of_sub_eq_zero free, Finset.mem_insert_self _ _⟩
    exact unsettledCount_map (List.map_id _).symm (fun _ _ yet => unsettled_of_closeTurn yet) mem
      settles
  · have out : ((f.replace seat.fold).closeTurn seat.player).unsettled seat.fold = false := by
      rw [unsettled, Seat.isActionable_fold, Bool.false_and]
    refine unsettledCount_map rfl ?_ mem ?_
    · intro x _ yet
      by_cases own : x.player = seat.fold.player
      · rw [if_pos own, out] at yet
        cases yet
      · rw [if_neg own] at yet
        exact unsettled_of_closeTurn (p := seat.player) yet
    · rw [if_pos (Seat.player_fold seat).symm]
      exact out
  · rcases quiet with rfl | rfl
    · exact absurd rfl notCheck
    · exact absurd rfl notFold

/-! ## What a played action does to the weight -/

/-- A move that is a check or a fold, or costs chips. -/
theorem less_or_quiet (h : f.Sound) (applied : f.applyMove p m = some f')
    (found : f.seat? p = some seat) (costs : m ≠ .check → m ≠ .fold → 0 < f.price seat m) :
    f'.behind < f.behind ∨ (f'.behind = f.behind ∧ (m = .check ∨ m = .fold)) := by
  have paid := behind_applyMove h applied found
  by_cases quiet : m = .check ∨ m = .fold
  · right
    refine ⟨?_, quiet⟩
    rcases quiet with rfl | rfl
    · exact paid
    · exact paid
  · left
    have cost := costs (fun check => quiet (Or.inl check)) (fun fold => quiet (Or.inr fold))
    lia

/-- Closing the turn of a player who has acted only ends the turn. -/
theorem closeTurn_of_mem (acted : p ∈ f.acted) : f.closeTurn p = { f with next := none } := by
  rw [closeTurn, Finset.insert_eq_of_mem acted]

/-- A check by a player who need not act leaves everybody's distance as it was. -/
theorem wait_applyMove (applied : f.applyMove p m = some f') (found : f.seat? p = some seat)
    (owes : m = .fold → 0 < f.lack seat) (quiet : m = .check ∨ m = .fold)
    (settled : f.unsettled seat = false) : f'.wait p = f.wait p := by
  obtain ⟨live, _, moved⟩ := applyMove_of_seat? applied found
  obtain ⟨mem, rfl⟩ := mem_of_seat? found
  obtain ⟨matched, acted⟩ := unsettled_eq_false_iff.1 settled live
  rcases moved with ⟨rfl, rfl⟩ | ⟨rfl, _⟩ | ⟨notCheck, notFold, _⟩
  · rw [closeTurn_of_mem acted]
    rfl
  · have lacks := owes rfl
    rw [lack] at lacks
    lia
  · rcases quiet with rfl | rfl
    · exact absurd rfl notCheck
    · exact absurd rfl notFold

/-- An action after which the turn passes on. -/
theorem weight_turn_lt (h : f.Sound) (due : f.next = some p) (found : f.seat? p = some seat)
    (applied : f.applyMove p m = some f')
    (costs : m ≠ .check → m ≠ .fold → 0 < f.price seat m) (owes : m = .fold → 0 < f.lack seat)
    (running : f'.isRoundOver = false) (after : f'.nextAfter p = some q) :
    (f'.turnTo q).weight < f.weight := by
  have sound : f'.Sound := h.apply (e := .move p m) applied
  have length : f'.seats.length = f.seats.length := length_apply (e := .move p m) applied
  obtain ⟨_, street, own, mem, rfl, settled⟩ := settled_applyMove applied
  obtain ⟨xs, next, ys, order, skipped, foundNext, live, after'⟩ :=
    exists_next sound running mem settled
  obtain rfl : next.player = q := Option.some.inj (after'.symm.trans after)
  have turned : (f'.turnTo next.player).Sound := sound.of_turn foundNext live
  rcases less_or_quiet h applied found costs with less | ⟨same, quiet⟩
  · apply weight_lt_of_less turned length
    show f'.street.left + f'.behind < f.street.left + f.behind
    rw [street]
    exact Nat.add_lt_add_left less _
  have length' : (f'.turnTo next.player).seats.length = f.seats.length := length
  apply weight_lt_of_pace length'
  · show f'.street.left + f'.behind = f.street.left + f.behind
    rw [street, same]
  obtain ⟨noMore, fewer⟩ := unsettledCount_applyMove applied found quiet
  cases yet : f.unsettled seat with
  | true =>
    -- one player less has yet to act, wherever the turn goes
    have near : (f'.turnTo next.player).delay ≤ f'.seats.length :=
      delay_le (exists_unsettled running)
    show f'.unsettledCount * (f'.seats.length + 1) + (f'.turnTo next.player).delay < f.pace
    rw [length] at near ⊢
    exact digits_lt (fewer yet) (Nat.lt_succ_of_le near)
  | false =>
    -- the player checked without having to, so nothing changed but the turn
    have closer : f'.wait next.player < f'.wait own.player :=
      wait_lt sound running mem settled order skipped
    have stays := wait_applyMove applied found owes quiet yet
    have fewer := Nat.mul_le_mul_right (f.seats.length + 1) noMore
    show f'.unsettledCount * (f'.seats.length + 1) + (f'.wait next.player + 1) < f.pace
    rw [pace, delay, due, length]
    show _ < f.unsettledCount * (f.seats.length + 1) + (f.wait own.player + 1)
    omega

/-- An action that completes the round, which is closed. -/
theorem weight_close_lt {g : Flat} (h : f.Sound) (due : f.next = some p)
    (found : f.seat? p = some seat) (applied : f.applyMove p m = some f')
    (costs : m ≠ .check → m ≠ .fold → 0 < f.price seat m) (sound : g.Sound)
    (behind : g.behind = f'.behind) (seats : g.seats.length = f'.seats.length)
    (ends : g = f' ∨ g.street.left < f'.street.left) : g.weight < f.weight := by
  have length : f'.seats.length = f.seats.length := length_apply (e := .move p m) applied
  obtain ⟨idle, street, _⟩ := settled_applyMove applied
  rw [street] at ends
  rcases less_or_quiet h applied found costs with less | ⟨same, quiet⟩
  · apply weight_lt_of_less sound (seats.trans length)
    rcases ends with rfl | later
    · rw [street]
      lia
    · lia
  · rcases ends with rfl | later
    · apply weight_lt_of_pace length
      · rw [street, same]
      · -- no street began: nobody is due any more, while somebody was
        obtain ⟨noMore, _⟩ := unsettledCount_applyMove applied found quiet
        have fewer := Nat.mul_le_mul_right (f.seats.length + 1) noMore
        rw [pace, pace, delay, delay, idle, due, length]
        exact Nat.lt_of_le_of_lt fewer (Nat.lt_add_of_pos_right (Nat.succ_pos _))
    · apply weight_lt_of_less sound (seats.trans length)
      lia

end Flat

end Holdem
