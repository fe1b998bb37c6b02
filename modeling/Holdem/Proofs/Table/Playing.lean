import Holdem.Proofs.Table.Closing

/-!
# Playing at flat tables

An action that is played is allowed, its move is accepted, and then the turn passes on or the round
is closed. An allowed action fits the state of the betting of the flat table, though the two are
written down with different formulas. After it its player does not have to act again.
-/

set_option autoImplicit false

namespace Holdem

namespace Table

variable {t t' : Table} {f f' : Flat} {a : Action} {p : Player} {seat : Seat}

/-- An action is played in one of two ways: its move leaves the betting open and the turn passes on,
or it completes the round, which is closed. -/
theorem play_eq_ok : t.play a = .ok t' ↔
    ∃ p moved, t.nextToAct = some p ∧ t.isAllowed a = .ok true ∧ t.apply (a.event p) = .ok moved ∧
      ((moved.isRoundOver = true ∧ moved.close = .ok t') ∨
        (moved.isRoundOver = false ∧
          ∃ q, moved.nextAfter p = some q ∧ moved.apply (.turn q) = .ok t')) := by
  unfold play
  cases due : t.nextToAct with
  | none => simp [throw, throwThe, MonadExceptOf.throw]
  | some p =>
    show (t.isAllowed a >>= _) = Except.ok t' ↔ _
    cases allowed : t.isAllowed a with
    | error e => simp [bind, Except.bind]
    | ok b =>
      cases b with
      | false =>
        show (t.text >>= _) = Except.ok t' ↔ _
        simp [Outcome.illegal, bind_eq_ok]
      | true =>
        show (t.apply (a.event p) >>= _) = Except.ok t' ↔ _
        rw [bind_eq_ok]
        constructor
        · rintro ⟨moved, applied, rest⟩
          refine ⟨p, moved, rfl, rfl, applied, ?_⟩
          by_cases ended : moved.isRoundOver = true
          · rw [if_pos ended] at rest
            exact Or.inl ⟨ended, rest⟩
          · rw [if_neg ended] at rest
            cases after : moved.nextAfter p with
            | none =>
              rw [after] at rest
              cases rest
            | some q =>
              rw [after] at rest
              exact Or.inr ⟨by simpa using ended, q, rfl, rest⟩
        · rintro ⟨_, moved, same, _, applied, rest⟩
          obtain rfl := Option.some.inj same
          refine ⟨moved, applied, ?_⟩
          rcases rest with ⟨ended, closed⟩ | ⟨running, q, after, passed⟩
          · rw [if_pos ended]
            exact closed
          · rw [if_neg (by simp [running]), after]
            exact passed

/-- The chips behind are those of the flat account's seats. -/
theorem Answers.chipsBehind_eq (answers : t.Answers f) : t.chipsBehind = f.behind := by
  rw [chipsBehind, answers.seats]
  rfl

/-- The pots and the chips behind are the flat account's total. -/
theorem Answers.total_eq (answers : t.Answers f) :
    t.previousPot + t.roundPot + t.chipsBehind = f.total := by
  rw [answers.previousPot, answers.roundPot, answers.chipsBehind_eq, Flat.total]

/-! ## Allowed actions -/

/-- The actor is the seat of the player who is due. -/
theorem Shows.actor_eq (h : t.Shows f) (sound : f.Sound) (due : f.next = some p)
    (found : f.seat? p = some seat) : t.actor? = some seat := by
  rw [actor?, actor, (h.answers sound).nextToAct, due]
  show (t.seat p).toOption = _
  rw [h.seat_eq found]
  rfl

/-- Whoever is due acts. -/
theorem Shows.exists_actor (h : t.Shows f) (sound : f.Sound) (due : f.next = some p) :
    ∃ seat, t.actor? = some seat ∧ seat.player = p := by
  obtain ⟨seat, found, _⟩ := sound.next_actionable p due
  exact ⟨seat, h.actor_eq sound due found, (Flat.mem_of_seat? found).2⟩

/-- Where nobody is due, nobody acts. -/
theorem actor?_of_idle (idle : t.nextToAct = none) : t.actor? = none := by
  rw [actor?, actor, idle]
  rfl

/-- Nobody lacks more than the largest bet. -/
theorem deficit_le (t : Table) (p : Player) : t.deficit p ≤ t.largestBet := by
  rw [deficit, Ledger.deficit, largestBet]
  cases t.ledger.row? p with
  | none => exact Nat.zero_le _
  | some r => exact Nat.sub_le _ _

/-- It is decided whether an action is allowed, as long as its amount fits beside the largest
bet. -/
theorem exists_isAllowed (fits : t.largestBet + a.amount < chipLimit) :
    ∃ b, t.isAllowed a = .ok b := by
  unfold isAllowed
  cases t.actor? with
  | none => exact ⟨false, rfl⟩
  | some seat =>
    cases a with
    | raise n =>
      have lacks := t.deficit_le seat.player
      have sum : addChips (t.deficit seat.player) n = .ok (t.deficit seat.player + n) :=
        addChips_eq_ok_iff.2 ⟨rfl, by simp only [Action.amount] at fits; lia⟩
      dsimp only
      rw [sum]
      by_cases guard : (0 < t.largestBet && t.mayRaise && t.minimum ≤ n) = true
      · rw [if_pos guard]
        exact ⟨_, rfl⟩
      · rw [if_neg guard]
        exact ⟨_, rfl⟩
    | _ => exact ⟨_, rfl⟩

/-- An allowed action fits the betting; if it is no check or fold it costs something, and nobody
folds who could check. -/
theorem Shows.fits_of_isAllowed (h : t.Shows f) (sound : f.Sound) (due : f.next = some p)
    (found : f.seat? p = some seat) (allowed : t.isAllowed a = .ok true) :
    f.permits seat a.move = true ∧ (a.move = .fold → 0 < f.lack seat) ∧
      (a.move ≠ .check → a.move ≠ .fold → 0 < f.price seat a.move) := by
  have answers := h.answers sound
  have lacks : t.deficit seat.player = f.lack seat :=
    answers.deficit seat (Flat.mem_of_seat? found).1
  have minimum : t.minimum = max f.minRaise 1 := by rw [Table.minimum, answers.minRaise]
  unfold isAllowed at allowed
  rw [h.actor_eq sound due found] at allowed
  simp only [lacks, answers.largestBet, minimum] at allowed
  -- the two formulas of each action differ in how they treat a whole stack and the smallest bet
  cases a with
  | fold =>
    have owes : 0 < f.lack seat := of_decide_eq_true (Except.ok.inj allowed)
    exact ⟨rfl, fun _ => owes, fun _ notFold => absurd rfl notFold⟩
  | check =>
    have free : f.lack seat = 0 := of_decide_eq_true (Except.ok.inj allowed)
    exact ⟨decide_eq_true free, by simp [Action.move], fun notCheck => absurd rfl notCheck⟩
  | call n =>
    have short := Except.ok.inj allowed
    simp only [Bool.and_eq_true, decide_eq_true_eq] at short
    refine ⟨rfl, by simp [Action.move], fun _ _ => ?_⟩
    show 0 < min (f.lack seat) seat.stack
    lia
  | bet n =>
    have open? := Except.ok.inj allowed
    simp only [Bool.and_eq_true, decide_eq_true_eq] at open?
    refine ⟨?_, by simp [Action.move], fun _ _ => ?_⟩
    · simp only [Action.move, Flat.permits, Bool.and_eq_true, Bool.or_eq_true, decide_eq_true_eq]
      lia
    · show 0 < n
      lia
  | raise n =>
    dsimp only at allowed
    by_cases guard : (0 < f.largest && t.mayRaise && max f.minRaise 1 ≤ n) = true
    · rw [if_pos guard] at allowed
      obtain ⟨sum, added, below⟩ := bind_eq_ok.1 allowed
      obtain ⟨rfl, _⟩ := addChips_eq_ok_iff.1 added
      have leaves : f.lack seat + n < seat.stack := of_decide_eq_true (Except.ok.inj below)
      simp only [Bool.and_eq_true, decide_eq_true_eq] at guard
      refine ⟨?_, by simp [Action.move], fun _ _ => ?_⟩
      · simp only [Action.move, Flat.permits, Bool.and_eq_true, Bool.or_eq_true, decide_eq_true_eq]
        lia
      · show 0 < f.lack seat + n
        lia
    · rw [if_neg guard] at allowed
      cases allowed
  | shove n =>
    have all := Except.ok.inj allowed
    simp only [Bool.and_eq_true, decide_eq_true_eq] at all
    exact ⟨decide_eq_true all.1.2, by simp [Action.move], fun _ _ => all.1.2⟩

/-! ## What a played action does -/

/-- A played action is a move of the flat table that is shown, after which the round is closed or
the turn passes on. -/
theorem Shows.play_cases (h : t.Shows f) (sound : f.Sound) (played : t.play a = .ok t') :
    ∃ (p : Player) (moved : Table) (f' : Flat), f.next = some p ∧ t.isAllowed a = .ok true ∧
      f.applyMove p a.move = some f' ∧ moved.Shows f' ∧ f'.Sound ∧
      ((f'.isRoundOver = true ∧ moved.close = .ok t') ∨
        (f'.isRoundOver = false ∧
          ∃ q, f'.nextAfter p = some q ∧ t'.Shows (f'.turnTo q) ∧ (f'.turnTo q).Sound)) := by
  obtain ⟨p, moved, due, allowed, accepted, rest⟩ := play_eq_ok.1 played
  obtain ⟨f', applied, shown⟩ := (h.apply_agrees sound (a.event p)).exists_some accepted
  have sound' : f'.Sound := sound.apply applied
  have answers := shown.answers sound'
  rw [(h.answers sound).nextToAct] at due
  rw [answers.isRoundOver] at rest
  refine ⟨p, moved, f', due, allowed, applied, shown, sound', ?_⟩
  rcases rest with closing | ⟨running, q, after, passed⟩
  · exact Or.inl closing
  · obtain ⟨g, turned, shows'⟩ := (shown.apply_agrees sound' (.turn q)).exists_some passed
    have soundG : g.Sound := sound'.apply turned
    obtain ⟨_, _, _, rfl⟩ := Flat.applyTurn_cases turned
    obtain ⟨_, _, own, mem, rfl, _⟩ := Flat.settled_applyMove applied
    rw [answers.nextAfter own mem] at after
    exact Or.inr ⟨running, q, after, shows', soundG⟩

end Table

end Holdem
