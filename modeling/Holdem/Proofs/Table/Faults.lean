import Holdem.Proofs.Table.Overflow

/-!
# What a table faults on

Where all chips and raises fit, a table answers every event and every action: with the table after
it, or with a defect that says why it is refused. There is one exception. The amount that a raise
takes is added to what is owed before anything asks whether the player has it, so a raise far beyond
the stack ends in a fault instead. A bet of any size is compared with the stack as it is.
-/

set_option autoImplicit false

namespace Holdem

/-- The failure is a defect, which can be told from others and survived. -/
def Failure.IsDefect (e : Failure) : Prop := ∃ cause, e = .defect cause

/-- A defect is one. -/
theorem Failure.isDefect_defect (cause : Defect) : (Failure.defect cause).IsDefect := ⟨cause, rfl⟩

/-- An illegality is a defect. -/
theorem Outcome.within_illegal {α : Type} (cause : Illegality) (P : α → Prop) :
    Within Failure.IsDefect P (illegal cause : Outcome α) := Failure.isDefect_defect _

namespace Table

variable {t : Table} {f : Flat} {a : Action} {p : Player} {seat : Seat}

/-- The event is a raise by a player who may act, and with what is owed it is no amount of chips. -/
def Overraises (t : Table) (e : Event) : Prop :=
  ∃ p n seat, e = .move p (.raise n) ∧ t.due p = .ok seat ∧ chipLimit ≤ t.deficit p + n

/-- The action is a raise that is large enough, where raises are open, and with what is owed it is
no amount of chips. -/
def Overasks (t : Table) (a : Action) : Prop :=
  ∃ n seat, a = .raise n ∧ t.actor? = some seat ∧ 0 < t.largestBet ∧ t.mayRaise = true ∧
    t.minimum ≤ n ∧ chipLimit ≤ t.deficit seat.player + n

/-! ## Events -/

/-- Whoever may not act is told why. -/
theorem within_due (t : Table) (p : Player) :
    Outcome.Within Failure.IsDefect (fun _ => True) (t.due p) := by
  have seated : Outcome.Within Failure.IsDefect (fun _ => True) (t.seat p) := by
    unfold Table.seat
    split
    · trivial
    · exact Failure.isDefect_defect _
  have able : ∀ seat : Seat, Outcome.Within Failure.IsDefect (fun _ => True)
      (if (!seat.isActionable) = true then
        (Outcome.illegal (.cannotAct p seat.status) : Outcome Unit) >>= fun _ => pure seat
        else pure seat) := by
    intro seat
    split
    · exact Outcome.within_illegal _ _
    · trivial
  refine seated.bind (fun seat _ => ?_)
  dsimp only
  split
  · split
    · exact Outcome.within_illegal _ _
    · exact able seat
  · exact able seat

/-- What is out of place is refused, as long as the pot that the refusal names fits. -/
theorem outOfPlace_eq {α : Type} (fits : t.previousPot + t.roundPot < chipLimit) (e : Event) :
    (t.outOfPlace e : Outcome α) =
      Outcome.illegal (.outOfPlace e t.street (t.previousPot + t.roundPot)) := by
  rw [outOfPlace, pot, addChips_eq_ok_iff.2 ⟨rfl, fits⟩]
  rfl

/-- Refusing an event out of place is a defect where the pot fits its range. -/
theorem within_outOfPlace {α : Type} (fits : t.previousPot + t.roundPot < chipLimit) (e : Event) :
    Outcome.Within Failure.IsDefect (fun _ => True) (t.outOfPlace e : Outcome α) := by
  rw [outOfPlace_eq fits e]
  exact Outcome.within_illegal _ _

/-- A move that does not fit the betting is out of place, but a raise is added up first. -/
theorem Shows.applyMove_of_misfit {m : Move} (h : t.Shows f) (due : t.due p = .ok seat)
    (found : f.seat? p = some seat) (misfit : f.permits seat m = false) :
    t.applyMove p m = t.outOfPlace (.move p m) ∨ t.Overraises (.move p m) := by
  have largest : t.largestBet = f.largest := by rw [largestBet, h.ledger, Flat.ledger]
  have minRaise : t.minRaise = f.minRaise := by rw [Table.minRaise, h.ledger, Flat.ledger]
  have lacks := h.deficit_eq found
  rw [applyMove, due]
  simp only [lacks, largest, minRaise]
  cases m with
  | check =>
    have owes : f.lack seat ≠ 0 := by simpa [Flat.permits] using misfit
    exact Or.inl (if_pos (Nat.pos_of_ne_zero owes))
  | call | fold => cases misfit
  | bet n =>
    refine Or.inl (if_pos ?_)
    simp only [Flat.permits, Bool.and_eq_false_iff, Bool.or_eq_false_iff, decide_eq_false_iff_not]
      at misfit
    simp only [Bool.and_eq_true, Bool.or_eq_true, decide_eq_true_eq]
    lia
  | raise n =>
    by_cases large : chipLimit ≤ f.lack seat + n
    · exact Or.inr ⟨p, n, seat, rfl, due, lacks ▸ large⟩
    · left
      show (addChips (f.lack seat) n >>= _) = _
      rw [addChips_eq_ok_iff.2 ⟨rfl, Nat.lt_of_not_le large⟩]
      refine if_pos ?_
      simp only [Flat.permits, Bool.and_eq_false_iff, Bool.or_eq_false_iff,
        decide_eq_false_iff_not] at misfit
      simp only [Bool.and_eq_true, Bool.or_eq_true, decide_eq_true_eq]
      lia
  | allIn =>
    have broke : seat.stack = 0 := by simpa [Flat.permits] using misfit
    exact Or.inl (if_pos broke)

/-- Where chips and raises fit, an event is accepted or refused with a defect, unless it is a raise
that does not fit. -/
theorem Shows.within_apply (h : t.Shows f) (sound : f.Sound) (few : f.total < chipLimit)
    (counted : f.raises + 1 < countLimit) (e : Event) :
    Outcome.Within (fun failure => failure.IsDefect ∨ t.Overraises e) (fun _ => True)
      (t.apply e) := by
  have answers := h.answers sound
  have carries := Flat.pot_lt_of_total few
  have pot : t.previousPot + t.roundPot < chipLimit := by
    rwa [answers.previousPot, answers.roundPot]
  have refused : Outcome.Within (fun failure => failure.IsDefect ∨ t.Overraises e) (fun _ => True)
      (t.outOfPlace e : Outcome Table) :=
    (within_outOfPlace pot e).mono (fun _ => Or.inl) (fun _ => id)
  have illegal : ∀ cause, Outcome.Within (fun failure => failure.IsDefect ∨ t.Overraises e)
      (fun _ => True) (Outcome.illegal cause : Outcome Table) := fun cause =>
    Or.inl (Failure.isDefect_defect _)
  cases e with
  | move p m =>
    show Outcome.Within _ _ (t.applyMove p m)
    cases due : t.due p with
    | error failure =>
      rw [applyMove, due]
      exact Or.inl ((within_due t p).error due)
    | ok seat =>
      obtain ⟨_, own, rfl⟩ := (h.due_agrees p).exists_some due
      have found := (Flat.due?_eq_some_iff.1 own).1
      cases fits : f.permits seat m with
      | true =>
        have room := Flat.room_of_permits (Flat.mem_of_seat? found).1 fits few
        obtain ⟨f', applied⟩ := Flat.exists_applyMove own fits room counted
        obtain ⟨t', accepted, _⟩ := (h.applyMove_agrees sound p m).exists_ok applied
        exact Outcome.within_of_ok accepted trivial
      | false =>
        rcases h.applyMove_of_misfit due found fits with out | spills
        · rw [out]
          exact refused
        · cases t.applyMove p m with
          | ok _ => trivial
          | error _ => exact Or.inr spills
  | turn p =>
    show Outcome.Within _ _ (t.applyTurn p)
    unfold applyTurn
    split
    · exact Or.inl (Failure.isDefect_defect _)
    · split
      · trivial
      · exact refused
  | round street cards =>
    show Outcome.Within _ _ (t.applyRound street cards)
    unfold applyRound
    dsimp only
    split
    · exact refused
    split
    · exact illegal _
    split
    · exact refused
    · rw [answers.seats, h.ledger, h.dealer, h.bigBlind]
      show Outcome.Within _ _ (f.ledger.newRound street _ f.dealer f.bigBlind >>= _)
      rw [Flat.newRound_ledger sound, if_neg (Nat.not_le.2 carries)]
      trivial

/-- A raise that does not fit is a fault, whatever the rules say. -/
theorem Overraises.fault {e : Event} (spills : t.Overraises e) :
    t.apply e = .error (.fault .addOverflow) := by
  obtain ⟨p, n, seat, rfl, due, large⟩ := spills
  show t.applyMove p (.raise n) = _
  rw [applyMove, due]
  show (addChips (t.deficit p) n >>= _) = _
  rw [addChips_eq_fault large]
  rfl

/-! ## Actions -/

/-- Whether an action may be chosen is decided unless it is a raise that does not fit. -/
theorem isAllowed_eq_error_iff {failure : Failure} :
    t.isAllowed a = .error failure ↔ failure = .fault .addOverflow ∧ t.Overasks a := by
  constructor
  · intro failed
    unfold isAllowed at failed
    cases acts : t.actor? with
    | none =>
      rw [acts] at failed
      cases failed
    | some seat =>
      rw [acts] at failed
      cases a with
      | raise n =>
        dsimp only at failed
        by_cases opened : (0 < t.largestBet && t.mayRaise && t.minimum ≤ n) = true
        · rw [if_pos opened] at failed
          simp only [Bool.and_eq_true, decide_eq_true_eq] at opened
          by_cases large : chipLimit ≤ t.deficit seat.player + n
          · rw [addChips_eq_fault large] at failed
            cases failed
            exact ⟨rfl, n, seat, rfl, acts, opened.1.1, opened.1.2, opened.2, large⟩
          · rw [addChips_eq_ok_iff.2 ⟨rfl, Nat.lt_of_not_le large⟩] at failed
            cases failed
        · rw [if_neg opened] at failed
          cases failed
      | _ => cases failed
  · rintro ⟨rfl, n, seat, rfl, acts, bet, raises, least, large⟩
    have opened : (0 < t.largestBet && t.mayRaise && t.minimum ≤ n) = true := by
      simp [bet, raises, least]
    unfold isAllowed
    rw [acts]
    dsimp only
    rw [if_pos opened, addChips_eq_fault large]
    rfl

/-- Playing fails as the question whether the action is allowed does. -/
theorem play_of_undecided {failure : Failure} (due : t.nextToAct = some p)
    (failed : t.isAllowed a = .error failure) : t.play a = .error failure := by
  rw [play, due]
  show (t.isAllowed a >>= _) = _
  rw [failed]
  rfl

/-- Where chips and raises fit, playing faults exactly where it cannot be decided whether the action
may be chosen. -/
theorem Shows.play_eq_fault_iff {cause : Fault} (h : t.Shows f) (sound : f.Sound)
    (few : f.total < chipLimit) (counted : f.raises + 1 < countLimit) :
    t.play a = .error (.fault cause) ↔ t.isAllowed a = .error (.fault cause) := by
  have answers := h.answers sound
  cases due : t.nextToAct with
  | none =>
    rw [play, due, isAllowed, actor?_of_idle due]
    constructor
    · intro faulted
      cases faulted
    · intro faulted
      cases faulted
  | some p =>
    cases decision : t.isAllowed a with
    | error failure => rw [play_of_undecided due decision, Except.error.injEq, Except.error.injEq]
    | ok b =>
      have answered : ∀ cause, t.play a ≠ .error (.fault cause) := by
        cases b with
        | true =>
          have next : f.next = some p := answers.nextToAct.symm.trans due
          obtain ⟨t', played⟩ := h.exists_play sound next few counted decision
          simp [played]
        | false =>
          obtain ⟨text, written⟩ := h.text_eq sound (Flat.pot_lt_of_total few)
          simp [play_of_not_allowed due decision written, Outcome.illegal]
      exact iff_of_false (answered cause) (by simp)

/-- At every table of a run from an accepted snapshot at which the chips and the raises are far from
overflowing, whatever the amounts that events and actions name: an event faults exactly if it is a
raise by a player who may act, and with what is owed it is no amount of chips. Whether an action is
allowed is decided, and playing it does not fault, unless it is such a raise where raises are
open. -/
theorem faults_iff_raise_spills {s : Snapshot} {t₀ : Table} {events : List Event}
    (start : Table.ofSnapshot s = .ok t₀) (ran : t₀.run events = .ok t)
    (few : t.previousPot + t.roundPot + t.chipsBehind < 2 ^ 31) (counted : t.raises < 2 ^ 63) :
    (∀ e cause, t.apply e = .error (.fault cause) ↔ cause = .addOverflow ∧ t.Overraises e) ∧
      (∀ a failure, t.isAllowed a = .error failure ↔
        failure = .fault .addOverflow ∧ t.Overasks a) ∧
      ∀ a cause, t.play a = .error (.fault cause) ↔ cause = .addOverflow ∧ t.Overasks a := by
  obtain ⟨shows₀, sound₀⟩ := ofSnapshot_shows start
  obtain ⟨f, _, h, sound⟩ := (shows₀.run_agrees sound₀ events).exists_some ran
  have answers := h.answers sound
  have chips : f.total < chipLimit := by
    rw [answers.total_eq] at few
    rw [chipLimit_eq]
    lia
  have raises : f.raises + 1 < countLimit := by
    rw [answers.raises] at counted
    rw [countLimit_eq]
    lia
  refine ⟨fun e cause => ⟨fun faulted => ?_, ?_⟩, fun a failure => isAllowed_eq_error_iff,
    fun a cause => ?_⟩
  · rcases (h.within_apply sound chips raises e).error faulted with ⟨_, defect⟩ | spills
    · cases defect
    · rw [spills.fault] at faulted
      cases faulted
      exact ⟨rfl, spills⟩
  · rintro ⟨rfl, spills⟩
    exact spills.fault
  · rw [h.play_eq_fault_iff sound chips raises, isAllowed_eq_error_iff, Failure.fault.injEq]

/-- A call before the flop, then the largest raise there is: nothing is owed, so it is no fault. -/
theorem faults_iff_raise_spills_headsUp : ∃ t₀ t, Table.ofSnapshot (.headsUp 5) = .ok t₀ ∧
    t₀.run [.move ⟨0⟩ .call, .turn ⟨1⟩] = .ok t ∧ t.deficit ⟨1⟩ = 0 ∧
    ∀ cause, t.apply (.move ⟨1⟩ (.raise (2 ^ 32 - 1))) ≠ .error (.fault cause) := by
  have dealt : ∃ t₀ t, Table.ofSnapshot (.headsUp 5) = .ok t₀ ∧
      t₀.run [.move ⟨0⟩ .call, .turn ⟨1⟩] = .ok t ∧ t.deficit ⟨1⟩ = 0 ∧
      t.previousPot + t.roundPot + t.chipsBehind < 2 ^ 31 ∧ t.raises < 2 ^ 63 :=
    ⟨_, _, rfl, rfl, rfl, by decide, by decide⟩
  obtain ⟨t₀, t, start, ran, owes, few, counted⟩ := dealt
  refine ⟨t₀, t, start, ran, owes, fun cause faulted => ?_⟩
  obtain ⟨events, -, -⟩ := faults_iff_raise_spills start ran few counted
  obtain ⟨-, p, n, seat, same, -, large⟩ := (events _ cause).1 faulted
  obtain ⟨rfl, move⟩ := Event.move.inj same
  obtain rfl := Move.raise.inj move
  rw [owes, chipLimit_eq] at large
  exact absurd large (by decide)

/-- The same raise by a player who owes a chip is a fault, in whatever way it is asked for. -/
theorem largest_raise_faults : ∃ t, Table.ofSnapshot (.headsUp 5) = .ok t ∧ t.run [] = .ok t ∧
    t.previousPot + t.roundPot + t.chipsBehind = 25 ∧ t.raises = 0 ∧
    t.apply (.move ⟨0⟩ (.raise (2 ^ 32 - 1))) = .error (.fault .addOverflow) ∧
    t.isAllowed (.raise (2 ^ 32 - 1)) = .error (.fault .addOverflow) ∧
    t.play (.raise (2 ^ 32 - 1)) = .error (.fault .addOverflow) := by
  have dealt : ∃ t seat, Table.ofSnapshot (.headsUp 5) = .ok t ∧ t.run [] = .ok t ∧
      t.previousPot + t.roundPot + t.chipsBehind = 25 ∧ t.raises = 0 ∧ t.nextToAct = some ⟨0⟩ ∧
      t.due ⟨0⟩ = .ok seat ∧ t.actor? = some seat ∧ seat.player = ⟨0⟩ ∧ 0 < t.largestBet ∧
      t.mayRaise = true ∧ t.minimum = 2 ∧ t.deficit ⟨0⟩ = 1 :=
    ⟨_, _, rfl, rfl, rfl, rfl, rfl, rfl, rfl, rfl, by decide, rfl, by decide, rfl⟩
  obtain ⟨t, seat, start, ran, chips, raises, due, mayAct, acts, own, bet, opened, least, owes⟩ :=
    dealt
  have large : chipLimit ≤ t.deficit ⟨0⟩ + (2 ^ 32 - 1) := by
    rw [owes, chipLimit_eq]
    decide
  have moves : t.Overraises (.move ⟨0⟩ (.raise (2 ^ 32 - 1))) := ⟨_, _, seat, rfl, mayAct, large⟩
  have asks : t.Overasks (.raise (2 ^ 32 - 1)) :=
    ⟨_, seat, rfl, acts, bet, opened, by rw [least]; decide, own ▸ large⟩
  have decision := isAllowed_eq_error_iff.2 ⟨rfl, asks⟩
  exact ⟨t, start, ran, chips, raises, moves.fault, decision, play_of_undecided due decision⟩

end Table

end Holdem
