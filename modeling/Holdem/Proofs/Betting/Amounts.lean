import Holdem.Proofs.Betting.Candidates
import Holdem.Proofs.Table.Flattening
import Holdem.Proofs.Table.Overflow
import Holdem.Proofs.Table.Plays

/-!
# Amounts that fit

The check of a snapshot looks at seats and cards and leaves the amounts alone. So the stakes of a
snapshot that passes it need not add up to an amount of chips, nor need the pots of the table that
it starts, nor what is owed and the smallest raise. It is said for each of these sums what asks for
it and so overflows. Where all chips, the big blind and the smallest raise are modest, nothing does.
-/

set_option autoImplicit false

namespace Holdem

/-- A fraction of at most four is at most four times the pot. -/
theorem PotFraction.of_le {f : PotFraction} (size : f.numer ≤ 4 * f.denom) (pot : Chips) :
    f.of pot ≤ 4 * pot := by
  refine (Nat.mod_le _ _).trans (Nat.div_le_of_le_mul ?_)
  calc pot * f.numer ≤ pot * (4 * max f.denom 1) :=
        Nat.mul_le_mul_left pot (size.trans (Nat.mul_le_mul_left 4 (Nat.le_max_left _ _)))
    _ = max f.denom 1 * (4 * pot) := by ring

/-- None of the usual sizes is more than four times the pot. -/
theorem PotFraction.usual_le : ∀ size ∈ usual, size.numer ≤ 4 * size.denom := by decide

/-- Adding up amounts can only overflow. -/
theorem Outcome.within_sumChips (amounts : List Chips) :
    Within (· = .fault .addOverflow) (fun _ => True) (sumChips amounts) := by
  have all : ∀ start, Within (· = .fault .addOverflow) (fun _ => True)
      (amounts.foldlM addChips start) := by
    induction amounts with
    | nil => exact fun _ => trivial
    | cons a amounts ih =>
      intro start
      rw [List.foldlM_cons]
      exact ((within_addChips start a).mono (fun _ => And.left) (fun _ => id)).bind
        (fun sum _ => ih sum)
  exact all 0

namespace Table

variable {t u : Table} {f : Flat} {s : Snapshot}

/-! ## The start -/

/-- Starting from a snapshot faults exactly if it passes its check and its stakes do not add up to
an amount of chips. -/
theorem ofSnapshot_eq_fault_iff {cause : Fault} : Table.ofSnapshot s = .error (.fault cause) ↔
    cause = .addOverflow ∧ s.check = .ok () ∧ chipLimit ≤ (s.seats.map Seat.stake).sum := by
  cases checked : s.check with
  | error e =>
    have refused : Table.ofSnapshot s = .error (.refusal (.seating e)) := by
      rw [Table.ofSnapshot, checked]
      rfl
    simp [refused]
  | ok _ =>
    have only : Outcome.Within (· = .fault .addOverflow) (fun _ => True) (Table.ofSnapshot s) := by
      have opens : Outcome.Within (· = .fault .addOverflow) (fun _ => True)
          (Ledger.ofSnapshot s) := (Outcome.within_sumChips _).bind (fun _ _ => trivial)
      rw [Table.ofSnapshot, checked]
      exact opens.bind (fun _ _ => trivial)
    have starts : (∃ t, Table.ofSnapshot s = .ok t) ↔ (s.seats.map Seat.stake).sum < chipLimit := by
      rw [exists_ofSnapshot_iff, checked]
      exact and_iff_right rfl
    constructor
    · intro faulted
      have same := only.error faulted
      refine ⟨Failure.fault.inj same, rfl, Nat.le_of_not_lt (fun fits => ?_)⟩
      obtain ⟨t, start⟩ := starts.2 fits
      rw [start] at faulted
      cases faulted
    · rintro ⟨rfl, -, large⟩
      cases ended : Table.ofSnapshot s with
      | ok t => exact absurd (starts.1 ⟨t, ended⟩) (Nat.not_lt.2 large)
      | error e => rw [only.error ended]

/-! ## What is asked of a table -/

/-- Adding up the pot fails exactly where the chips of earlier rounds and of this one do not fit
together. -/
theorem pot_eq_error_iff {failure : Failure} : t.pot = .error failure ↔
    failure = .fault .addOverflow ∧ chipLimit ≤ t.previousPot + t.roundPot := by
  unfold pot addChips
  split
  · simp [*]
  · simp [Nat.le_of_not_lt ‹_›, eq_comm]

/-- The legal actions cannot be listed exactly if the smallest raise with what is owed does not
fit. -/
theorem legal_eq_error_iff {failure : Failure} : t.legal = .error failure ↔
    failure = .fault .addOverflow ∧ ∃ seat, t.actor? = some seat ∧ t.mayRaise = true ∧
      t.largestBet ≠ 0 ∧ chipLimit ≤ t.deficit seat.player + t.minimum := by
  unfold legal
  cases t.actor? with
  | none => simp [pure, Except.pure]
  | some seat =>
    cases t.mayRaise with
    | false => simp [pure, Except.pure, bind, Except.bind]
    | true =>
      by_cases bet : t.largestBet = 0
      · simp [bet, pure, Except.pure, bind, Except.bind]
      · by_cases large : chipLimit ≤ t.deficit seat.player + t.minimum
        · simp [bet, large, addChips_eq_fault large, bind, Except.bind, eq_comm]
        · have sum := addChips_eq_ok_iff.2 ⟨rfl, Nat.lt_of_not_le large⟩
          simp [bet, large, sum, pure, Except.pure, bind, Except.bind]

end Table

/-- Sizes of at most four times the pot fit where four times the pot does. -/
theorem Sizing.fits_of_le {sizing : Sizing} {t : Table} {p : Player}
    (sizes : ∀ size ∈ sizing.grid, size.numer ≤ 4 * size.denom)
    (room : t.deficit p + max (4 * (t.previousPot + t.roundPot + t.deficit p)) t.minimum <
      chipLimit) : sizing.Fits t p := by
  intro _
  refine ⟨by lia, fun size mem => ?_⟩
  have amount := PotFraction.of_le (sizes size mem) (t.previousPot + t.roundPot + t.deficit p)
  have larger := max_le_max_right t.minimum amount
  lia

namespace Table

variable {t u : Table} {f : Flat} {s : Snapshot}

/-! ## Modest tables -/

/-- Where all chips and the smallest raise are modest, so are the amounts that sizes are made of. -/
theorem Shows.modest_amounts (h : t.Shows f) (sound : f.Sound)
    (chips : f.total ≤ 2 ^ 28) (least : f.minRaise ≤ 2 ^ 28) (p : Player) :
    t.previousPot + t.roundPot + t.deficit p ≤ 2 ^ 29 ∧ t.minimum ≤ 2 ^ 28 ∧
      t.deficit p ≤ 2 ^ 28 := by
  have answers := h.answers sound
  have lacks := t.deficit_le p
  have largest := sound.largest_le
  rw [answers.largestBet] at lacks
  unfold Flat.total at chips
  refine ⟨?_, ?_, by lia⟩
  · rw [answers.previousPot, answers.roundPot]
    lia
  · rw [Table.minimum, answers.minRaise]
    exact max_le least (by norm_num)

/-- There all sizes fit that are not large. -/
theorem Shows.fits (h : t.Shows f) (sound : f.Sound) {sizing : Sizing}
    (sizes : ∀ size ∈ sizing.grid, size.numer ≤ 4 * size.denom) (chips : f.total ≤ 2 ^ 28)
    (least : f.minRaise ≤ 2 ^ 28) (p : Player) : sizing.Fits t p := by
  obtain ⟨pot, minimum, owes⟩ := h.modest_amounts sound chips least p
  apply Sizing.fits_of_le sizes
  have larger : max (4 * (t.previousPot + t.roundPot + t.deficit p)) t.minimum ≤ 2 ^ 31 :=
    max_le (by lia) (by lia)
  rw [chipLimit_eq]
  lia

/-- Along a hand with modest chips the smallest raise stays modest, and there are few raises. -/
theorem Shows.modest_of_leadsTo (h : t.Shows f) (sound : f.Sound)
    (leads : t.LeadsTo u) (chips : f.total ≤ 2 ^ 28) (blind : f.bigBlind ≤ 2 ^ 28)
    (least : f.minRaise ≤ 2 ^ 28) (raises : f.raises < 2 ^ 63) :
    ∃ g, u.Shows g ∧ g.Sound ∧ g.total ≤ 2 ^ 28 ∧ g.minRaise ≤ 2 ^ 28 ∧
      g.raises + 1 < countLimit := by
  obtain ⟨events, g, ran, _, shown, sound'⟩ := h.leadsTo sound leads
  have total := Flat.total_run sound ran
  have counted := Flat.raises_run sound ran
  refine ⟨g, shown, sound', total ▸ chips, Flat.minRaise_run sound ran chips blind least, ?_⟩
  rw [← total] at chips
  unfold Flat.total at chips
  rw [countLimit_eq]
  lia

/-- The same for a hand that is played from an accepted snapshot. -/
theorem modest_of_leadsTo {s : Snapshot} (start : Table.ofSnapshot s = .ok t)
    (leads : t.LeadsTo u) (chips : (Flat.ofSnapshot s).total ≤ 2 ^ 28) (blind : s.bigBlind ≤ 2 ^ 28)
    (least : ∀ n ∈ s.minRaise, n ≤ 2 ^ 28) (raises : s.raises < 2 ^ 63) :
    ∃ g, u.Shows g ∧ g.Sound ∧ g.total ≤ 2 ^ 28 ∧ g.minRaise ≤ 2 ^ 28 ∧
      g.raises + 1 < countLimit := by
  obtain ⟨shows₀, sound₀⟩ := ofSnapshot_shows start
  refine shows₀.modest_of_leadsTo sound₀ leads chips blind ?_ raises
  show s.minRaise.getD (max (s.topStakes.1 - s.topStakes.2) s.bigBlind) ≤ 2 ^ 28
  cases given : s.minRaise with
  | some n => exact least n given
  | none =>
    have largest : s.topStakes.1 ≤ (Flat.ofSnapshot s).staked := sound₀.largest_le
    unfold Flat.total at chips
    exact max_le (by lia) blind

/-! ## What amounts decide -/

/-- What of a table overflows, and where. -/
structure Amounts (t : Table) : Prop where
  pot : ∀ failure, t.pot = .error failure ↔
    failure = .fault .addOverflow ∧ chipLimit ≤ t.previousPot + t.roundPot
  /-- The legal actions overflow where the smallest raise with what is owed does. -/
  legal : ∀ failure, t.legal = .error failure ↔
    failure = .fault .addOverflow ∧ ∃ seat, t.actor? = some seat ∧ t.mayRaise = true ∧
      t.largestBet ≠ 0 ∧ chipLimit ≤ t.deficit seat.player + t.minimum
  /-- The candidates of the usual sizes overflow where the pot after a call or the smallest bet
  does, if bets are open, and not where four times that pot fits. -/
  candidates : ∀ (sizing : Sizing) (seat : Seat), sizing.grid = PotFraction.usual →
    t.actor? = some seat →
      (t.deficit seat.player +
          max (4 * (t.previousPot + t.roundPot + t.deficit seat.player)) t.minimum < chipLimit →
        ∃ choices, sizing.candidates t = .ok choices) ∧
      (sizing.isOpen t = true →
        chipLimit ≤ t.previousPot + t.roundPot + t.deficit seat.player ∨
          chipLimit ≤ t.deficit seat.player + t.minimum →
        sizing.candidates t = .error (.fault .addOverflow))
  /-- An action that is allowed is played unless the chips or the raises of the table overflow. -/
  play : ∀ a failure, t.isAllowed a = .ok true → t.play a = .error failure →
    failure = .fault .addOverflow ∧
      (chipLimit ≤ t.previousPot + t.roundPot + t.chipsBehind ∨ countLimit ≤ t.raises + 1)

/-- Nothing of a table overflows. -/
structure Safe (t : Table) : Prop where
  pot : ∃ n, t.pot = .ok n
  legal : ∃ actions, t.legal = .ok actions
  candidates : ∀ sizing : Sizing, sizing.grid = PotFraction.usual →
    ∃ choices, sizing.candidates t = .ok choices
  play : ∀ a, t.isAllowed a = .ok true → ∃ u, t.play a = .ok u

/-- Candidates overflow if the pot after a call or the smallest bet does. -/
theorem candidates_eq_fault {sizing : Sizing} {seat : Seat}
    (usual : sizing.grid = PotFraction.usual) (acts : t.actor? = some seat)
    (opened : sizing.isOpen t = true)
    (large : chipLimit ≤ t.previousPot + t.roundPot + t.deficit seat.player ∨
      chipLimit ≤ t.deficit seat.player + t.minimum) :
    sizing.candidates t = .error (.fault .addOverflow) := by
  have misfit : ¬ sizing.Fits t seat.player := by
    intro fits
    obtain ⟨pot, sizes⟩ := fits opened
    have size := sizes ⟨1, 1⟩ (by rw [usual]; decide)
    have least := Nat.le_max_right
      ((⟨1, 1⟩ : PotFraction).of (t.previousPot + t.roundPot + t.deficit seat.player)) t.minimum
    lia
  cases listed : sizing.candidates t with
  | ok choices => exact absurd ((Sizing.exists_candidates_iff acts).1 ⟨choices, listed⟩) misfit
  | error failure =>
    obtain ⟨rfl, _⟩ := Sizing.candidates_eq_error acts listed
    rfl

/-- Only somebody who is due may choose. -/
theorem due_of_isAllowed {a : Action} (allowed : t.isAllowed a = .ok true) :
    ∃ p, t.nextToAct = some p := by
  cases due : t.nextToAct with
  | some p => exact ⟨p, rfl⟩
  | none =>
    rw [isAllowed, actor?_of_idle due] at allowed
    cases allowed

/-- The amounts of a shown table stay within its chips. -/
theorem Shows.amounts (h : t.Shows f) (sound : f.Sound) : t.Amounts where
  pot := fun _ => pot_eq_error_iff
  legal := fun _ => legal_eq_error_iff
  candidates := by
    intro sizing seat usual acts
    refine ⟨fun room => ?_, candidates_eq_fault usual acts⟩
    refine (Sizing.exists_candidates_iff acts).2 (Sizing.fits_of_le ?_ room)
    rw [usual]
    exact PotFraction.usual_le
  play := by
    intro a failure allowed failed
    have answers := h.answers sound
    obtain ⟨p, due⟩ := due_of_isAllowed allowed
    have next : f.next = some p := answers.nextToAct.symm.trans due
    rw [answers.total_eq, answers.raises]
    exact (h.within_play sound next allowed).error failed

/-- Nothing overflows where no amount that decides it is large. -/
theorem Amounts.safe (amounts : t.Amounts)
    (chips : t.previousPot + t.roundPot + t.chipsBehind ≤ 2 ^ 28)
    (owes : ∀ p, t.deficit p ≤ 2 ^ 28) (least : t.minimum ≤ 2 ^ 28)
    (raises : t.raises + 1 < countLimit) : t.Safe where
  pot := by
    cases ended : t.pot with
    | ok n => exact ⟨n, rfl⟩
    | error failure =>
      obtain ⟨-, large⟩ := (amounts.pot failure).1 ended
      rw [chipLimit_eq] at large
      lia
  legal := by
    cases ended : t.legal with
    | ok actions => exact ⟨actions, rfl⟩
    | error failure =>
      obtain ⟨-, seat, -, -, -, large⟩ := (amounts.legal failure).1 ended
      have lacks := owes seat.player
      rw [chipLimit_eq] at large
      lia
  candidates := by
    intro sizing usual
    cases acts : t.actor? with
    | none => exact ⟨[], Sizing.candidates_of_idle acts⟩
    | some seat =>
      apply (amounts.candidates sizing seat usual acts).1
      have lacks := owes seat.player
      have larger : max (4 * (t.previousPot + t.roundPot + t.deficit seat.player)) t.minimum ≤
          2 ^ 31 := max_le (by lia) (by lia)
      rw [chipLimit_eq]
      lia
  play := by
    intro a allowed
    cases ended : t.play a with
    | ok u => exact ⟨u, rfl⟩
    | error failure =>
      obtain ⟨-, large | many⟩ := amounts.play a failure allowed ended
      · rw [chipLimit_eq] at large
        lia
      · lia

/-- A snapshot that passes its check starts a table unless its stakes do not add up to an amount of
chips. What overflows at the tables that play leads to is decided by their amounts alone; and where
all chips, the big blind and the smallest raise of the snapshot are modest and its raises are few,
nothing ever does. -/
theorem overflow_iff_amounts (s : Snapshot) :
    (∀ cause, Table.ofSnapshot s = .error (.fault cause) ↔
      cause = .addOverflow ∧ s.check = .ok () ∧ chipLimit ≤ (s.seats.map Seat.stake).sum) ∧
    ∀ t₀ actions t, Table.ofSnapshot s = .ok t₀ → t₀.playAll actions = .ok t → t.Amounts ∧
      (s.pot + (s.seats.map Seat.stake).sum + (s.seats.map Seat.stack).sum ≤ 2 ^ 28 →
        s.bigBlind ≤ 2 ^ 28 → (∀ n ∈ s.minRaise, n ≤ 2 ^ 28) → s.raises < 2 ^ 63 → t.Safe) := by
  refine ⟨fun cause => ofSnapshot_eq_fault_iff, fun t₀ actions t start played => ?_⟩
  have leads : t₀.LeadsTo t := ⟨actions, played⟩
  obtain ⟨shows₀, sound₀⟩ := ofSnapshot_shows start
  obtain ⟨events, f, _, _, h, sound⟩ := shows₀.leadsTo sound₀ leads
  refine ⟨h.amounts sound, fun chips blind least raises => ?_⟩
  obtain ⟨g, shown, sound', few, small, counted⟩ := modest_of_leadsTo start leads chips blind least
    raises
  have answers := shown.answers sound'
  have modest := shown.modest_amounts sound' few small
  exact (h.amounts sound).safe (answers.total_eq ▸ few) (fun p => (modest p).2.2)
    (modest ⟨0⟩).2.1 (answers.raises ▸ counted)

/-- The blinds are posted and the first player raises: everything about the table is an amount. -/
theorem overflow_iff_amounts_headsUp : ∃ t₀ t, Table.ofSnapshot (.headsUp 5) = .ok t₀ ∧
    t₀.playAll [.raise 2] = .ok t ∧ t.Safe := by
  have dealt : ∃ t₀ t, Table.ofSnapshot (.headsUp 5) = .ok t₀ ∧
      t₀.playAll [.raise 2] = .ok t := ⟨_, _, rfl, rfl⟩
  obtain ⟨t₀, t, start, played⟩ := dealt
  exact ⟨t₀, t, start, played, ((overflow_iff_amounts _).2 t₀ _ t start played).2 (by decide)
    (by decide) (by decide) (by decide)⟩

/-- Two players whose stakes add up to one more than the largest amount of chips. -/
theorem stakes_overflow : ∃ s : Snapshot, s.seats.map Seat.stake = [2 ^ 32 - 1, 1] ∧
    s.check = .ok () ∧ Table.ofSnapshot s = .error (.fault .addOverflow) :=
  ⟨{ seats := [
      { player := ⟨0⟩, stack := 1, stake := 2 ^ 32 - 1 },
      { player := ⟨1⟩, stack := 1, stake := 1 }] }, rfl, rfl, rfl⟩

end Table

end Holdem
