import Holdem.Proofs.Betting.Listing
import Holdem.Proofs.Table.Faults

/-!
# The legal actions

The list of the legal actions has the smallest bet or raise for all of them. So it tells which
actions may be chosen: those that are listed, and the bets or raises above a listed one that leave
chips behind. The list is written down apart from the question whether a single action is allowed,
and both apart from what the table accepts as a move.
-/

set_option autoImplicit false

namespace Holdem

/-- Whether a list of legal actions stands for an action, given what its player lacks and has: it is
listed, or it is at least a listed bet or raise and leaves chips behind. -/
def Action.IsCoveredBy (a : Action) (actions : List Action) (deficit stack : Chips) : Prop :=
  a ∈ actions ∨
    (∃ m n, .bet m ∈ actions ∧ a = .bet n ∧ m ≤ n ∧ n < stack) ∨
    (∃ m n, .raise m ∈ actions ∧ a = .raise n ∧ m ≤ n ∧ deficit + n < stack)

namespace Table

variable {t : Table} {f : Flat} {seat : Seat} {sizes : List Chips} {opened : Bool} {a : Action}

/-! ## The list -/

/-- The smallest size, where raises are open and it leaves chips behind. -/
def leastSizes (t : Table) (seat : Seat) : List Chips :=
  if t.mayRaise && t.deficit seat.player + t.minimum < seat.stack then [t.minimum] else []

/-- The smallest bet or raise is legal where raising is, as long as it leaves chips behind. -/
theorem mem_leastSizes_iff {n : Chips} : n ∈ t.leastSizes seat ↔
    n = t.minimum ∧ t.mayRaise = true ∧ t.deficit seat.player + t.minimum < seat.stack := by
  simp only [leastSizes, List.mem_ite_nil_right, Bool.and_eq_true, decide_eq_true_eq,
    List.mem_singleton, and_comm (b := n = t.minimum)]

/-- There is at most one smallest amount, so the amounts increase. -/
theorem pairwise_leastSizes : (t.leastSizes seat).Pairwise (· < ·) := by
  unfold leastSizes
  split
  · exact List.pairwise_singleton _ _
  · exact .nil

/-- The legal actions are the listing of the smallest size. -/
theorem legal_eq (acts : t.actor? = some seat)
    (fits : t.mayRaise = true → t.deficit seat.player + t.minimum < chipLimit) :
    t.legal = .ok (t.listing seat (t.leastSizes seat) t.mayRaise) := by
  unfold legal listing
  rw [acts, singleton_quiet]
  cases may : t.mayRaise with
  | false =>
    rw [leastSizes, may]
    rfl
  | true =>
    show (if t.largestBet = 0 then _ else _) = _
    by_cases first : t.largestBet = 0
    · have sized : (t.leastSizes seat).map t.betOrRaise =
          if t.minimum < seat.stack then [.bet t.minimum] else [] := by
        simp [leastSizes, may, deficit_eq_zero first, apply_ite, betOrRaise, first]
      rw [if_pos first, sized]
      rfl
    · have sized : (t.leastSizes seat).map t.betOrRaise =
          if t.deficit seat.player + t.minimum < seat.stack then [.raise t.minimum] else [] := by
        simp [leastSizes, may, apply_ite, betOrRaise, first]
      rw [if_neg first, sized, addChips_eq_ok_iff.2 ⟨rfl, fits may⟩]
      rfl

/-! ## What the list stands for -/

/-- The listing of the smallest size stands for the actions that may be chosen. -/
theorem isAllowed_iff_covered (acts : t.actor? = some seat)
    (fits : ∀ n, a.size? = some n → t.deficit seat.player + n < chipLimit) :
    t.isAllowed a = .ok true ↔ a.IsCoveredBy (t.listing seat (t.leastSizes seat) t.mayRaise)
      (t.deficit seat.player) seat.stack := by
  rw [isAllowed_iff acts fits]
  constructor
  · rintro (listed | ⟨n, rfl, may, least, leaves⟩)
    · exact .inl (mem_listing_iff_sized.2 (.inl listed))
    · have among : t.minimum ∈ t.leastSizes seat := mem_leastSizes_iff.2 ⟨rfl, may, by lia⟩
      right
      by_cases first : t.largestBet = 0
      · exact .inl ⟨t.minimum, n, bet_mem_listing_iff.2 ⟨first, among⟩, if_pos first, least, by lia⟩
      · exact .inr ⟨t.minimum, n, raise_mem_listing_iff.2 ⟨first, among⟩, if_neg first, least,
          leaves⟩
  · rintro (listed | ⟨m, n, listed, rfl, least, leaves⟩ | ⟨m, n, listed, rfl, least, leaves⟩)
    · refine (mem_listing_iff_sized.1 listed).imp_right ?_
      rintro ⟨n, among, rfl⟩
      obtain ⟨rfl, may, leaves⟩ := mem_leastSizes_iff.1 among
      exact ⟨_, rfl, may, Nat.le_refl _, leaves⟩
    · obtain ⟨first, among⟩ := bet_mem_listing_iff.1 listed
      obtain ⟨rfl, may, -⟩ := mem_leastSizes_iff.1 among
      refine .inr ⟨n, (if_pos first).symm, may, least, ?_⟩
      rwa [deficit_eq_zero first, Nat.zero_add]
    · obtain ⟨bet, among⟩ := raise_mem_listing_iff.1 listed
      obtain ⟨rfl, may, -⟩ := mem_leastSizes_iff.1 among
      exact .inr ⟨n, (if_neg bet).symm, may, least, leaves⟩

/-! ## Whole tables -/

/-- A player who may raise lacks less than the stack. -/
theorem deficit_lt_of_mayRaise (acts : t.actor? = some seat) (may : t.mayRaise = true) :
    t.deficit seat.player < seat.stack := by
  rw [mayRaise, acts, Option.any_some, mayRaiseFrom, Bool.and_eq_true] at may
  exact of_decide_eq_true may.1

/-- What a list of actions tells about a table: whether somebody is due, and which actions may be
chosen. -/
structure Tells (t : Table) (actions : List Action) : Prop where
  empty : actions = [] ↔ t.nextToAct = none
  nodup : actions.Nodup
  passive : ∀ p, t.nextToAct = some p → t.passive ∈ actions
  /-- As long as an amount fits beside what is lacking, the list stands for what is allowed. -/
  covers : ∀ a, t.toCall + a.amount < chipLimit → ∃ allowed, t.isAllowed a = .ok allowed ∧
    (allowed = true ↔ ∃ seat, t.actor? = some seat ∧
      a.IsCoveredBy actions (t.deficit seat.player) seat.stack)
  accepted : ∀ a, t.isAllowed a = .ok true →
    ∃ p u, t.nextToAct = some p ∧ t.apply (a.event p) = .ok u

/-- Where nobody is due there are no legal actions. -/
theorem tells_of_idle (idle : t.nextToAct = none) : t.Tells [] where
  empty := iff_of_true rfl idle
  nodup := .nil
  passive := fun p due => by cases idle.symm.trans due
  covers := by
    intro a _
    refine ⟨false, by rw [isAllowed, actor?_of_idle idle]; rfl, ?_⟩
    rw [actor?_of_idle idle]
    simp
  accepted := by
    intro a allowed
    rw [isAllowed, actor?_of_idle idle] at allowed
    cases allowed

/-- The legal actions of a shown table tell which actions are allowed. -/
theorem Shows.tells (h : t.Shows f) (sound : f.Sound) (few : f.total < chipLimit)
    (counted : f.raises + 1 < countLimit) (acts : t.actor? = some seat)
    (due : t.nextToAct = some seat.player) :
    t.Tells (t.listing seat (t.leastSizes seat) t.mayRaise) where
  empty := iff_of_false listing_ne_nil (by simp [due])
  nodup := Action.nodup_of_preferredTo (pairwise_listing pairwise_leastSizes)
  passive := fun _ _ => passive_mem_listing due
  covers := by
    intro a fits
    rw [toCall_eq due] at fits
    cases decision : t.isAllowed a with
    | error failure =>
      obtain ⟨-, n, seat', rfl, acts', -, -, -, large⟩ := isAllowed_eq_error_iff.1 decision
      obtain rfl := Option.some.inj (acts.symm.trans acts')
      exact absurd fits (Nat.not_lt.2 large)
    | ok allowed =>
      refine ⟨allowed, rfl, ?_⟩
      have covered := isAllowed_iff_covered acts (fun n sized =>
        Action.amount_of_size? sized ▸ fits)
      rw [decision, Except.ok.injEq] at covered
      simpa [acts] using covered
  accepted := by
    intro a allowed
    have next : f.next = some seat.player := (h.answers sound).nextToAct.symm.trans due
    obtain ⟨u, played⟩ := h.exists_play sound next few counted allowed
    obtain ⟨p, moved, due', -, accepted, -⟩ := play_eq_ok.1 played
    exact ⟨p, moved, due', accepted⟩

/-- At every table of a run from an accepted snapshot at which the chips and the raises fit, and the
smallest raise fits beside what is lacking, the legal actions are listed, and the list tells which
actions may be chosen. It is empty exactly if nobody is due; otherwise checking or folding is in it,
and nothing twice. What may be chosen is accepted as a move. -/
theorem legal_tells {s : Snapshot} {t₀ : Table} {events : List Event}
    (start : Table.ofSnapshot s = .ok t₀) (ran : t₀.run events = .ok t)
    (few : t.previousPot + t.roundPot + t.chipsBehind < 2 ^ 32) (counted : t.raises < 2 ^ 63)
    (least : t.toCall + t.minRaise < 2 ^ 32) :
    ∃ actions, t.legal = .ok actions ∧ t.Tells actions := by
  obtain ⟨f, -, h, sound⟩ := exists_flat_of_run start ran
  have answers := h.answers sound
  rw [answers.total_eq] at few
  rw [answers.raises] at counted
  cases due : t.nextToAct with
  | none => exact ⟨[], by rw [legal, actor?_of_idle due]; rfl, tells_of_idle due⟩
  | some p =>
    have next : f.next = some p := answers.nextToAct.symm.trans due
    obtain ⟨seat, found, _⟩ := sound.next_actionable p next
    obtain ⟨mem, rfl⟩ := Flat.mem_of_seat? found
    have acts := h.actor_eq sound next found
    have stack : seat.stack ≤ f.behind := List.le_sum_of_mem (List.mem_map_of_mem mem)
    rw [toCall_eq due] at least
    refine ⟨_, legal_eq acts (fun may => ?_), h.tells sound few ?_ acts due⟩
    · -- a smallest raise of nothing is lifted to one chip, which the stack has beside
      -- what is lacking
      have short := deficit_lt_of_mayRaise acts may
      unfold Flat.total at few
      rw [Table.minimum, chipLimit_eq]
      lia
    · rw [countLimit_eq]
      lia

/-- At the start one chip is lacking and eight are behind it: the list stands for a raise that
leaves one chip, and for none that leaves nothing. -/
theorem legal_tells_headsUp : ∃ t, Table.ofSnapshot (.headsUp 5) = .ok t ∧ t.run [] = .ok t ∧
    t.legal = .ok [.fold, .call 1, .raise 2, .shove 9] ∧
    t.Tells [.fold, .call 1, .raise 2, .shove 9] ∧
    t.isAllowed (.raise 7) = .ok true ∧ t.isAllowed (.raise 8) = .ok false := by
  have dealt : ∃ t, Table.ofSnapshot (.headsUp 5) = .ok t ∧ t.run [] = .ok t ∧
      t.previousPot + t.roundPot + t.chipsBehind < 2 ^ 32 ∧ t.raises < 2 ^ 63 ∧
      t.toCall + t.minRaise < 2 ^ 32 ∧ t.legal = .ok [.fold, .call 1, .raise 2, .shove 9] ∧
      t.isAllowed (.raise 7) = .ok true ∧ t.isAllowed (.raise 8) = .ok false :=
    ⟨_, rfl, rfl, by decide, by decide, by decide, rfl, rfl, rfl⟩
  obtain ⟨t, start, ran, few, counted, least, listed, below, above⟩ := dealt
  obtain ⟨actions, legal, tells⟩ := legal_tells start ran few counted least
  obtain rfl := Except.ok.inj (listed.symm.trans legal)
  exact ⟨t, start, ran, listed, tells, below, above⟩

end Table

end Holdem
