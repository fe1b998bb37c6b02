import Holdem.Proofs.Betting.Listing
import Holdem.Proofs.Betting.Sizes

/-!
# The candidate actions

When the candidates of a search can be listed, and when there is one among them besides the fold.
The list fails only where a size of the grid or the pot behind it is no amount of chips. A player
who owes nothing can check, and one who has chips can call or go all in; a player who owes chips and
has none can only fold. Every candidate is a legal action, and they are listed in the order in which
a decision prefers them, so none is listed twice.
-/

set_option autoImplicit false

namespace Holdem

namespace Sizing

variable {s : Sizing} {t : Table} {seat : Seat} {a : Action} {actions : List Action}

/-- Whether bets and raises are candidates. -/
def isOpen (s : Sizing) (t : Table) : Bool := t.mayRaise && t.raises < s.maxRaises

/-- The sizes of the grid are amounts of chips beside what is owed, and so is the pot they are taken
of. -/
def Fits (s : Sizing) (t : Table) (p : Player) : Prop :=
  s.isOpen t = true → t.previousPot + t.roundPot + t.deficit p < chipLimit ∧
    ∀ f ∈ s.grid, t.deficit p +
      max (f.of (t.previousPot + t.roundPot + t.deficit p)) t.minimum < chipLimit

/-- The bets or raises among the candidates. -/
def larger (s : Sizing) (t : Table) (seat : Seat) : Outcome (List Action) := do
  if s.isOpen t then
    let pot ← addChips (← t.pot) (t.deficit seat.player)
    let sizes ← s.sizes pot t.minimum (t.deficit seat.player) seat.stack
    pure (sizes.map (fun n => if t.largestBet = 0 then .bet n else .raise n))
  else pure []

/-- What the fractions of the pot after a call come to as amounts of chips: at least the minimum, as
far as it leaves chips behind. -/
def cutSizes (s : Sizing) (t : Table) (seat : Seat) : Finset Chips :=
  s.amounts (·.of (t.previousPot + t.roundPot + t.deficit seat.player)) t.minimum
    (t.deficit seat.player) seat.stack

/-- The amounts of the bets or raises among the candidates. -/
def offered (s : Sizing) (t : Table) (seat : Seat) : List Chips :=
  if s.isOpen t then (s.cutSizes t seat).sort (· ≤ ·) else []

/-- A search only opens the betting where the rules let it. -/
theorem mayRaise_of_isOpen (opened : s.isOpen t = true) : t.mayRaise = true := by
  rw [isOpen, Bool.and_eq_true] at opened
  exact opened.1

/-- The offered amounts increase. -/
theorem pairwise_offered : (s.offered t seat).Pairwise (· < ·) := by
  unfold offered
  split
  · exact Finset.sortedLT_sort _ |>.pairwise
  · exact .nil

/-- A size is offered where raises are open, at least the minimum, and leaves chips behind. -/
theorem of_mem_offered {n : Chips} (mem : n ∈ s.offered t seat) :
    s.isOpen t = true ∧
      (∃ f ∈ s.grid,
        n = max (f.of (t.previousPot + t.roundPot + t.deficit seat.player)) t.minimum) ∧
      t.deficit seat.player + n < seat.stack := by
  unfold offered at mem
  split at mem
  · rw [Finset.mem_sort, cutSizes, mem_amounts_iff] at mem
    exact ⟨‹_›, mem⟩
  · exact absurd mem List.not_mem_nil

/-- Where the sizes fit, the bets or raises are those that are offered. -/
theorem larger_of_fits (fits : s.Fits t seat.player) :
    s.larger t seat = .ok ((s.offered t seat).map t.betOrRaise) := by
  unfold larger offered
  split
  · obtain ⟨room, each⟩ := fits ‹_›
    have pot : t.pot = .ok (t.previousPot + t.roundPot) :=
      addChips_eq_ok_iff.2 ⟨rfl, Nat.lt_of_le_of_lt (Nat.le_add_right _ _) room⟩
    rw [pot]
    show (addChips _ _ >>= _) = _
    rw [addChips_eq_ok_iff.2 ⟨rfl, room⟩]
    show (s.sizes _ _ _ _ >>= _) = _
    rw [sizes_eq, if_pos each]
    rfl
  · rfl

/-- Where they do not fit, adding them up overflows. -/
theorem larger_of_not_fits (misfit : ¬ s.Fits t seat.player) :
    s.larger t seat = .error (.fault .addOverflow) := by
  unfold Fits at misfit
  obtain ⟨opened, misfit⟩ := Classical.not_imp.1 misfit
  unfold larger
  rw [if_pos opened]
  by_cases large : chipLimit ≤ t.previousPot + t.roundPot
  · show (addChips _ _ >>= _) = _
    rw [addChips_eq_fault large]
    rfl
  · have pot : t.pot = .ok (t.previousPot + t.roundPot) :=
      addChips_eq_ok_iff.2 ⟨rfl, Nat.lt_of_not_le large⟩
    rw [pot]
    show (addChips _ _ >>= _) = _
    by_cases larger : chipLimit ≤ t.previousPot + t.roundPot + t.deficit seat.player
    · rw [addChips_eq_fault larger]
      rfl
    · have room := Nat.lt_of_not_le larger
      rw [addChips_eq_ok_iff.2 ⟨rfl, room⟩]
      show (s.sizes _ _ _ _ >>= _) = _
      rw [sizes_eq, if_neg (fun each => misfit ⟨room, each⟩)]
      rfl

/-- Where nobody acts there are no candidates. -/
theorem candidates_of_idle (idle : t.actor? = none) : s.candidates t = .ok [] := by
  rw [candidates, idle]
  rfl

/-- The candidates that are no bets or raises of the grid, before and after them. -/
theorem candidates_eq (acts : t.actor? = some seat) : s.candidates t =
    (s.larger t seat >>= fun larger => pure ([t.quiet seat] ++
      (if 0 < t.deficit seat.player && t.deficit seat.player < seat.stack then
        [Action.call (t.deficit seat.player)] else []) ++ larger ++
      (if 0 < seat.stack && (seat.stack ≤ t.deficit seat.player || (s.isOpen t && s.shove)) then
        [Action.shove seat.stack] else []))) := by
  rw [candidates, acts, larger, Table.singleton_quiet]
  show (if s.isOpen t = true then _ else _) = _
  by_cases opened : s.isOpen t = true
  · rw [if_pos opened, if_pos opened]
    simp only [bind_assoc, pure_bind]
    rfl
  · rw [if_neg opened, if_neg opened]
    rfl

/-- The candidates can be listed where the sizes fit, and then they are the listing of the amounts
that are offered. -/
theorem candidates_eq_ok_iff (acts : t.actor? = some seat) :
    s.candidates t = .ok actions ↔ s.Fits t seat.player ∧
      actions = t.listing seat (s.offered t seat) (s.isOpen t && s.shove) := by
  rw [candidates_eq acts]
  by_cases fits : s.Fits t seat.player
  · rw [larger_of_fits fits, and_iff_right fits]
    show Except.ok (t.listing seat (s.offered t seat) (s.isOpen t && s.shove)) = .ok actions ↔ _
    rw [Except.ok.injEq, eq_comm]
  · rw [larger_of_not_fits fits]
    exact iff_of_false (by rintro ⟨⟩) (fun listed => fits listed.1)

/-- The candidates can be listed exactly where the sizes fit. -/
theorem exists_candidates_iff (acts : t.actor? = some seat) :
    (∃ actions, s.candidates t = .ok actions) ↔ s.Fits t seat.player := by
  simp only [candidates_eq_ok_iff acts, exists_and_left, exists_eq, and_true]

/-- Listing the candidates fails only where a size does not fit. -/
theorem candidates_eq_error (acts : t.actor? = some seat) {failure : Failure}
    (failed : s.candidates t = .error failure) :
    failure = .fault .addOverflow ∧ ¬ s.Fits t seat.player := by
  have misfit : ¬ s.Fits t seat.player := by
    intro fits
    rw [(candidates_eq_ok_iff acts).2 ⟨fits, rfl⟩] at failed
    cases failed
  rw [candidates_eq acts, larger_of_not_fits misfit] at failed
  exact ⟨(Except.error.inj failed).symm, misfit⟩

/-- There is a candidate besides the fold exactly for a player who owes nothing or has chips. -/
theorem offers_iff (acts : t.actor? = some seat) (listed : s.candidates t = .ok actions) :
    (∃ a ∈ actions, a ≠ .fold) ↔ t.deficit seat.player = 0 ∨ 0 < seat.stack := by
  obtain ⟨-, rfl⟩ := (candidates_eq_ok_iff acts).1 listed
  simp only [Table.mem_listing_iff]
  constructor
  · rintro ⟨a, rfl | ⟨rfl, -, able⟩ | ⟨n, mem, rfl⟩ | ⟨rfl, chips, -⟩, other⟩
    · left
      by_contra owes
      exact other (if_neg owes)
    · exact .inr (Nat.zero_lt_of_lt able)
    · exact .inr (Nat.zero_lt_of_lt (of_mem_offered mem).2.2)
    · exact .inr chips
  · intro able
    by_cases owes : t.deficit seat.player = 0
    · exact ⟨.check, .inl (if_pos owes).symm, by simp⟩
    · have chips := able.resolve_left owes
      by_cases short : seat.stack ≤ t.deficit seat.player
      · exact ⟨.shove seat.stack, .inr (.inr (.inr ⟨rfl, chips, .inl short⟩)), by simp⟩
      · refine ⟨.call (t.deficit seat.player), .inr (.inl ⟨rfl, ?_⟩), by simp⟩
        exact ⟨Nat.pos_of_ne_zero owes, Nat.lt_of_not_le short⟩

/-! ## Candidates are legal -/

/-- Checking or folding is always open to the player who is due. -/
theorem isAllowed_passive (acts : t.actor? = some seat) (due : t.nextToAct = some seat.player) :
    t.isAllowed t.passive = .ok true :=
  Table.isAllowed_of_mem_listing_nil acts (Table.passive_mem_listing due)

/-- Every candidate is a legal action. -/
theorem isAllowed_of_candidate (acts : t.actor? = some seat)
    (listed : s.candidates t = .ok actions) (mem : a ∈ actions) : t.isAllowed a = .ok true := by
  obtain ⟨fits, rfl⟩ := (candidates_eq_ok_iff acts).1 listed
  refine Table.isAllowed_of_mem_listing acts (fun n among => ?_) (fun opened => ?_) mem
  · obtain ⟨opened, ⟨f, inGrid, rfl⟩, leaves⟩ := of_mem_offered among
    exact ⟨mayRaise_of_isOpen opened, Nat.le_max_right _ _, leaves, (fits opened).2 f inGrid⟩
  · exact mayRaise_of_isOpen (Bool.and_elim_left opened)

/-- Checking or folding is among the candidates. -/
theorem passive_mem_candidates (acts : t.actor? = some seat)
    (due : t.nextToAct = some seat.player) (listed : s.candidates t = .ok actions) :
    t.passive ∈ actions := by
  obtain ⟨-, rfl⟩ := (candidates_eq_ok_iff acts).1 listed
  exact Table.passive_mem_listing due

/-! ## No candidate is listed twice -/

/-- The candidates are listed in the order in which equally good ones are preferred. -/
theorem pairwise_candidates (listed : s.candidates t = .ok actions) :
    actions.Pairwise (fun a b => a.preferredTo b = true) := by
  cases acts : t.actor? with
  | none =>
    obtain rfl := Except.ok.inj ((candidates_of_idle acts).symm.trans listed)
    exact .nil
  | some seat =>
    obtain ⟨-, rfl⟩ := (candidates_eq_ok_iff acts).1 listed
    exact Table.pairwise_listing pairwise_offered

/-- No candidate is listed twice. -/
theorem nodup_candidates (listed : s.candidates t = .ok actions) : actions.Nodup :=
  Action.nodup_of_preferredTo (pairwise_candidates listed)

end Sizing

end Holdem
