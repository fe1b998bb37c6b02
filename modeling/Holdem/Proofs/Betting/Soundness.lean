import Holdem.Proofs.Betting.Candidates
import Holdem.Proofs.Table.Trace

/-!
# What candidates may be

Whatever the grid of a search is, its candidates are legal actions in one order: a check or a fold,
then a call wherever one is allowed, then bets or raises by increasing amounts that leave chips
behind, and all in at the end. Once a round has seen its full number of bets and raises, none of
them raises the largest bet.
-/

set_option autoImplicit false

namespace Holdem

namespace Table

variable {t u : Table} {f : Flat} {seat : Seat} {sizes : List Chips} {opened : Bool}
  {actions : List Action} {a : Action} {p : Player}

/-! ## The order of a list -/

/-- A list in the order of its kinds: a check or a fold, then a call of what is lacking or none,
then only bets or only raises by increasing amounts that leave chips behind, then all in or
nothing. -/
def Arranged (t : Table) (seat : Seat) (actions : List Action) : Prop :=
  ∃ (first : Action) (calls : List Action) (kind : Chips → Action) (sizes : List Chips)
    (shoves : List Action), actions = first :: (calls ++ sizes.map kind ++ shoves) ∧
      (first = .check ∨ first = .fold) ∧
      (calls = [] ∨ calls = [.call (t.deficit seat.player)]) ∧
      (kind = .bet ∨ kind = .raise) ∧ sizes.Pairwise (· < ·) ∧
      (∀ n ∈ sizes, t.deficit seat.player + n < seat.stack) ∧
      (shoves = [] ∨ shoves = [.shove seat.stack])

/-- A listing with increasing sizes that leave chips behind is in the order of its kinds. -/
theorem arranged_listing (increasing : sizes.Pairwise (· < ·))
    (leaves : ∀ n ∈ sizes, t.deficit seat.player + n < seat.stack) :
    t.Arranged seat (t.listing seat sizes opened) := by
  refine ⟨t.quiet seat, _, t.betOrRaise, sizes, _, rfl, ?first, ?calls, ?kind, increasing, leaves,
    ?shoves⟩
  case first => exact (ite_eq_or_eq _ _ _)
  case calls => exact (ite_eq_or_eq _ _ _).symm
  case kind =>
    by_cases none : t.largestBet = 0
    · exact .inl (funext (fun n => if_pos none))
    · exact .inr (funext (fun n => if_neg none))
  case shoves => exact (ite_eq_or_eq _ _ _).symm

/-! ## No more raises -/

/-- Where raises are not open nothing is listed that puts in more than is lacking. -/
theorem outbids_of_mem_listing (mem : a ∈ t.listing seat [] false) :
    a.outbids (t.deficit seat.player) = false := by
  obtain rfl | ⟨rfl, -⟩ | ⟨_, none, -⟩ | ⟨rfl, -, short⟩ := mem_listing_iff.1 mem
  · unfold quiet
    split <;> rfl
  · rfl
  · cases none
  · exact decide_eq_false (Nat.not_lt.2 (short.resolve_right (by decide)))

/-- An allowed action that puts in no more than is lacking does not raise the largest bet, neither
as a move nor by what is played after it. -/
theorem Shows.not_raised (h : t.Shows f) (sound : f.Sound) (due : f.next = some p)
    (allowed : t.isAllowed a = .ok true) (keeps : a.outbids (t.deficit p) = false)
    (acted : t.apply (a.event p) = .ok u ∨ t.play a = .ok u) : ¬ t.largestBet < u.largestBet := by
  have moved : ∀ v, t.apply (a.event p) = .ok v → v.largestBet ≤ t.largestBet := by
    intro v accepted
    obtain ⟨f', applied, shown⟩ := (h.apply_agrees sound (a.event p)).exists_some accepted
    rw [(shown.answers (sound.apply applied)).largestBet, (h.answers sound).largestBet]
    refine Nat.le_of_not_lt (fun raised => ?_)
    rw [(h.largest_lt_iff sound due allowed applied).1 raised] at keeps
    cases keeps
  refine Nat.not_lt.2 ?_
  rcases acted with accepted | played
  · exact moved u accepted
  · obtain ⟨p', v, due', -, accepted, rest⟩ := play_eq_ok.1 played
    obtain rfl : p = p' := Option.some.inj (((h.answers sound).nextToAct.trans due).symm.trans due')
    obtain ⟨f', applied, shown⟩ := (h.apply_agrees sound (a.event p)).exists_some accepted
    have sound' : f'.Sound := sound.apply applied
    rcases rest with ⟨ended, closed⟩ | ⟨-, q, -, passed⟩
    · exact (shown.close_spec sound' ended closed).2.2.2.trans (moved v accepted)
    · exact (shown.turn_spec sound' passed).2.2.1.trans_le (moved v accepted)

/-! ## The candidates -/

/-- What holds of the actions that a search looks at. -/
structure Choices (t : Table) (actions : List Action) : Prop where
  empty : actions = [] ↔ t.nextToAct = none
  allowed : ∀ a ∈ actions, t.isAllowed a = .ok true
  nodup : actions.Nodup
  call : ∀ n, .call n ∈ actions ↔ t.isAllowed (.call n) = .ok true
  arranged : ∀ p, t.nextToAct = some p →
    ∃ seat, t.actor? = some seat ∧ seat.player = p ∧ t.Arranged seat actions

/-- Where nobody is due there is nothing to choose from. -/
theorem choices_of_idle (idle : t.nextToAct = none) : t.Choices [] where
  empty := iff_of_true rfl idle
  allowed := fun a mem => absurd mem List.not_mem_nil
  nodup := .nil
  call := by
    intro n
    rw [isAllowed, actor?_of_idle idle]
    exact iff_of_false List.not_mem_nil (fun allowed => by cases allowed)
  arranged := fun p due => by cases idle.symm.trans due

end Table

namespace Sizing

variable {s : Sizing} {t : Table} {f : Flat} {seat : Seat} {actions : List Action}

/-- The candidates of a player who is due are choices. -/
theorem choices_of_candidates (acts : t.actor? = some seat) (due : t.nextToAct = some seat.player)
    (listed : s.candidates t = .ok actions) : t.Choices actions where
  empty := by
    obtain ⟨-, rfl⟩ := (candidates_eq_ok_iff acts).1 listed
    exact iff_of_false Table.listing_ne_nil (by simp [due])
  allowed := fun a mem => isAllowed_of_candidate acts listed mem
  nodup := nodup_candidates listed
  call := by
    intro n
    obtain ⟨-, rfl⟩ := (candidates_eq_ok_iff acts).1 listed
    rw [Table.isAllowed_iff_of_unsized acts rfl, Table.call_mem_listing_iff,
      Table.call_mem_listing_iff]
  arranged := by
    intro p due'
    obtain rfl := Option.some.inj (due.symm.trans due')
    obtain ⟨-, rfl⟩ := (candidates_eq_ok_iff acts).1 listed
    exact ⟨seat, acts, rfl,
      Table.arranged_listing pairwise_offered (fun n mem => (of_mem_offered mem).2.2)⟩

/-- Of a round that has seen its full number of raises only actions without a size are
candidates. -/
theorem candidates_of_capped (acts : t.actor? = some seat) (capped : s.maxRaises ≤ t.raises)
    (listed : s.candidates t = .ok actions) : actions = t.listing seat [] false := by
  have shut : s.isOpen t = false := by
    rw [isOpen, decide_eq_false (Nat.not_lt.2 capped), Bool.and_false]
  obtain ⟨-, rfl⟩ := (candidates_eq_ok_iff acts).1 listed
  rw [offered, shut]
  rfl

/-- Whatever the grid and the limit of a search, at every table of a run from an accepted snapshot:
if the candidates can be listed, there are none exactly if nobody is due; they are different legal
actions, arranged by their kinds, with a call wherever one is allowed. Once the limit of the round
is reached, none of them raises the largest bet, neither as a move nor when it is played. -/
theorem candidates_sound {snapshot : Snapshot} {t₀ : Table} {events : List Event}
    (start : Table.ofSnapshot snapshot = .ok t₀) (ran : t₀.run events = .ok t)
    (listed : s.candidates t = .ok actions) :
    t.Choices actions ∧
      (s.maxRaises ≤ t.raises → ∀ p, t.nextToAct = some p → ∀ a ∈ actions, ∀ u,
        t.apply (a.event p) = .ok u ∨ t.play a = .ok u → ¬ t.largestBet < u.largestBet) := by
  obtain ⟨f, -, h, sound⟩ := Table.exists_flat_of_run start ran
  have answers := h.answers sound
  cases due : t.nextToAct with
  | none =>
    obtain rfl := Except.ok.inj
      ((candidates_of_idle (Table.actor?_of_idle due)).symm.trans listed)
    exact ⟨Table.choices_of_idle due, fun _ _ due => by cases due⟩
  | some p =>
    have next : f.next = some p := answers.nextToAct.symm.trans due
    obtain ⟨seat, acts, rfl⟩ := h.exists_actor sound next
    refine ⟨choices_of_candidates acts due listed, fun capped q due' a mem u acted => ?_⟩
    obtain rfl := Option.some.inj due'
    refine h.not_raised sound next (isAllowed_of_candidate acts listed mem) ?_ acted
    rw [candidates_of_capped acts capped listed] at mem
    exact Table.outbids_of_mem_listing mem

/-- Without raises the first player folds or calls, and the call leaves the largest bet. -/
theorem candidates_sound_headsUp : ∃ t u, Table.ofSnapshot (.headsUp 5) = .ok t ∧
    t.run [] = .ok t ∧ (⟨PotFraction.usual, true, 0⟩ : Sizing).candidates t = .ok [.fold, .call 1] ∧
    t.Choices [.fold, .call 1] ∧ t.play (.call 1) = .ok u ∧ ¬ t.largestBet < u.largestBet := by
  have dealt : ∃ t u, Table.ofSnapshot (.headsUp 5) = .ok t ∧ t.run [] = .ok t ∧
      (⟨PotFraction.usual, true, 0⟩ : Sizing).candidates t = .ok [.fold, .call 1] ∧
      t.nextToAct = some ⟨0⟩ ∧ t.play (.call 1) = .ok u :=
    ⟨_, _, rfl, rfl, rfl, rfl, rfl⟩
  obtain ⟨t, u, start, ran, listed, due, played⟩ := dealt
  obtain ⟨choices, capped⟩ := candidates_sound start ran listed
  have kept := capped (Nat.zero_le _) ⟨0⟩ due (.call 1) (by simp) u (.inr played)
  exact ⟨t, u, start, ran, listed, choices, played, kept⟩

end Sizing

end Holdem
