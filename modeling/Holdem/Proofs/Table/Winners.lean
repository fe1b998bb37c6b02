import Holdem.Proofs.Awards
import Holdem.Proofs.Flat.Turns
import Holdem.Proofs.Table.Showdowns

/-!
# Who is paid at a showdown

When the whole board is open and all who compete have shown their cards, every player's payout is
estimated from that player's point of view. The points of view agree: the players with the strongest
seven cards are paid one prize each, everybody else nothing, and all payouts together are at most
the pot.
-/

set_option autoImplicit false

namespace Holdem

/-- One prize for each of some winners makes the pot, up to what cannot be divided. -/
theorem Showdown.mul_prize (s : Showdown) (pot : Chips) (winners : Nat) :
    winners * s.prize pot winners =
      if s.splitPots then pot - pot % winners else if winners = 1 then pot else 0 := by
  unfold prize
  split
  · have parts := Nat.div_add_mod pot winners
    lia
  · split
    · rename_i single
      rw [single, Nat.one_mul]
    · exact Nat.mul_zero winners

namespace Table

variable {t : Table} {f : Flat} {hero : Seat} {pot : Chips} {strength : Seat → Strength}

/-- The cards of a seat, with those of the board. -/
def sevenCards (t : Table) (seat : Seat) : Hand :=
  (seat.hole.elim Hand.empty Hole.cards).union t.board.cards

/-- With the board open the cards of every seat are ranked. -/
theorem exists_ranking (full : t.board.size = 5) :
    ∃ strength : Seat → Strength, ∀ seat, (t.sevenCards seat).strength? = some (strength seat) := by
  have ranked : ∀ seat, ∃ own, (t.sevenCards seat).strength? = some own := by
    intro seat
    have cards : t.board.cards.size = 5 := full
    obtain ⟨c, inAll, lies⟩ := List.countP_pos_iff.1 (show 0 < t.board.cards.size by lia)
    have held : c ∈ t.sevenCards seat := Hand.mem_union.2 (.inr lies)
    exact Hand.exists_strength?_of_pos (List.countP_pos_iff.2 ⟨c, inAll, held⟩)
  exact ⟨_, fun seat => (ranked seat).choose_spec⟩

/-- A seat that competes and its opponents are all who compete. -/
theorem Shows.exists_opponents (h : t.Shows f) (sound : f.Sound) (mem : hero ∈ f.seats)
    (active : hero.isActive = true) : ∃ opponents, t.opponents hero.player = .ok opponents ∧
      (f.seats.filter Seat.isActive).Perm (hero :: opponents) := by
  obtain ⟨before, after, seats, _⟩ := Flat.split_of_mem sound mem
  have others := Flat.player_ne_of_around sound seats
  have kept : ∀ s ∈ before ++ after, (s.player != hero.player && s.isActive) = s.isActive := by
    intro s mem
    have other := others s (List.mem_append.2 (List.mem_append.1 mem).symm)
    rw [bne_iff_ne.2 other, Bool.true_and]
  have own : (hero :: after).filter (fun s => s.player != hero.player && s.isActive) =
      after.filter (fun s => s.player != hero.player && s.isActive) :=
    List.filter_cons_of_neg (by simp)
  refine ⟨(before ++ after).filter Seat.isActive, ?_, ?_⟩
  · rw [opponents, (h.answers sound).seats, seats]
    show Except.ok _ = _
    rw [List.filter_append, own, ← List.filter_append, List.filter_congr kept]
  · rw [seats, ← List.filter_cons_of_pos active]
    exact List.perm_middle.filter Seat.isActive

/-- With every card known, a player's showdown is estimated by one payout, the same in all trials:
nothing if an opponent is stronger, and otherwise the prize of the player and all who tie. -/
theorem Shows.estimate_of_known (h : t.Shows f) (sound : f.Sound)
    (apart : NoCardTwice f.board (f.seats.filterMap Seat.hole)) (full : t.board.size = 5)
    (mem : hero ∈ f.seats) (active : hero.isActive = true) {opponents : List Seat}
    (facing : t.opponents hero.player = .ok opponents) (some : opponents ≠ [])
    (known : ∀ seat ∈ hero :: opponents, seat.hole.isSome = true)
    (ranked : ∀ seat, (t.sevenCards seat).strength? = Option.some (strength seat))
    {showdown : Showdown} (standard : showdown.judge = Judge.standard) (fits : t.pot = .ok pot)
    {σ : Type} [WordSource σ] (g : σ) :
    showdown.estimate hero.player t g = .ok (Payouts.ofList (List.replicate showdown.trials
      (if opponents.any (fun seat => (strength seat).compare (strength hero) = .gt) then 0
        else showdown.prize pot
          (opponents.countP (fun seat => (strength seat).compare (strength hero) = .eq) + 1))),
      g) := by
  obtain ⟨hole, held⟩ := Option.isSome_iff_exists.1 (known hero List.mem_cons_self)
  have found := h.seat_eq (Flat.seat?_of_mem sound.distinct mem)
  obtain ⟨c, between, fair, same, own, board, theirs⟩ :=
    h.exists_contest sound apart found held facing pot
  have shown : c.opponents =
      (opponents.map (fun seat => seat.hole.elim Hand.empty Hole.cards)).map Option.some := by
    rw [theirs, List.map_map]
    refine List.map_congr_left (fun seat inOthers => ?_)
    obtain ⟨hole, held⟩ := Option.isSome_iff_exists.1 (known seat (List.mem_cons_of_mem _ inOthers))
    rw [Function.comp_apply, held]
    rfl
  have judged : ∀ seat : Seat, showdown.judge
      ((seat.hole.elim Hand.empty Hole.cards).union c.board.cards) =
        Option.some (strength seat) := by
    intro seat
    rw [standard, board]
    exact ranked seat
  have hero' : showdown.judge (c.hole.union c.board.cards) = Option.some (strength hero) := by
    rw [← judged hero, own, held]
    rfl
  have denies : showdown.denies (strength hero) c.board.cards ∘
      (fun seat => seat.hole.elim Hand.empty Hole.cards) =
      fun seat => decide ((strength seat).compare (strength hero) = .gt) := by
    funext seat
    rw [Function.comp_apply, Showdown.denies, judged seat, Option.all_some]
  have ties : showdown.ties (strength hero) c.board.cards ∘
      (fun seat => seat.hole.elim Hand.empty Hole.cards) =
      fun seat => decide ((strength seat).compare (strength hero) = .eq) := by
    funext seat
    rw [Function.comp_apply, Showdown.ties, judged seat, Option.any_some]
  have trial := showdown.trial_of_known (σ := σ) fair (board ▸ full) shown hero'
  rw [showdown.estimate_eq fits found active facing some between,
    Showdown.runTrials_of_pure trial, List.any_map, List.countP_map, same, denies, ties]
  rfl

/-! ## All points of view together -/

/-- A strength that one of some rivals has, and none of them a greater one. -/
structure Strongest (t : Table) (rivals : List Seat) (best : Strength) : Prop where
  held : ∃ seat ∈ rivals, (t.sevenCards seat).strength? = some best
  unbeaten : ∀ seat ∈ rivals, ∀ own, (t.sevenCards seat).strength? = some own →
    own.compare best ≠ .gt

/-- How many rivals have a strength. -/
def sharers (t : Table) (rivals : List Seat) (best : Strength) : Nat :=
  rivals.countP (fun seat => (t.sevenCards seat).strength? = some best)

/-- What a seat should be paid: the prize of all who have the best strength if it is one of them,
and nothing otherwise. -/
def payoff (t : Table) (showdown : Showdown) (pot : Chips) (rivals : List Seat) (best : Strength)
    (seat : Seat) : Chips :=
  if (t.sevenCards seat).strength? = some best then
    showdown.prize pot (t.sharers rivals best)
  else 0

/-- Where every rival is ranked, some strength is the best. -/
theorem exists_strongest {rivals : List Seat} (some : rivals ≠ [])
    (ranked : ∀ seat, (t.sevenCards seat).strength? = Option.some (strength seat)) :
    ∃ best, t.Strongest rivals best := by
  cases top : rivals.argmax (fun seat => (strength seat).value) with
  | none => exact absurd (List.argmax_eq_none.1 top) some
  | some chief =>
    refine ⟨strength chief, ⟨chief, List.argmax_mem top, ranked chief⟩, ?_⟩
    intro seat mem own held stronger
    obtain rfl := Option.some.inj ((ranked seat).symm.trans held)
    exact List.not_lt_of_mem_argmax mem top (Strength.compare_eq_gt_iff.1 stronger)

/-- What a player is paid for the opponents' strengths is the payoff among all who compete. -/
theorem Strongest.payoff_eq {rivals opponents : List Seat} {best : Strength}
    (top : t.Strongest rivals best) (all : rivals.Perm (hero :: opponents))
    (ranked : ∀ seat, (t.sevenCards seat).strength? = some (strength seat)) (showdown : Showdown)
    (pot : Chips) :
    (if opponents.any (fun seat => (strength seat).compare (strength hero) = .gt) then 0
        else showdown.prize pot
          (opponents.countP (fun seat => (strength seat).compare (strength hero) = .eq) + 1)) =
      t.payoff showdown pot rivals best hero := by
  have unbeaten : ∀ seat ∈ hero :: opponents, (strength seat).compare best ≠ .gt :=
    fun seat mem => top.unbeaten seat (all.mem_iff.2 mem) _ (ranked seat)
  by_cases wins : strength hero = best
  · have nobody : ¬ opponents.any (fun seat => (strength seat).compare (strength hero) = .gt) := by
      rw [List.any_eq_true, wins]
      rintro ⟨seat, mem, stronger⟩
      exact unbeaten seat (List.mem_cons_of_mem hero mem) (of_decide_eq_true stronger)
    have sharers : t.sharers rivals best =
        opponents.countP (fun seat => (strength seat).compare (strength hero) = .eq) + 1 := by
      rw [Table.sharers, all.countP_eq, List.countP_cons_of_pos (by simp [ranked, wins])]
      simp only [ranked, Option.some.injEq, Strength.compare_eq_eq_iff, wins]
    rw [if_neg nobody, payoff, if_pos (by rw [ranked, wins]), sharers]
  · obtain ⟨chief, inRivals, held⟩ := top.held
    obtain rfl := Option.some.inj ((ranked chief).symm.trans held)
    have other : chief ∈ opponents :=
      (List.mem_cons.1 (all.mem_iff.1 inRivals)).resolve_left (fun same => wins (same ▸ rfl))
    have stronger : (strength chief).compare (strength hero) = .gt := by
      have notGreater := unbeaten hero List.mem_cons_self
      have unequal : (strength hero).value ≠ (strength chief).value :=
        fun same => wins (Strength.eq_of_value_eq same)
      rw [Ne, Strength.compare_eq_gt_iff] at notGreater
      rw [Strength.compare_eq_gt_iff]
      lia
    rw [if_pos (List.any_eq_true.2 ⟨chief, other, decide_eq_true stronger⟩), payoff,
      if_neg (by rwa [ranked, Option.some.injEq])]

/-- All payoffs together make the pot, up to what cannot be divided. -/
theorem sum_payoff (t : Table) (showdown : Showdown) (pot : Chips) (rivals : List Seat)
    (best : Strength) : (rivals.map (t.payoff showdown pot rivals best)).sum =
      if showdown.splitPots then pot - pot % t.sharers rivals best
      else if t.sharers rivals best = 1 then pot else 0 := by
  have parts := List.sum_map_ite (fun seat => (t.sevenCards seat).strength? = some best)
    (fun _ => showdown.prize pot (t.sharers rivals best)) (fun _ => 0) rivals
  rw [List.map_const', List.map_const', List.sum_replicate, List.sum_replicate, smul_zero,
    add_zero, ← List.countP_eq_length_filter] at parts
  exact parts.trans (showdown.mul_prize pot _)

/-- The board is open and at least two players compete, all with known cards, where a run from an
accepted snapshot leads that has revealed none of these cards. If the pot fits, every showdown has
one payout in all its trials, whatever words are drawn: those who have the best strength are paid
one prize each, a share of the pot or all of it, and everybody else nothing. If the pot does not
fit, every estimate ends in a fault. -/
theorem winners_share_pot {s : Snapshot} {t₀ : Table} {events : List Event}
    (start : Table.ofSnapshot s = .ok t₀) (ran : t₀.run events = .ok t)
    (fresh : ∀ street cards, Event.round street cards ∈ events → ∀ seat ∈ s.seats, ∀ hole,
      seat.hole = some hole → cards.overlaps hole.cards = false)
    (full : t.board.size = 5) {seats rivals : List Seat} (seated : t.seats = .ok seats)
    (competing : seats.filter Seat.isActive = rivals) (several : 2 ≤ rivals.length)
    (known : ∀ seat ∈ rivals, seat.hole.isSome = true) {showdown : Showdown}
    (standard : showdown.judge = Judge.standard) (σ : Type) [WordSource σ] :
    (t.previousPot + t.roundPot < 2 ^ 32 → ∃ best, t.Strongest rivals best ∧
      (∀ seat ∈ rivals, ∀ g : σ, showdown.estimate seat.player t g =
        .ok (Payouts.ofList (List.replicate showdown.trials
          (t.payoff showdown (t.previousPot + t.roundPot) rivals best seat)), g)) ∧
      (rivals.map (t.payoff showdown (t.previousPot + t.roundPot) rivals best)).sum =
        if showdown.splitPots then
          t.previousPot + t.roundPot - (t.previousPot + t.roundPot) % t.sharers rivals best
        else if t.sharers rivals best = 1 then t.previousPot + t.roundPot else 0) ∧
    (2 ^ 32 ≤ t.previousPot + t.roundPot → ∀ seat ∈ rivals, ∀ g : σ,
      showdown.estimate seat.player t g = .error (.fault .addOverflow)) := by
  constructor
  · intro fits
    have pot : t.pot = .ok (t.previousPot + t.roundPot) := addChips_eq_ok_iff.2 ⟨rfl, fits⟩
    obtain ⟨f, h, sound, apart⟩ := exists_shows_of_run start ran fresh
    obtain rfl := Except.ok.inj ((h.answers sound).seats.symm.trans seated)
    subst competing
    obtain ⟨strength, ranked⟩ := exists_ranking full
    have some : f.seats.filter Seat.isActive ≠ [] :=
      List.ne_nil_of_length_pos (Nat.lt_of_lt_of_le (by decide) several)
    obtain ⟨best, top⟩ := exists_strongest some ranked
    refine ⟨best, top, fun hero inRivals g => ?_, t.sum_payoff showdown _ _ best⟩
    obtain ⟨mem, active⟩ := List.mem_filter.1 inRivals
    obtain ⟨opponents, facing, all⟩ := h.exists_opponents sound mem active
    have others : opponents ≠ [] := by
      rintro rfl
      have length := all.length_eq
      rw [List.length_singleton] at length
      lia
    rw [h.estimate_of_known sound apart full mem active facing others
      (fun seat other => known seat (all.mem_iff.2 other)) ranked standard pot,
      top.payoff_eq all ranked]
  · exact fun spills seat _ g => showdown.estimate_of_spill (addChips_eq_fault spills) g

/-- A royal flush on the board, which nobody can beat, and a pot of earlier rounds. -/
def royalBoard (pot : Chips) : Snapshot :=
  { river pot with board := ⟨Hand.ofCards [⟨.ten, .hearts⟩, ⟨.jack, .hearts⟩, ⟨.queen, .hearts⟩,
      ⟨.king, .hearts⟩, ⟨.ace, .hearts⟩], by decide⟩ }

/-- The two players share a pot of 303 chips, of which one is left. -/
theorem winners_share_pot_royalBoard : ∃ t seats, Table.ofSnapshot (royalBoard 300) = .ok t ∧
    t.seats = .ok seats ∧ seats.length = 2 ∧ ∀ seat ∈ seats, ∀ g : Xoshiro,
      ({ splitPots := true } : Showdown).estimate seat.player t g =
        .ok (Payouts.ofList (List.replicate 20 151), g) := by
  have dealt : ∃ t seats, Table.ofSnapshot (royalBoard 300) = .ok t ∧ t.run [] = .ok t ∧
      t.board.size = 5 ∧ t.seats = .ok seats ∧ seats.filter Seat.isActive = seats ∧
      seats.length = 2 ∧ (∀ seat ∈ seats, seat.hole.isSome = true) ∧
      t.previousPot + t.roundPot = 303 ∧
      ∀ seat ∈ seats, (t.sevenCards seat).strength? = some ⟨.straightFlush .ace, RankSet.empty⟩ :=
    ⟨_, _, rfl, rfl, by decide, rfl, by decide, by decide, by decide, by decide, by decide⟩
  obtain ⟨t, seats, start, ran, full, seated, competing, two, known, pot, tied⟩ := dealt
  have standard : ({ splitPots := true } : Showdown).judge = Judge.standard := rfl
  obtain ⟨best, top, paid, -⟩ := (winners_share_pot start ran (fun _ _ mem => by cases mem) full
    seated competing two.ge known standard Xoshiro).1 (by rw [pot]; decide)
  obtain ⟨chief, inSeats, held⟩ := top.held
  obtain rfl := Option.some.inj ((tied chief inSeats).symm.trans held)
  refine ⟨t, seats, start, seated, two, fun seat mem g => ?_⟩
  have sharers : t.sharers seats ⟨.straightFlush .ace, RankSet.empty⟩ = 2 := by
    rw [Table.sharers, List.countP_eq_length.2 (fun seat mem => decide_eq_true (tied seat mem)),
      two]
  rw [paid seat mem g, payoff, if_pos (tied seat mem), sharers, pot]
  rfl

/-- With a pot that is no amount of chips nobody can be told that a tie pays nothing: every estimate
is a fault. -/
theorem showdown_faults_on_royalBoard : ∃ t seats,
    Table.ofSnapshot (royalBoard (2 ^ 32 - 1)) = .ok t ∧ t.board.size = 5 ∧ t.seats = .ok seats ∧
    seats.filter Seat.isActive = seats ∧ seats.length = 2 ∧
    (∀ seat ∈ seats, seat.hole.isSome = true) ∧ ∀ seat ∈ seats, ∀ g : Xoshiro,
      ({} : Showdown).estimate seat.player t g = .error (.fault .addOverflow) ∧
      ∀ payout, ({} : Showdown).estimate seat.player t g ≠
        .ok (Payouts.ofList (List.replicate 20 payout), g) := by
  have dealt : ∃ t seats, Table.ofSnapshot (royalBoard (2 ^ 32 - 1)) = .ok t ∧ t.board.size = 5 ∧
      t.seats = .ok seats ∧ seats.filter Seat.isActive = seats ∧ seats.length = 2 ∧
      (∀ seat ∈ seats, seat.hole.isSome = true) ∧ t.pot = .error (.fault .addOverflow) :=
    ⟨_, _, rfl, by decide, rfl, by decide, by decide, by decide, rfl⟩
  obtain ⟨t, seats, start, full, seated, competing, two, known, spills⟩ := dealt
  refine ⟨t, seats, start, full, seated, competing, two, known, fun seat _ g => ?_⟩
  have fault := Showdown.estimate_of_spill (p := seat.player) {} spills g
  refine ⟨fault, fun payout paid => ?_⟩
  rw [fault] at paid
  cases paid

end Table

end Holdem
