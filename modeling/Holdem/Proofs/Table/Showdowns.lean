import Holdem.Chance.Xoshiro
import Holdem.Proofs.Table.Cards

/-!
# Showdowns at a table

Where play from an accepted snapshot leads, no card is in two places, so the contest between a
player and those who still compete is fair. Every trial of a showdown then deals a consistent hand
to everybody. It is decided before any card is drawn whether the cards suffice: if they do, there
are as many payouts as trials, and if they do not, the first trial fails. Before that the pot has to
fit: nothing bounds the pot that a snapshot brings along.
-/

set_option autoImplicit false

namespace Holdem

namespace Showdown

variable {σ : Type} [WordSource σ] {t : Table} {p : Player} {hero : Seat} {opponents : List Seat}
  {pot : Chips}

/-- A showdown of a player who competes with others is estimated by trials of their contest. -/
theorem estimate_eq {c : Contest} (s : Showdown) (fits : t.pot = .ok pot)
    (found : t.seat p = .ok hero) (active : hero.isActive = true)
    (facing : t.opponents p = .ok opponents) (some : opponents ≠ [])
    (between : Contest.between pot hero opponents t.board = .ok c) :
    (s.estimate p t : Random σ Payouts) = runTrials (s.trial c) s.trials {} := by
  have several : opponents.isEmpty = false := List.isEmpty_eq_false_iff.2 some
  funext g
  rw [estimate, fits, found]
  show (if (!hero.isActive) = true then _ else _ : Random σ Payouts) g = _
  rw [if_neg (by simp [active]), facing]
  show (if opponents.isEmpty = true then _ else _ : Random σ Payouts) g = _
  rw [if_neg (by simp [several]), between]
  rfl

/-- Nothing is estimated where the pot does not fit. -/
theorem estimate_of_spill {e : Failure} (s : Showdown) (spills : t.pot = .error e) (g : σ) :
    s.estimate p t g = .error e := by
  rw [estimate, spills]
  rfl

end Showdown

namespace Table

variable {s : Snapshot} {t t₀ : Table} {f : Flat} {actions : List Action} {p : Player}
  {hero : Seat} {hole : Hole} {opponents : List Seat}

/-- The contest of a player whose cards are known, at a table where no card is in two places. -/
theorem Shows.exists_contest (h : t.Shows f) (sound : f.Sound)
    (apart : NoCardTwice f.board (f.seats.filterMap Seat.hole)) (found : t.seat p = .ok hero)
    (held : hero.hole = some hole) (facing : t.opponents p = .ok opponents) (pot : Chips) :
    ∃ c, Contest.between pot hero opponents t.board = .ok c ∧ c.Fair ∧ c.pot = pot ∧
      c.hole = hole.cards ∧ c.board = t.board ∧
      c.opponents = opponents.map (fun seat => seat.hole.map Hole.cards) := by
  obtain ⟨mem, rfl⟩ := Flat.mem_of_seat? ((h.within_seat p).ok found)
  have others := (h.within_opponents (F := fun _ => False) sound hero.player).ok facing
  have fair := apart.within_between pot mem others.1
    (fun seat inOthers same => others.2 seat inOthers (same ▸ rfl))
  rw [← (h.answers sound).board] at fair
  cases between : Contest.between pot hero opponents t.board with
  | error e =>
    have unknown := (fair.error between).2
    rw [held] at unknown
    cases unknown
  | ok c =>
    obtain ⟨fair, pot, own, board, theirs⟩ := fair.ok between
    rw [held] at own
    exact ⟨c, rfl, fair, pot, (Option.some.inj own).symm, board, theirs⟩

/-! ## Every trial deals a consistent hand -/

/-- A player with known cards competes with others where play from an accepted snapshot leads.
Estimating the showdown finds no card in two hands. If the pot does not fit no trial takes place;
otherwise the estimate is made by trials of a contest with the player's hole, the board of the table
and the opponents' holes as far as they are known. Whatever words are drawn, the cards of a trial
complete this contest, and no payout is more than the pot. -/
theorem estimate_deals_consistently (start : Table.ofSnapshot s = .ok t₀)
    (reached : t₀.playAll actions = .ok t) (found : t.seat p = .ok hero)
    (active : hero.isActive = true) (held : hero.hole = some hole)
    (facing : t.opponents p = .ok opponents) (some : opponents ≠ []) (showdown : Showdown)
    (σ : Type) [WordSource σ] :
    (∀ (g : σ) h k, showdown.estimate p t g ≠ .error (.fault (.overlap h k))) ∧
    (∀ e, t.pot = .error e → ∀ g : σ, showdown.estimate p t g = .error e) ∧
    ∀ pot, t.pot = .ok pot → ∃ c, Contest.between pot hero opponents t.board = .ok c ∧
      c.hole = hole.cards ∧ c.board = t.board ∧
      c.opponents = opponents.map (fun seat => seat.hole.map Hole.cards) ∧
      (∀ g : σ, showdown.estimate p t g =
        Showdown.runTrials (showdown.trial c) showdown.trials {} g) ∧
      (∀ (g g' : σ) d, showdown.dealOut c g = .ok (d, g') → d.Completes c showdown.exclusive) ∧
      (∀ (g g' : σ) payout, showdown.trial c g = .ok (payout, g') → payout ≤ pot) ∧
      ∀ (g g' : σ) bag, showdown.estimate p t g = .ok (bag, g') → bag.AtMost pot := by
  obtain ⟨f, h, sound, apart⟩ := exists_shows_of_playAll start reached
  refine ⟨fun g => (h.clean_estimate apart sound showdown p g).ne_overlap,
    fun e spills g => showdown.estimate_of_spill spills g, fun pot fits => ?_⟩
  obtain ⟨c, between, fair, rfl, own, board, theirs⟩ :=
    h.exists_contest sound apart found held facing pot
  have estimate := showdown.estimate_eq (σ := σ) fits found active facing some between
  have trial := showdown.within_trial (σ := σ) fair
  refine ⟨c, between, own, board, theirs, fun g => congrFun estimate g, ?_, ?_, ?_⟩
  · intro g g' d dealt
    exact ((showdown.within_dealOut fair g).ok dealt).2
  · intro g g' payout paid
    exact ((trial g).ok paid).2
  · intro g g' bag ended
    rw [estimate] at ended
    exact ((Showdown.within_runTrials trial showdown.trials Payouts.atMost_empty g).ok ended).1

/-- A player with two aces bets before the flop, and faces a player whose cards are unknown. -/
theorem estimate_deals_consistently_aces : ∃ t₀ t hero hole opponents,
    Table.ofSnapshot aces = .ok t₀ ∧ t₀.playAll [.bet 2] = .ok t ∧ t.seat ⟨0⟩ = .ok hero ∧
    hero.hole = some hole ∧ t.opponents ⟨0⟩ = .ok opponents ∧ opponents ≠ [] ∧
    ∃ c, Contest.between 2 hero opponents t.board = .ok c ∧
      ∀ (g g' : Xoshiro) d, ({} : Showdown).dealOut c g = .ok (d, g') → d.Completes c false := by
  have dealt : ∃ t₀ t hero hole opponents, Table.ofSnapshot aces = .ok t₀ ∧
      t₀.playAll [.bet 2] = .ok t ∧ t.seat ⟨0⟩ = .ok hero ∧ hero.isActive = true ∧
      hero.hole = some hole ∧ t.opponents ⟨0⟩ = .ok opponents ∧ opponents ≠ [] ∧
      t.pot = .ok 2 :=
    ⟨_, _, _, _, _, rfl, rfl, rfl, rfl, rfl, rfl, nofun, rfl⟩
  obtain ⟨t₀, t, hero, hole, opponents, start, reached, found, active, held, facing, some, pot⟩ :=
    dealt
  obtain ⟨_, _, trials⟩ := estimate_deals_consistently start reached found active held facing some
    {} Xoshiro
  obtain ⟨c, between, _, _, _, _, completes, _⟩ := trials 2 pot
  exact ⟨t₀, t, hero, hole, opponents, start, reached, found, held, facing, some, c, between,
    completes⟩

/-! ## Whether the cards suffice -/

/-- The cards that are known at a showdown: those of the board, the player's hole and the known
holes of the opponents. -/
def cardsKnown (board : Board) (hole : Hole) (opponents : List Seat) : Nat :=
  board.size + hole.cards.size + ((opponents.filterMap Seat.hole).map
    (fun own => own.cards.size)).sum

/-- A fair contest knows as many cards as are known at its showdown. -/
theorem enough_iff {c : Contest} (fair : c.Fair) (own : c.hole = hole.cards)
    (theirs : c.opponents = opponents.map (fun seat => seat.hole.map Hole.cards))
    (showdown : Showdown) : showdown.Enough c ↔
      c.board.missing + showdown.need (opponents.countP (fun seat => seat.hole.isNone)) ≤
        52 - cardsKnown c.board hole opponents := by
  have unknown : c.opponents.countP Option.isNone =
      opponents.countP (fun seat => seat.hole.isNone) := by
    rw [theirs, List.countP_map]
    exact List.countP_congr (fun seat _ => by simp)
  have known : c.known.size = cardsKnown c.board hole opponents := by
    rw [fair.size_known, own, theirs, filterMap_holes, List.map_map, cardsKnown,
      Nat.add_comm hole.cards.size]
    rfl
  rw [Showdown.Enough, unknown, known]

/-- A player with known cards competes with others where play from an accepted snapshot leads. If
the pot fits, the deck runs out exactly if the board and the unknown holes need more cards than are
left, whatever words are drawn and whatever rule ranks the hands; and otherwise there are as many
payouts as trials. If the pot does not fit, the estimate ends in a fault. -/
theorem estimate_exhausts_iff (start : Table.ofSnapshot s = .ok t₀)
    (reached : t₀.playAll actions = .ok t) (found : t.seat p = .ok hero)
    (active : hero.isActive = true) (held : hero.hole = some hole)
    (facing : t.opponents p = .ok opponents) (some : opponents ≠ []) {showdown : Showdown}
    (trials : 1 ≤ showdown.trials) {σ : Type} [WordSource σ] (g : σ) :
    (t.previousPot + t.roundPot < 2 ^ 32 →
      ((∃ needed left, showdown.estimate p t g = .error (.defect (.deckExhausted needed left))) ↔
        52 - cardsKnown t.board hole opponents <
          t.board.missing + showdown.need (opponents.countP (fun seat => seat.hole.isNone))) ∧
      (¬ 52 - cardsKnown t.board hole opponents <
          t.board.missing + showdown.need (opponents.countP (fun seat => seat.hole.isNone)) →
        ∃ bag g', showdown.estimate p t g = .ok (bag, g') ∧ bag.size = showdown.trials)) ∧
    (2 ^ 32 ≤ t.previousPot + t.roundPot →
      showdown.estimate p t g = .error (.fault .addOverflow)) := by
  obtain ⟨f, h, sound, apart⟩ := exists_shows_of_playAll start reached
  constructor
  · intro fits
    have pot : t.pot = .ok (t.previousPot + t.roundPot) := addChips_eq_ok_iff.2 ⟨rfl, fits⟩
    obtain ⟨c, between, fair, _, own, board, theirs⟩ :=
      h.exists_contest sound apart found held facing (t.previousPot + t.roundPot)
    have enough := enough_iff fair own theirs showdown
    have ends := Showdown.within_runTrials (showdown.within_trial (σ := σ) fair) showdown.trials
      Payouts.atMost_empty g
    rw [← showdown.estimate_eq pot found active facing some between] at ends
    rw [← board, ← not_le, ← enough, not_not]
    cases ended : showdown.estimate p t g with
    | error e =>
      obtain ⟨⟨needed, left, rfl⟩, short⟩ := ends.error ended
      exact ⟨iff_of_true ⟨needed, left, rfl⟩ short, fun cards => absurd cards short⟩
    | ok result =>
      obtain ⟨_, size, cards⟩ := ends.ok ended
      refine ⟨iff_of_false nofun (not_not.2 (cards trials)), fun _ => ⟨result.1, result.2, rfl, ?_⟩⟩
      rw [size]
      exact Nat.zero_add _
  · exact fun spills => showdown.estimate_of_spill (addChips_eq_fault spills) g

-- before the flop one deck has cards for 22 opponents but not for 23
example : ¬ 52 - 2 < 5 + ({ exclusive := true } : Showdown).need 22 ∧
    52 - 2 < 5 + ({ exclusive := true } : Showdown).need 23 := by decide

/-- The river with both holes known, and a pot of earlier rounds. -/
def river (pot : Chips) : Snapshot where
  seats := [
    { player := ⟨0⟩, stack := 9, stake := 1, hole := some ⟨Hand.ofCards [⟨.two, .clubs⟩,
      ⟨.three, .diamonds⟩], by decide⟩ },
    { player := ⟨1⟩, stack := 8, stake := 2, hole := some ⟨Hand.ofCards [⟨.king, .clubs⟩,
      ⟨.ace, .spades⟩], by decide⟩ }]
  board := ⟨Hand.ofCards [⟨.king, .spades⟩, ⟨.king, .hearts⟩, ⟨.king, .diamonds⟩, ⟨.nine, .spades⟩,
    ⟨.eight, .spades⟩], by decide⟩
  pot := pot
  street := .showdown
  dealer := ⟨1⟩

/-- Nothing has to be dealt on the river, so there are as many payouts as trials. -/
theorem estimate_exhausts_iff_river : ∃ t, Table.ofSnapshot (river 300) = .ok t ∧
    ∀ g : Xoshiro, ∃ bag g', ({} : Showdown).estimate ⟨0⟩ t g = .ok (bag, g') ∧ bag.size = 20 := by
  have dealt : ∃ t hero hole opponents, Table.ofSnapshot (river 300) = .ok t ∧
      t.playAll [] = .ok t ∧ t.seat ⟨0⟩ = .ok hero ∧ hero.isActive = true ∧
      hero.hole = some hole ∧ t.opponents ⟨0⟩ = .ok opponents ∧ opponents ≠ [] ∧
      t.previousPot + t.roundPot < 2 ^ 32 ∧ ¬ 52 - cardsKnown t.board hole opponents <
        t.board.missing + ({} : Showdown).need (opponents.countP (fun seat => seat.hole.isNone)) :=
    ⟨_, _, _, _, rfl, rfl, rfl, rfl, rfl, rfl, nofun, by decide, by decide⟩
  obtain ⟨t, hero, hole, opponents, start, reached, found, active, held, facing, some, fits,
    enough⟩ := dealt
  exact ⟨t, start, fun g => ((estimate_exhausts_iff start reached found active held facing some
    (by decide) g).1 fits).2 enough⟩

/-- With a pot that is no amount of chips the deck does not run out, and there are no payouts
either: the estimate is a fault. -/
theorem estimate_faults_on_river : ∃ t hero hole opponents,
    Table.ofSnapshot (river (2 ^ 32 - 1)) = .ok t ∧ t.playAll [] = .ok t ∧ t.seat ⟨0⟩ = .ok hero ∧
    hero.isActive = true ∧ hero.hole = some hole ∧ t.opponents ⟨0⟩ = .ok opponents ∧
    opponents ≠ [] ∧ ¬ 52 - cardsKnown t.board hole opponents <
      t.board.missing + ({} : Showdown).need (opponents.countP (fun seat => seat.hole.isNone)) ∧
    ∀ g : Xoshiro, ({} : Showdown).estimate ⟨0⟩ t g = .error (.fault .addOverflow) ∧
      ¬ ∃ bag g', ({} : Showdown).estimate ⟨0⟩ t g = .ok (bag, g') ∧ bag.size = 20 := by
  have dealt : ∃ t hero hole opponents, Table.ofSnapshot (river (2 ^ 32 - 1)) = .ok t ∧
      t.playAll [] = .ok t ∧ t.seat ⟨0⟩ = .ok hero ∧ hero.isActive = true ∧
      hero.hole = some hole ∧ t.opponents ⟨0⟩ = .ok opponents ∧ opponents ≠ [] ∧
      (¬ 52 - cardsKnown t.board hole opponents <
        t.board.missing + ({} : Showdown).need (opponents.countP (fun seat => seat.hole.isNone))) ∧
      t.pot = .error (.fault .addOverflow) :=
    ⟨_, _, _, _, rfl, rfl, rfl, rfl, rfl, rfl, nofun, by decide, rfl⟩
  obtain ⟨t, hero, hole, opponents, start, reached, found, active, held, facing, some, enough,
    spills⟩ := dealt
  refine ⟨t, hero, hole, opponents, start, reached, found, active, held, facing, some, enough,
    fun g => ⟨Showdown.estimate_of_spill {} spills g, ?_⟩⟩
  rintro ⟨bag, g', ended, _⟩
  rw [Showdown.estimate_of_spill {} spills g] at ended
  cases ended

end Table

end Holdem
