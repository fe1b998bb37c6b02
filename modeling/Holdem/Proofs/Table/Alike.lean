import Holdem.Proofs.Table.InStep
import Holdem.Proofs.Table.Simulation

/-!
# Tables that cannot be told apart

Two tables are alike if they have the same ledger and the same seats, whatever events led to them.
All that is asked of a table is read from its ledger and its seats, except for the events
themselves. So alike tables give the same answers; they also accept the same events and actions,
refuse the others in the same words, and are alike again afterwards.
-/

set_option autoImplicit false

namespace Holdem

namespace Table

variable {t u : Table}

/-- Two tables with the same ledger on which the same seats are found. -/
structure Alike (t u : Table) : Prop where
  ledger : t.ledger = u.ledger
  walk : ∀ p, seatAlong p t.seated t.links = seatAlong p u.seated u.links
  dealer : t.dealer = u.dealer
  bigBlind : t.bigBlind = u.bigBlind

/-- A table is like itself. -/
theorem Alike.refl (t : Table) : t.Alike t := ⟨rfl, fun _ => rfl, rfl, rfl⟩

/-- Tables that show one flat table are alike. -/
theorem Shows.alike {f : Flat} (h : t.Shows f) (h' : u.Shows f) : t.Alike u where
  ledger := h.ledger.trans h'.ledger.symm
  walk := fun p => (h.walk p).trans (h'.walk p).symm
  dealer := h.dealer.trans h'.dealer.symm
  bigBlind := h.bigBlind.trans h'.bigBlind.symm

/-- All answers of two tables agree, but for those about the events behind them. -/
structure SameAnswers (t u : Table) : Prop where
  seat : t.seat = u.seat
  seats : t.seats = u.seats
  opponents : t.opponents = u.opponents
  unseen : t.unseen = u.unseen
  dealer : t.dealer = u.dealer
  bigBlind : t.bigBlind = u.bigBlind
  street : t.street = u.street
  board : t.board = u.board
  previousPot : t.previousPot = u.previousPot
  roundPot : t.roundPot = u.roundPot
  pot : t.pot = u.pot
  largestBet : t.largestBet = u.largestBet
  minRaise : t.minRaise = u.minRaise
  raises : t.raises = u.raises
  nextToAct : t.nextToAct = u.nextToAct
  lastBettor : t.lastBettor = u.lastBettor
  activeCount : t.activeCount = u.activeCount
  actionableCount : t.actionableCount = u.actionableCount
  deficit : t.deficit = u.deficit
  stake : t.stake = u.stake
  isActive : t.isActive = u.isActive
  isActionable : t.isActionable = u.isActionable
  hasActed : t.hasActed = u.hasActed
  position? : t.position? = u.position?
  nextAfter : t.nextAfter = u.nextAfter
  isRoundOver : t.isRoundOver = u.isRoundOver
  isHandOver : t.isHandOver = u.isHandOver
  text : t.text = u.text
  actor : t.actor = u.actor
  toCall : t.toCall = u.toCall
  mayRaise : t.mayRaise = u.mayRaise
  passive : t.passive = u.passive
  legal : t.legal = u.legal
  isAllowed : t.isAllowed = u.isAllowed
  candidates : ∀ sizing : Sizing, sizing.candidates t = sizing.candidates u

/-! ## Answers -/

namespace Alike

/-- Alike tables have the same seats for the players. -/
theorem seat (h : t.Alike u) : t.seat = u.seat := by
  funext p
  rw [Table.seat, Table.seat, h.walk]

/-- Alike tables are on the same street. -/
theorem street (h : t.Alike u) : t.street = u.street := by
  rw [Table.street, Table.street, h.ledger]

/-- Alike tables have the same board. -/
theorem board (h : t.Alike u) : t.board = u.board := by
  rw [Table.board, Table.board, h.ledger]

/-- Alike tables carry the same pot from earlier rounds. -/
theorem previousPot (h : t.Alike u) : t.previousPot = u.previousPot := by
  rw [Table.previousPot, Table.previousPot, h.ledger]

/-- Alike tables have the same pot in the round. -/
theorem roundPot (h : t.Alike u) : t.roundPot = u.roundPot := by
  rw [Table.roundPot, Table.roundPot, h.ledger]

/-- Alike tables have the same pot. -/
theorem pot (h : t.Alike u) : t.pot = u.pot := by
  rw [Table.pot, Table.pot, h.previousPot, h.roundPot]

/-- Alike tables have the same largest bet. -/
theorem largestBet (h : t.Alike u) : t.largestBet = u.largestBet := by
  rw [Table.largestBet, Table.largestBet, h.ledger]

/-- Alike tables have the same minimum raise. -/
theorem minRaise (h : t.Alike u) : t.minRaise = u.minRaise := by
  rw [Table.minRaise, Table.minRaise, h.ledger]

/-- Alike tables have the same least amount to bet or raise to. -/
theorem minimum (h : t.Alike u) : t.minimum = u.minimum := by
  rw [Table.minimum, Table.minimum, h.minRaise]

/-- Alike tables have seen the same number of raises. -/
theorem raises (h : t.Alike u) : t.raises = u.raises := by
  rw [Table.raises, Table.raises, h.ledger]

/-- Alike tables wait for the same player. -/
theorem nextToAct (h : t.Alike u) : t.nextToAct = u.nextToAct := by
  rw [Table.nextToAct, Table.nextToAct, h.ledger]

/-- Alike tables have the same deficits. -/
theorem deficit (h : t.Alike u) : t.deficit = u.deficit := by
  funext p
  rw [Table.deficit, Table.deficit, h.ledger]

/-- Alike tables have the same order of play. -/
theorem nextAfter (h : t.Alike u) : t.nextAfter = u.nextAfter := by
  funext p
  rw [Table.nextAfter, Table.nextAfter, h.ledger]

/-- The round is over at both of two alike tables or at neither. -/
theorem isRoundOver (h : t.Alike u) : t.isRoundOver = u.isRoundOver := by
  rw [Table.isRoundOver, Table.isRoundOver, h.ledger]

/-- The hand is over at both of two alike tables or at neither. -/
theorem isHandOver (h : t.Alike u) : t.isHandOver = u.isHandOver := by
  rw [Table.isHandOver, Table.isHandOver, h.ledger]

/-- Alike tables list the same seats. -/
theorem seats (h : t.Alike u) : t.seats = u.seats := by
  rw [Table.seats, Table.seats, h.ledger, h.seat]

/-- Alike tables have the same actor, or the same reason to have none. -/
theorem actor (h : t.Alike u) : t.actor = u.actor := by
  rw [Table.actor, Table.actor, h.nextToAct, h.seat]

/-- Alike tables ask for the same amount to call. -/
theorem toCall (h : t.Alike u) : t.toCall = u.toCall := by
  rw [Table.toCall, Table.toCall, h.nextToAct, h.deficit]

/-- Alike tables leave the same room to raise. -/
theorem mayRaise (h : t.Alike u) : t.mayRaise = u.mayRaise := by
  have same : t.mayRaiseFrom = u.mayRaiseFrom := by
    funext seat
    rw [mayRaiseFrom, mayRaiseFrom, h.deficit, h.nextAfter]
  rw [Table.mayRaise, Table.mayRaise, actor?, actor?, h.actor, same]

/-- Alike tables print alike. -/
theorem text (h : t.Alike u) : t.text = u.text := by
  rw [Table.text, Table.text, h.pot, h.seats, h.nextToAct, h.street, h.board, h.previousPot,
    h.roundPot, h.raises]

/-- Alike tables have the same legal moves. -/
theorem legal (h : t.Alike u) : t.legal = u.legal := by
  rw [Table.legal, Table.legal, actor?, actor?, h.actor, h.deficit, h.mayRaise, h.largestBet,
    h.minimum]

/-- Alike tables allow the same actions. -/
theorem isAllowed (h : t.Alike u) : t.isAllowed = u.isAllowed := by
  funext a
  rw [Table.isAllowed, Table.isAllowed, actor?, actor?, h.actor, h.deficit, h.mayRaise,
    h.largestBet, h.minimum]

/-- Alike tables have the same candidate actions. -/
theorem candidates (h : t.Alike u) (sizing : Sizing) :
    sizing.candidates t = sizing.candidates u := by
  rw [Sizing.candidates, Sizing.candidates, actor?, actor?, h.actor, h.deficit, h.mayRaise,
    h.raises, h.pot, h.minimum, h.largestBet]

/-- Alike tables answer alike. -/
theorem sameAnswers (h : t.Alike u) : t.SameAnswers u where
  seat := h.seat
  seats := h.seats
  opponents := by funext p; rw [opponents, opponents, h.seats]
  unseen := by funext p; rw [unseen, unseen, h.seat, h.board]
  dealer := h.dealer
  bigBlind := h.bigBlind
  street := h.street
  board := h.board
  previousPot := h.previousPot
  roundPot := h.roundPot
  pot := h.pot
  largestBet := h.largestBet
  minRaise := h.minRaise
  raises := h.raises
  nextToAct := h.nextToAct
  lastBettor := by rw [lastBettor, lastBettor, h.ledger]
  activeCount := by rw [activeCount, activeCount, h.ledger]
  actionableCount := by rw [actionableCount, actionableCount, h.ledger]
  deficit := h.deficit
  stake := by funext p; rw [stake, stake, h.ledger]
  isActive := by funext p; rw [isActive, isActive, h.ledger]
  isActionable := by funext p; rw [isActionable, isActionable, h.ledger]
  hasActed := by funext p; rw [hasActed, hasActed, h.ledger]
  position? := by funext p; rw [position?, position?, h.ledger]
  nextAfter := h.nextAfter
  isRoundOver := h.isRoundOver
  isHandOver := h.isHandOver
  text := h.text
  actor := h.actor
  toCall := h.toCall
  mayRaise := h.mayRaise
  passive := by rw [passive, passive, h.toCall]
  legal := h.legal
  isAllowed := h.isAllowed
  candidates := h.candidates

/-! ## Events -/

/-- Alike tables refuse an event out of place with the same words. -/
theorem outOfPlace {α : Type} (h : t.Alike u) (e : Event) :
    (t.outOfPlace e : Outcome α) = u.outOfPlace e := by
  rw [Table.outOfPlace, Table.outOfPlace, h.pot, h.street]

/-- Alike tables ask the same of a player who would move. -/
theorem due (h : t.Alike u) (p : Player) : t.due p = u.due p := by
  rw [Table.due, Table.due, h.seat, h.nextToAct]

/-- The same link makes alike tables of alike tables. -/
theorem extend (h : t.Alike u) (e : Event) (change : Change) (ledger : Ledger) :
    (t.extend e change ledger).Alike (u.extend e change ledger) where
  ledger := rfl
  walk := by
    intro p
    show seatAlong p t.seated (⟨e, change, ledger⟩ :: t.links) =
      seatAlong p u.seated (⟨e, change, ledger⟩ :: u.links)
    cases change <;> simp only [seatAlong, h.walk]
  dealer := h.dealer
  bigBlind := h.bigBlind

/-- A wager leaves alike tables alike, or both refuse it for the same reason. -/
theorem wager (h : t.Alike u) (e : Event) (seat : Seat) (n : Chips) :
    Outcome.Matches Alike (t.wager e seat n) (u.wager e seat n) := by
  rw [Table.wager, Table.wager, h.ledger]
  exact (Outcome.matches_refl (fun _ => rfl) _).bind (fun after _ same =>
    same ▸ h.extend e (.one after.2) after.1)

/-- An event that is refused by alike tables is refused for the same reason, and one that is
accepted makes them alike again. -/
theorem guarded (h : t.Alike u) (e : Event) {guard : Prop} [Decidable guard] {x y : Outcome Table}
    (accepted : Outcome.Matches Alike x y) :
    Outcome.Matches Alike (if guard then t.outOfPlace e else x)
      (if guard then u.outOfPlace e else y) := by
  by_cases refused : guard
  · rw [if_pos refused, if_pos refused, h.outOfPlace]
    exact Outcome.matches_refl Alike.refl _
  · rwa [if_neg refused, if_neg refused]

/-- A move leaves alike tables alike, or both refuse it for the same reason. -/
theorem applyMove (h : t.Alike u) (p : Player) (m : Move) :
    Outcome.Matches Alike (t.applyMove p m) (u.applyMove p m) := by
  rw [Table.applyMove, Table.applyMove, h.due, h.deficit, h.largestBet, h.minRaise, h.ledger]
  refine (Outcome.matches_refl (fun _ => rfl) _).bind ?_
  rintro seat _ rfl
  cases m with
  | check => exact h.guarded _ (h.extend _ .none _)
  | call => exact h.wager _ seat _
  | bet n => exact h.guarded _ (h.wager _ seat n)
  | raise n =>
    refine (Outcome.matches_refl (fun _ => rfl) _).bind ?_
    rintro sum _ rfl
    exact h.guarded _ (h.wager _ seat sum)
  | allIn => exact h.guarded _ (h.wager _ seat _)
  | fold => exact h.extend _ (.one seat.fold) _

/-- Passing the turn leaves alike tables alike, or both refuse it for the same reason. -/
theorem applyTurn (h : t.Alike u) (p : Player) :
    Outcome.Matches Alike (t.applyTurn p) (u.applyTurn p) := by
  rw [Table.applyTurn, Table.applyTurn, h.ledger]
  cases u.ledger.row? p with
  | none => rfl
  | some row =>
    by_cases live : row.live = true
    · simp only [if_pos live]
      exact h.extend (.turn p) .none _
    · simp only [if_neg live, h.outOfPlace]
      exact Outcome.matches_refl Alike.refl _

/-- A new round leaves alike tables alike, or both refuse it for the same reason. -/
theorem applyRound (h : t.Alike u) (street : Street) (cards : Hand) :
    Outcome.Matches Alike (t.applyRound street cards) (u.applyRound street cards) := by
  rw [Table.applyRound, Table.applyRound, h.street, h.board, h.seats, h.ledger, h.dealer,
    h.bigBlind]
  refine h.guarded _ ?_
  cases u.board.reveal cards with
  | error cause => rfl
  | ok board =>
    refine h.guarded _ ?_
    refine (Outcome.matches_refl (fun _ => rfl) _).bind ?_
    rintro seats _ rfl
    refine (Outcome.matches_refl (fun _ => rfl) _).bind ?_
    rintro ledger _ rfl
    exact h.extend _ (.all _) ledger

/-- One event of alike tables. -/
theorem apply (h : t.Alike u) (e : Event) : Outcome.Matches Alike (t.apply e) (u.apply e) := by
  cases e with
  | move p m => exact h.applyMove p m
  | turn p => exact h.applyTurn p
  | round street cards => exact h.applyRound street cards

/-! ## Actions -/

/-- Alike tables stay in step, and their refusals are the same word for word. -/
theorem inStep : InStep Eq Alike where
  refl := fun _ => rfl
  quoted := by
    intro t u h
    rw [h.text]
    exact (Outcome.concurs_rfl (fun _ => rfl) _).mono (fun _ _ _ _ => id)
      (fun _ _ _ _ same a p => same ▸ rfl)
  turns := fun _ _ h => ⟨h.street.symm, h.nextToAct.symm, h.nextAfter.symm, h.isAllowed.symm,
    h.isRoundOver.symm, h.isHandOver.symm⟩
  event := fun _ _ e h => Outcome.concurs_eq_iff.2 (h.apply e)

/-- The same events leave alike tables alike, or both refuse them for the same reason. -/
theorem run (h : t.Alike u) (events : List Event) :
    Outcome.Matches Alike (t.run events) (u.run events) :=
  Outcome.matches_foldlM (fun _ _ e alike => alike.apply e) events h

/-- The same actions leave alike tables alike, or both refuse them for the same reason. -/
theorem playAll (h : t.Alike u) (actions : List Action) :
    Outcome.Matches Alike (t.playAll actions) (u.playAll actions) :=
  Outcome.concurs_eq_iff.1 (inStep.playAll h actions)

end Alike

end Table

end Holdem
