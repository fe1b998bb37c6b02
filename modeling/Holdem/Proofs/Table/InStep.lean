import Holdem.Betting.Sizing
import Holdem.Proofs.Concurrence
import Holdem.Table.Play

/-!
# Tables that stay in step

Two tables at which the betting stands alike need not be equal: their events, the places of their
seats and the cards of some seats may differ. If a relation of such tables is kept by every event,
it is kept by every action. Both tables accept the action or both refuse it, and a refusal differs
at most in the text of the table it quotes.
-/

set_option autoImplicit false

namespace Holdem

namespace Table

/-- Both tables offer the same player the same actions, and the turn passes on alike. -/
structure SameTurns (t u : Table) : Prop where
  street : u.street = t.street
  nextToAct : u.nextToAct = t.nextToAct
  nextAfter : u.nextAfter = t.nextAfter
  isAllowed : u.isAllowed = t.isAllowed
  isRoundOver : u.isRoundOver = t.isRoundOver
  isHandOver : u.isHandOver = t.isHandOver

/-- Both tables answer everything alike that is asked about the betting, as a whole or of a
player. -/
structure SameBetting (t u : Table) : Prop extends SameTurns t u where
  dealer : u.dealer = t.dealer
  bigBlind : u.bigBlind = t.bigBlind
  board : u.board = t.board
  previousPot : u.previousPot = t.previousPot
  roundPot : u.roundPot = t.roundPot
  pot : u.pot = t.pot
  largestBet : u.largestBet = t.largestBet
  minRaise : u.minRaise = t.minRaise
  raises : u.raises = t.raises
  lastBettor : u.lastBettor = t.lastBettor
  activeCount : u.activeCount = t.activeCount
  actionableCount : u.actionableCount = t.actionableCount
  deficit : u.deficit = t.deficit
  stake : u.stake = t.stake
  isActive : u.isActive = t.isActive
  isActionable : u.isActionable = t.isActionable
  hasActed : u.hasActed = t.hasActed
  actor : u.actor = t.actor
  toCall : u.toCall = t.toCall
  mayRaise : u.mayRaise = t.mayRaise
  passive : u.passive = t.passive
  legal : u.legal = t.legal
  candidates : ∀ sizing : Sizing, sizing.candidates u = sizing.candidates t

/-- A relation that every event keeps, between tables at which the turns stand alike. Failures go
together if they are the same but for what a refusal quotes. -/
structure InStep (F : Failure → Failure → Prop) (R : Table → Table → Prop) : Prop where
  refl : ∀ e, F e e
  quoted : ∀ t u, R t u → Outcome.Concurs F (fun text text' => ∀ a p,
    F (.defect (.illegal (.notAllowed a p text))) (.defect (.illegal (.notAllowed a p text'))))
    t.text u.text
  turns : ∀ t u, R t u → t.SameTurns u
  event : ∀ t u e, R t u → Outcome.Concurs F R (t.apply e) (u.apply e)

namespace InStep

variable {F : Failure → Failure → Prop} {R : Table → Table → Prop} {t u : Table}

/-- Tables in step stay so while streets without betting are dealt. -/
theorem settle (step : InStep F R) (streets : Nat) (h : R t u) :
    Outcome.Concurs F R (t.settle streets) (u.settle streets) := by
  induction streets generalizing t u with
  | zero => exact h
  | succ streets ih =>
    have same := step.turns t u h
    rw [Table.settle, Table.settle, same.isHandOver, same.isRoundOver, same.street]
    by_cases stop : (t.isHandOver || !t.isRoundOver) = true
    · rw [if_pos stop, if_pos stop]
      exact h
    · rw [if_neg stop, if_neg stop]
      cases t.street.next with
      | error e => exact step.refl e
      | ok street =>
        exact (step.event t u (.round street Hand.empty) h).bind (fun _ _ _ _ after => ih after)

/-- Tables in step stay so when a round is closed. -/
theorem close (step : InStep F R) (h : R t u) : Outcome.Concurs F R t.close u.close := by
  rw [Table.close, Table.close, (step.turns t u h).street]
  exact step.settle _ h

/-- Both tables play an action or both refuse it. -/
theorem play (step : InStep F R) (h : R t u) (a : Action) :
    Outcome.Concurs F R (t.play a) (u.play a) := by
  have same := step.turns t u h
  rw [Table.play, Table.play, same.nextToAct, same.isAllowed]
  cases t.nextToAct with
  | none => exact step.refl _
  | some p =>
    cases t.isAllowed a with
    | error e => exact step.refl e
    | ok allowed =>
      cases allowed with
      | false => exact (step.quoted t u h).bind (fun _ _ _ _ quoted => quoted a p)
      | true =>
        refine (step.event t u (a.event p) h).bind (fun moved moved' _ _ after => ?_)
        have same := step.turns moved moved' after
        rw [same.isRoundOver, same.nextAfter]
        by_cases ended : moved.isRoundOver = true
        · rw [if_pos ended, if_pos ended]
          exact step.close after
        · rw [if_neg ended, if_neg ended]
          cases moved.nextAfter p with
          | none => exact step.refl _
          | some q => exact step.event moved moved' (.turn q) after

/-- Tables in step stay so over any actions. -/
theorem playAll (step : InStep F R) (h : R t u) (actions : List Action) :
    Outcome.Concurs F R (t.playAll actions) (u.playAll actions) :=
  Outcome.concurs_foldlM (fun _ _ a before => step.play before a) actions h

end InStep

end Table

end Holdem
