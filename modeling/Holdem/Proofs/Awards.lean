import Holdem.Proofs.Hand.MoreCards
import Holdem.Proofs.Hand.Order
import Holdem.Proofs.Showdown

/-!
# What is paid when every card is known

With the whole board open and every hole known nothing is dealt, so all trials pay the same. The
loop over the opponents ends early, but what it pays depends only on whether an opponent is stronger
and on how many are as strong, not on their order.
-/

set_option autoImplicit false

namespace Holdem

/-! ## All cards are known -/

namespace Showdown

variable {σ : Type} [WordSource σ] (s : Showdown)

/-- Holes that are all known are dealt without a draw. -/
theorem dealHoles_of_known {places : List (Option Hand)} {holes : List Hand}
    (known : places = holes.map some) (d : Deck) :
    (s.dealHoles places d : Random σ (List Hand)) = pure holes := by
  subst known
  induction holes generalizing d with
  | nil => rfl
  | cons hole holes ih =>
    rw [List.map_cons, dealHoles, ih]
    rfl

/-- With five cards on the board and every hole known there is one way to deal. -/
theorem dealOut_of_known {c : Contest} {holes : List Hand} (full : c.board.size = 5)
    (known : c.opponents = holes.map some) :
    (s.dealOut c : Random σ Deal) = pure ⟨c.board.cards, holes⟩ := by
  have nothing : c.board.missing = 0 := by rw [Board.missing, full]
  have joined : c.board.cards.join Hand.empty = .ok c.board.cards := by
    rw [Hand.join_eq_ok (Hand.Apart.symm (fun card mem => absurd mem (Hand.not_mem_empty card))),
      Hand.union_empty]
  have drawn : (deal 0 (Deck.without c.known) : Random σ (Hand × Deck)) =
      pure (Hand.empty, Deck.without c.known) := rfl
  rw [dealOut, nothing, drawn, pure_bind]
  dsimp only
  rw [joined, s.dealHoles_of_known known]
  rfl

omit [WordSource σ] in
/-- Trials that all pay the same fill the bag with their one payout. -/
theorem runTrials_of_pure {trial : Random σ Chips} {payout : Chips} (same : trial = pure payout)
    (n : Nat) (bag : Payouts) :
    runTrials trial n bag = pure ((List.replicate n payout).foldl Payouts.add bag) := by
  subst same
  induction n generalizing bag with
  | zero => rfl
  | succ n ih =>
    rw [List.replicate_succ, List.foldl_cons, ← ih]
    rfl

/-! ## The loop over the opponents -/

/-- What is paid to each of some players who have the strongest hand. -/
def prize (pot : Chips) (winners : Nat) : Chips :=
  if s.splitPots then pot / winners else if winners = 1 then pot else 0

/-- Whether an opponent's hole keeps a player from being paid: it is stronger, or cannot be
ranked. -/
def denies (hero : Strength) (board hole : Hand) : Bool :=
  (s.judge (hole.union board)).all (fun villain => villain.compare hero = .gt)

/-- Whether an opponent's hole ties with a player's hand. -/
def ties (hero : Strength) (board hole : Hand) : Bool :=
  (s.judge (hole.union board)).any (fun villain => villain.compare hero = .eq)

/-- With nobody left to beat, the prize is shared with those who tied. -/
theorem payout_nil (pot : Chips) (hero : Strength) (board : Hand) (ties : Nat) :
    s.payout pot hero board ties [] = .ok (s.prize pot (ties + 1)) := by
  cases ties with
  | zero =>
    rw [payout, prize, if_pos rfl, Nat.div_one, ite_self]
  | succ ties =>
    show Except.ok (if s.splitPots then pot / (ties + 2) else 0) = _
    rw [prize, if_neg (show ¬ ties + 1 + 1 = 1 by lia)]

/-- A player is paid nothing if an opponent is stronger, and otherwise the prize of all who tie. -/
theorem payout_eq {pot : Chips} {hero : Strength} {board : Hand} {ties : Nat} {holes : List Hand}
    (apart : ∀ hole ∈ holes, hole.Apart board) :
    s.payout pot hero board ties holes = .ok (if holes.any (s.denies hero board) then 0
      else s.prize pot (ties + holes.countP (s.ties hero board) + 1)) := by
  induction holes generalizing ties with
  | nil => exact s.payout_nil pot hero board ties
  | cons hole holes ih =>
    have later := fun ties => @ih ties (fun h mem => apart h (List.mem_cons_of_mem hole mem))
    have joined : hole.join board = pure (hole.union board) :=
      Hand.join_eq_ok (apart hole List.mem_cons_self)
    -- the order of strengths stays closed: its numbers are too large to compute with here
    obtain ⟨order, same⟩ : ∃ order, Strength.compare = order := ⟨_, rfl⟩
    have denies : s.denies hero board hole =
        (s.judge (hole.union board)).all (fun villain => order villain hero = .gt) := same ▸ rfl
    have ties' : s.ties hero board hole =
        (s.judge (hole.union board)).any (fun villain => order villain hero = .eq) := same ▸ rfl
    rw [List.any_cons, List.countP_cons, denies, ties', payout, joined, pure_bind, same]
    cases s.judge (hole.union board) with
    | none => rfl
    | some villain =>
      dsimp only
      rw [Option.all_some, Option.any_some]
      cases order villain hero with
      | gt => rfl
      | eq =>
        show s.payout pot hero board (ties + 1) holes = _
        rw [later]
        simp only [reduceCtorEq, decide_false, Bool.false_or, decide_true, if_true]
        rw [Nat.add_right_comm ties, Nat.add_assoc ties]
      | lt =>
        show s.payout pot hero board ties holes = _
        rw [later]
        simp only [reduceCtorEq, decide_false, Bool.false_or, Bool.false_eq_true, if_false,
          Nat.add_zero]

/-- With every card known, a trial pays nothing if an opponent denies it and otherwise the prize of
the player and all who tie. -/
theorem trial_of_known {c : Contest} {holes : List Hand} {hero : Strength} (fair : c.Fair)
    (full : c.board.size = 5) (known : c.opponents = holes.map some)
    (ranked : s.judge (c.hole.union c.board.cards) = some hero) :
    (s.trial c : Random σ Chips) = pure (if holes.any (s.denies hero c.board.cards) then 0
      else s.prize c.pot (holes.countP (s.ties hero c.board.cards) + 1)) := by
  have apart : ∀ hole ∈ holes, hole.Apart c.board.cards := fun hole mem =>
    fair.opponent_board hole (known ▸ List.mem_map_of_mem mem)
  have award : s.award c ⟨c.board.cards, holes⟩ =
      s.payout c.pot hero c.board.cards 0 holes := by
    have joined : c.hole.join c.board.cards = pure (c.hole.union c.board.cards) :=
      Hand.join_eq_ok fair.hole_board
    rw [award, joined, pure_bind, ranked]
  rw [trial, s.dealOut_of_known full known, pure_bind, award, s.payout_eq apart, Nat.zero_add]
  rfl

end Showdown

end Holdem
