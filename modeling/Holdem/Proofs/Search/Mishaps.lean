import Holdem.Proofs.Betting.Candidates
import Holdem.Proofs.Table.Cards
import Holdem.Search.Node

/-!
# What can go wrong at a table of a search

A search can be in want of cards, an amount may not fit, and a model of an opponent may end in a
fault of its own. Leaves, and choices that are cut for want of time, have a value unless one of
these happens: the stack of the searching player and a part of the pot.
-/

set_option autoImplicit false

namespace Holdem

variable {σ α : Type} [Scalar α]

/-- What can go wrong in a search with a budget of tokens when it comes to a table. -/
inductive Context.Mishap (ctx : Context σ α) (tokens : Nat) (t : Table) : Failure → Prop
  | cards {failure : Failure} (want : WantOfCards ctx.bot failure) : ctx.Mishap tokens t failure
  | chips (spill : chipLimit ≤ t.previousPot + t.roundPot + t.chipsBehind) :
      ctx.Mishap tokens t (.fault .addOverflow)
  | raises (spill : countLimit ≤ t.raises + 1) : ctx.Mishap tokens t (.fault .addOverflow)
  | sizes {p : Player} (due : t.nextToAct = some p) (spill : ¬ ctx.sizing.Fits t p) :
      ctx.Mishap tokens t (.fault .addOverflow)
  | tokens (split : ctx.sampling.split = .proportional)
      (spill : countLimit ≤ tokens * max ctx.sampling.samples 1) :
      ctx.Mishap tokens t (.fault .mulOverflow)
  /-- The model of an opponent who is due ends in a fault when asked about a candidate. -/
  | model {p : Player} {a : Action} {actions : List Action} {cause : Fault}
      (due : t.nextToAct = some p) (other : p ≠ ctx.bot)
      (listed : ctx.sizing.candidates t = .ok actions) (mem : a ∈ actions)
      (ends : (ctx.book.model p).probability p a t actions = .error (.fault cause)) :
      ctx.Mishap tokens t (.fault cause)

variable {ctx : Context σ α} {t : Table} {f : Flat} {hero : Seat} {budget : Nat}

/-- The pot of a sound table is what is carried and what is staked, or it overflows, which is a
mishap. -/
theorem Table.Shows.within_pot (h : t.Shows f) (sound : f.Sound) :
    Outcome.Within (ctx.Mishap budget t) (fun pot => pot = f.carried + f.staked) t.pot := by
  have answers := h.answers sound
  rw [answers.pot]
  refine (Outcome.within_addChips _ _).mono ?_ (fun _ => id)
  rintro _ ⟨rfl, large⟩
  refine .chips (large.trans ?_)
  rw [answers.previousPot, answers.roundPot]
  exact Nat.le_add_right _ _

/-- The value of a leaf is the stack of the searching player and nothing, the pot, or the mean of
payouts that are no more than the pot. -/
theorem Table.Shows.within_resolve [SeededSource σ] {l : Leaf α} (h : l.table.Shows f)
    (sound : f.Sound) (apart : NoCardTwice f.board (f.seats.filterMap Seat.hole))
    (found : f.seat? ctx.bot = some hero) :
    Outcome.Within (ctx.Mishap budget l.table) (fun value =>
      value = Scalar.ofNat hero.stack ∨
        value = Scalar.ofNat hero.stack + Scalar.ofNat (f.carried + f.staked) ∨
        ∃ bag : Payouts, bag.AtMost (f.carried + f.staked) ∧
          value = Scalar.ofNat hero.stack + bag.mean?.getD (Scalar.ofNat 0)) (l.resolve ctx) := by
  have showdown : Outcome.Within (ctx.Mishap budget l.table)
      (fun ended : Payouts × σ => ended.1.AtMost (f.carried + f.staked))
      ((ctx.showdown.estimate ctx.bot l.table).run (SeededSource.ofSeed l.seed : σ)) := by
    refine (h.within_estimate apart sound ctx.showdown ctx.bot
      (SeededSource.ofSeed l.seed : σ)).mono ?_ (fun _ => id)
    rintro e (want | ⟨rfl, large⟩ | ⟨_, none⟩)
    · exact .cards want
    · refine .chips (large.trans ?_)
      rw [(h.answers sound).previousPot, (h.answers sound).roundPot]
      exact Nat.le_add_right _ _
    · rw [found] at none
      cases none
  unfold Leaf.resolve
  rw [h.seat_eq found]
  cases l.ending with
  | folded => exact Or.inl rfl
  | uncontested =>
    refine (h.within_pot sound).bind ?_
    rintro pot rfl
    exact Or.inr (Or.inl rfl)
  | showdown | exhausted =>
    exact showdown.bind (fun ended fits => Or.inr (Or.inr ⟨ended.1, fits, rfl⟩))

/-- The value of a choice without its children is the stack and an even share of the pot. -/
theorem Table.Shows.within_neutral {c : Choice α} (h : c.table.Shows f) (sound : f.Sound)
    (found : f.seat? ctx.bot = some hero) :
    Outcome.Within (ctx.Mishap budget c.table) (fun value =>
      value = Scalar.ofNat hero.stack +
        Scalar.ratio (f.carried + f.staked) (max f.activeCount 1)) (c.neutral ctx) := by
  unfold Choice.neutral
  rw [h.seat_eq found, (h.answers sound).activeCount]
  refine (h.within_pot sound).bind ?_
  rintro pot rfl
  rfl

end Holdem
