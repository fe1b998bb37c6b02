import Holdem.Proofs.Outcome
import Holdem.Proofs.Within

/-!
# Two computations side by side

Two computations concur if both end, in values that go together, or both fail, in failures that go
together. What is known of two pairs of steps is put together to what is known of one pair after
the other. Computations that draw words concur if they do whatever the words are, and draw equally
many of them. Refusals of an action quote the table; apart from that quotation they are compared
word for word.
-/

set_option autoImplicit false

namespace Holdem

/-- The same failure, but for the text of the table in the refusal of an action. -/
inductive Failure.Reworded : Failure → Failure → Prop
  | same (e : Failure) : Reworded e e
  | notAllowed (a : Action) (p : Player) (text text' : String) :
      Reworded (.defect (.illegal (.notAllowed a p text)))
        (.defect (.illegal (.notAllowed a p text')))

namespace Outcome

variable {α β γ δ : Type} {F : Failure → Failure → Prop}

/-- Both computations end, in values that are related, or both fail, in failures that are. -/
def Concurs (F : Failure → Failure → Prop) (R : α → γ → Prop) : Outcome α → Outcome γ → Prop
  | .ok a, .ok c => R a c
  | .error e, .error e' => F e e'
  | .ok _, .error _ => False
  | .error _, .ok _ => False

variable {R : α → γ → Prop} {S : β → δ → Prop} {x : Outcome α} {y : Outcome γ}

/-- A computation concurs with itself in the same values, if each failure is related to itself. -/
theorem concurs_rfl (failures : ∀ e, F e e) (x : Outcome α) : Concurs F Eq x x := by
  cases x with
  | error e => exact failures e
  | ok a => rfl

/-- Computations in two steps concur if their first steps do, and so do the second steps from
related values. -/
theorem Concurs.bind {next : α → Outcome β} {next' : γ → Outcome δ} (first : Concurs F R x y)
    (rest : ∀ a c, x = .ok a → y = .ok c → R a c → Concurs F S (next a) (next' c)) :
    Concurs F S (x >>= next) (y >>= next') := by
  cases x with
  | error e =>
    cases y with
    | error e' => exact first
    | ok c => exact first.elim
  | ok a =>
    cases y with
    | error e' => exact first.elim
    | ok c => exact rest a c rfl rfl first

/-- After one and the same computation. -/
theorem concurs_bind {next : α → Outcome β} {next' : α → Outcome δ} (failures : ∀ e, F e e)
    (x : Outcome α) (rest : ∀ a, x = .ok a → Concurs F S (next a) (next' a)) :
    Concurs F S (x >>= next) (x >>= next') := by
  cases x with
  | error e => exact failures e
  | ok a => exact rest a rfl

/-- Concurring computations concur in whatever their failures and values imply. -/
theorem Concurs.mono {G : Failure → Failure → Prop} {R' : α → γ → Prop} (h : Concurs F R x y)
    (failures : ∀ e e', x = .error e → y = .error e' → F e e' → G e e')
    (values : ∀ a c, x = .ok a → y = .ok c → R a c → R' a c) : Concurs G R' x y := by
  cases x with
  | error e =>
    cases y with
    | error e' => exact failures e e' rfl rfl h
    | ok c => exact h.elim
  | ok a =>
    cases y with
    | error e' => exact h.elim
    | ok c => exact values a c rfl rfl h

/-- Computations that concur in the same failures and values are the same. -/
theorem Concurs.eq {x y : Outcome α} (h : Concurs Eq Eq x y) : x = y := by
  cases x with
  | error e =>
    cases y with
    | error e' => exact congrArg _ h
    | ok c => exact h.elim
  | ok a =>
    cases y with
    | error e' => exact h.elim
    | ok c => exact congrArg _ h

/-- To concur in the same failures is to match. -/
theorem concurs_eq_iff : Concurs Eq R x y ↔ Matches R x y := by
  cases x <;> cases y <;> rfl

/-- Lists of computations concur if they do one by one. -/
theorem concurs_mapM {xs : List α} {ys : List γ} {f : α → Outcome β} {f' : γ → Outcome δ}
    (pairs : List.Forall₂ R xs ys) (each : ∀ a c, R a c → Concurs F S (f a) (f' c)) :
    Concurs F (List.Forall₂ S) (xs.mapM f) (ys.mapM f') := by
  induction pairs with
  | nil => exact List.Forall₂.nil
  | cons first _ ih =>
    rw [List.mapM_cons, List.mapM_cons]
    refine (each _ _ first).bind (fun b d _ _ head => ?_)
    exact ih.bind (fun bs ds _ _ tail => List.Forall₂.cons head tail)

/-- Steps that keep a relation keep it however many there are. -/
theorem concurs_foldlM {step : α → β → Outcome α} {step' : γ → β → Outcome γ}
    (each : ∀ a c b, R a c → Concurs F R (step a b) (step' c b)) (bs : List β) {a : α} {c : γ}
    (start : R a c) : Concurs F R (bs.foldlM step a) (bs.foldlM step' c) := by
  induction bs generalizing a c with
  | nil => exact start
  | cons b bs ih =>
    rw [List.foldlM_cons, List.foldlM_cons]
    exact (each a c b start).bind (fun a' c' _ _ related => ih related)

end Outcome

namespace Random

variable {σ α β γ δ : Type} {F : Failure → Failure → Prop} {R : α → γ → Prop} {S : β → δ → Prop}

/-- Whatever words are drawn, both computations concur and leave the same words. -/
def Concurs (F : Failure → Failure → Prop) (R : α → γ → Prop) (x : Random σ α)
    (y : Random σ γ) : Prop :=
  ∀ g, Outcome.Concurs F (fun a c => R a.1 c.1 ∧ a.2 = c.2) (x g) (y g)

variable {x : Random σ α} {y : Random σ γ}

/-- Related values concur, and draw nothing. -/
theorem concurs_pure {a : α} {c : γ} (related : R a c) :
    Concurs F R (pure a : Random σ α) (pure c) := fun _ => ⟨related, rfl⟩

/-- Computations in two steps that draw concur if their first steps do, and so do the second steps
from related values. -/
theorem Concurs.bind {next : α → Random σ β} {next' : γ → Random σ δ} (first : Concurs F R x y)
    (rest : ∀ a c, R a c → Concurs F S (next a) (next' c)) :
    Concurs F S (x >>= next) (y >>= next') := by
  intro g
  refine (first g).bind ?_
  rintro ⟨a, words⟩ ⟨c, _⟩ _ _ ⟨related, rfl⟩
  exact rest a c related words

/-- After one and the same computation. -/
theorem concurs_bind {next : α → Random σ β} {next' : α → Random σ δ} (failures : ∀ e, F e e)
    (x : Random σ α) (rest : ∀ a, Concurs F S (next a) (next' a)) :
    Concurs F S (x >>= next) (x >>= next') := fun g =>
  Outcome.concurs_bind failures (x g) (fun a _ => rest a.1 a.2)

/-- Computations that draw nothing concur as they do by themselves. -/
theorem concurs_lift {x : Outcome α} {y : Outcome γ} (h : Outcome.Concurs F R x y) :
    Concurs F R (liftM x : Random σ α) (liftM y) := fun _ =>
  h.bind (fun _ _ _ _ related => ⟨related, rfl⟩)

/-- Lists of computations that draw concur if they do one by one. -/
theorem concurs_mapM {xs : List α} {ys : List γ} {f : α → Random σ β} {f' : γ → Random σ δ}
    (pairs : List.Forall₂ R xs ys) (each : ∀ a c, R a c → Concurs F S (f a) (f' c)) :
    Concurs F (List.Forall₂ S) (xs.mapM f) (ys.mapM f') := by
  induction pairs with
  | nil => exact concurs_pure List.Forall₂.nil
  | cons first _ ih =>
    rw [List.mapM_cons, List.mapM_cons]
    refine (each _ _ first).bind (fun b d head => ?_)
    exact ih.bind (fun bs ds tail => concurs_pure (List.Forall₂.cons head tail))

end Random

end Holdem
