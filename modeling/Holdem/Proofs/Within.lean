import Holdem.Chance.Words
import Holdem.Checked
import Mathlib

/-!
# How a computation may end

A computation ends within given failures if it ends in a value with some property or in one of these
failures. What is known of two steps is put together to what is known of one after the other; for a
computation that draws words it has to hold whatever the words are.
-/

set_option autoImplicit false

namespace Holdem

/-! ## Lists that go together -/

section

variable {α β γ : Type} {R : α → β → Prop} {xs : List α} {ys : List β}

/-- What is related in order on the right is related to something on the left. -/
theorem exists_left_of_forall₂ (h : List.Forall₂ R xs ys) {b : β} (mem : b ∈ ys) :
    ∃ a ∈ xs, R a b := by
  induction h with
  | nil => exact absurd mem List.not_mem_nil
  | @cons a b' xs ys first rest ih =>
    rcases List.mem_cons.1 mem with rfl | later
    · exact ⟨a, List.mem_cons_self, first⟩
    · obtain ⟨a', inRest, related⟩ := ih later
      exact ⟨a', List.mem_cons_of_mem a inRest, related⟩

/-- Lists related in order have equal images where related members have. -/
theorem map_eq_of_forall₂ (h : List.Forall₂ R xs ys) {f : α → γ} {g : β → γ}
    (same : ∀ a b, R a b → f a = g b) : xs.map f = ys.map g := by
  induction h with
  | nil => rfl
  | cons first rest ih => rw [List.map_cons, List.map_cons, same _ _ first, ih]

end

/-! ## Computations -/

namespace Outcome

variable {α β : Type} {F G : Failure → Prop} {P Q : α → Prop} {x : Outcome α}

/-- The computation ends in a value with a property, or in one of some failures. -/
def Within (F : Failure → Prop) (P : α → Prop) : Outcome α → Prop
  | .ok a => P a
  | .error failure => F failure

/-- What holds of a computation's values carries over to what is computed from them. -/
theorem Within.bind {R : β → Prop} {next : α → Outcome β} (first : Within F P x)
    (rest : ∀ a, P a → Within F R (next a)) : Within F R (x >>= next) := by
  cases x with
  | ok a => exact rest a first
  | error failure => exact first

/-- Bounds on how a computation ends may be loosened. -/
theorem Within.mono (h : Within F P x) (failures : ∀ e, F e → G e) (values : ∀ a, P a → Q a) :
    Within G Q x := by
  cases x with
  | ok a => exact values a h
  | error failure => exact failures failure h

/-- A computation that ends in a value does so within any failures. -/
theorem within_of_ok {a : α} (ended : x = .ok a) (holds : P a) : Within F P x := by
  rw [ended]
  exact holds

/-- Every computation ends somehow, and in a value only in its own. -/
theorem within_any (x : Outcome α) : Within (fun _ => True) (fun a => x = .ok a) x := by
  cases x with
  | ok a => rfl
  | error failure => trivial

/-- A value that a computation ends in has the property. -/
theorem Within.ok {a : α} (h : Within F P x) (ended : x = .ok a) : P a := by
  rw [ended] at h
  exact h

/-- A failure that a computation ends in is one of those allowed. -/
theorem Within.error {failure : Failure} (h : Within F P x) (failed : x = .error failure) :
    F failure := by
  rw [failed] at h
  exact h

/-- The ending of each element of a list decides on the ending of the whole list. -/
theorem within_mapM {xs : List α} {f : α → Outcome β} {R : α → β → Prop}
    (each : ∀ a ∈ xs, Within F (R a) (f a)) : Within F (List.Forall₂ R xs) (xs.mapM f) := by
  induction xs with
  | nil => exact List.Forall₂.nil
  | cons a xs ih =>
    rw [List.mapM_cons]
    refine (each a List.mem_cons_self).bind (fun b first => ?_)
    refine (ih (fun a' mem => each a' (List.mem_cons_of_mem a mem))).bind (fun bs rest => ?_)
    exact List.Forall₂.cons first rest

/-- A sum of chips is given unless it does not fit. -/
theorem within_addChips (a b : Chips) :
    Within (fun e => e = .fault .addOverflow ∧ chipLimit ≤ a + b) (fun c => c = a + b)
      (addChips a b) := by
  unfold addChips
  split
  · rfl
  · exact ⟨rfl, Nat.le_of_not_lt ‹_›⟩

/-- Counters add up, or their sum is out of range. -/
theorem within_addCounts (a b : Nat) :
    Within (fun e => e = .fault .addOverflow ∧ countLimit ≤ a + b) (fun c => c = a + b)
      (addCounts a b) := by
  unfold addCounts
  split
  · rfl
  · exact ⟨rfl, Nat.le_of_not_lt ‹_›⟩

/-- Counters multiply, or their product is out of range. -/
theorem within_mulCounts (a b : Nat) :
    Within (fun e => e = .fault .mulOverflow ∧ countLimit ≤ a * b) (fun c => c = a * b)
      (mulCounts a b) := by
  unfold mulCounts
  split
  · rfl
  · exact ⟨rfl, Nat.le_of_not_lt ‹_›⟩

end Outcome

namespace Random

variable {σ α β : Type} {F G : Failure → Prop} {P Q : α → Prop} {x : Random σ α}

/-- Whatever words are drawn, the computation ends within some failures. -/
def Within (F : Failure → Prop) (P : α → Prop) (x : Random σ α) : Prop :=
  ∀ g, Outcome.Within F (fun ended : α × σ => P ended.1) (x g)

/-- A value that is drawn from nothing has its property. -/
theorem within_pure {a : α} (holds : P a) : Within F P (pure a : Random σ α) := fun _ => holds

/-- What holds of drawn values carries over to what is drawn from them. -/
theorem Within.bind {R : β → Prop} {next : α → Random σ β} (first : Within F P x)
    (rest : ∀ a, P a → Within F R (next a)) : Within F R (x >>= next) := fun g =>
  (first g).bind (fun a holds => rest a.1 holds a.2)

/-- Bounds on how a drawing ends may be loosened. -/
theorem Within.mono (h : Within F P x) (failures : ∀ e, F e → G e) (values : ∀ a, P a → Q a) :
    Within G Q x := fun g =>
  (h g).mono failures (fun a => values a.1)

/-- A computation that draws nothing ends as it does by itself. -/
theorem within_lift {y : Outcome α} (h : Outcome.Within F P y) :
    Within F P (liftM y : Random σ α) := fun _ =>
  h.bind (fun _ holds => holds)

/-- Drawing for each member of a list ends as the single drawings do. -/
theorem within_mapM {xs : List α} {f : α → Random σ β} {R : α → β → Prop}
    (each : ∀ a ∈ xs, Within F (R a) (f a)) : Within F (List.Forall₂ R xs) (xs.mapM f) := by
  induction xs with
  | nil => exact within_pure List.Forall₂.nil
  | cons a xs ih =>
    rw [List.mapM_cons]
    refine (each a List.mem_cons_self).bind (fun b first => ?_)
    refine (ih (fun a' mem => each a' (List.mem_cons_of_mem a mem))).bind (fun bs rest => ?_)
    exact within_pure (List.Forall₂.cons first rest)

variable [WordSource σ]

/-- Drawing a word never fails. -/
theorem within_word : Within F (fun _ => True) (word : Random σ UInt64) := fun _ => trivial

/-- Drawing half a word never fails and gives 32 bits. -/
theorem within_halfWord : Within F (fun h => h < 2 ^ 32) (halfWord : Random σ Nat) :=
  within_word.bind (fun w _ => within_pure (Nat.div_lt_of_lt_mul w.toNat_lt))

/-- A number is chosen below its bound: the refinement adds one only where the bound is not
reached. -/
theorem within_below {n : Nat} (pos : 0 < n) (small : n ≤ 2 ^ 32) :
    Within F (fun place => place < n) (below n : Random σ Nat) := by
  refine within_halfWord.bind (fun a coarse => ?_)
  dsimp only
  have whole : a * n / 2 ^ 32 < n := by
    rw [Nat.div_lt_iff_lt_mul (by decide), Nat.mul_comm n]
    exact Nat.mul_lt_mul_of_pos_right coarse pos
  split
  · rename_i refined
    refine within_halfWord.bind (fun b fine => within_pure ?_)
    -- at the last place the part cut off is too small to be refined
    have room : a * n / 2 ^ 32 + 1 < n := by
      have parts := Nat.div_add_mod (a * n) (2 ^ 32)
      have most : a * n ≤ (2 ^ 32 - 1) * n := Nat.mul_le_mul_right n (by lia)
      by_contra last
      have top : a * n / 2 ^ 32 = n - 1 := by lia
      have cut : 2 ^ 32 - n < a * n % 2 ^ 32 := refined
      rw [top] at parts
      lia
    split
    · exact room
    · exact whole
  · exact within_pure whole

/-- Drawing from the unit interval never fails. -/
theorem within_unit {α : Type} [Scalar α] :
    Within F (fun _ => True) (unit : Random σ α) :=
  within_word.bind (fun _ _ => within_pure trivial)

end Random

end Holdem
