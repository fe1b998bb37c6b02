import Holdem.Scalar

/-!
# The laws of scalars

What rounding leaves of the order of the numbers. A scalar that is at most itself is a number; all
numbers are ordered, and what is no number is not even equal to itself. Two numbers of which each
is at most the other cannot be told apart by comparing what is left when something is taken from
them: such are the two zeros of floating point. The largest of some numbers is therefore known up
to such a difference, whatever the order in which it is looked for.
-/

set_option autoImplicit false

namespace Holdem.Scalar

variable {α : Type} [Scalar α]

/-- The laws that exact and rounded arithmetic have in common. -/
class Lawful (α : Type) [Scalar α] : Prop where
  le_trans : ∀ {a b c : α}, le a b → le b c → le a c
  le_total : ∀ {a b : α}, le a a → le b b → le a b ∨ le b a
  lt_iff : ∀ {a b : α}, lt a b ↔ le a b ∧ ¬ le b a
  le_self : ∀ {a : α}, isFinite a → le a a
  /-- Nothing is left when a proper number is taken from itself. -/
  sub_self_le : ∀ {a : α}, isFinite a → le (a - a) (ofNat 0)
  sub_congr : ∀ {a b : α}, le a b → le b a → ∀ c d : α, le (a - c) d = le (b - c) d
  zero_le_billionth : le (ofNat 0 : α) (ratio 1 1000000000)

export Lawful (le_trans le_total lt_iff le_self sub_self_le sub_congr zero_le_billionth)

variable [Lawful α] {a b : α}

/-- The strict order of scalars is asymmetric. -/
theorem lt_asymm (less : lt a b = true) : lt b a = false :=
  Bool.eq_false_iff.2 fun more => (lt_iff.1 less).2 (lt_iff.1 more).1

/-- Of two numbers, one that is not less is at least as large. -/
theorem le_of_not_lt (number : le a a) (number' : le b b) (not : lt a b = false) : le b a := by
  rcases le_total number number' with less | more
  · cases more : le b a with
    | true => rfl
    | false => exact absurd (lt_iff.2 ⟨less, Bool.eq_false_iff.1 more⟩) (Bool.eq_false_iff.1 not)
  · exact more

/-- The larger of two numbers is one of them and at least as large as both. -/
theorem max_spec (number : le a a) (number' : le b b) :
    (max a b = a ∨ max a b = b) ∧ le a (max a b) ∧ le b (max a b) := by
  cases less : lt a b with
  | true =>
    have larger : max a b = b := if_pos less
    rw [larger]
    exact ⟨Or.inr rfl, (lt_iff.1 less).1, number'⟩
  | false =>
    have larger : max a b = a := (if_neg (Bool.eq_false_iff.1 less)).trans (if_pos number)
    rw [larger]
    exact ⟨Or.inl rfl, number, le_of_not_lt number number' less⟩

/-- The maximum of some numbers is one of them, and none is larger. -/
theorem maximum?_spec {xs : List α} (numbers : ∀ x ∈ xs, le x x) {top : α}
    (largest : maximum? xs = some top) : top ∈ xs ∧ ∀ x ∈ xs, le x top := by
  have fold : ∀ (xs : List α) (x : α), (∀ y ∈ x :: xs, le y y) → xs.foldl max x ∈ x :: xs ∧
      ∀ y ∈ x :: xs, le y (xs.foldl max x) := by
    intro xs
    induction xs with
    | nil => exact fun x numbers => ⟨List.mem_singleton_self x, by simpa using numbers⟩
    | cons y ys ih =>
      intro x numbers
      obtain ⟨self, numbers⟩ := List.forall_mem_cons.1 numbers
      obtain ⟨self', numbers⟩ := List.forall_mem_cons.1 numbers
      obtain ⟨choice, aboveFirst, aboveSecond⟩ := max_spec self self'
      have larger : le (max x y) (max x y) := by
        rcases choice with same | same
        · exact same.symm ▸ self
        · exact same.symm ▸ self'
      obtain ⟨mem, above⟩ := ih (max x y) (List.forall_mem_cons.2 ⟨larger, numbers⟩)
      obtain ⟨both, rest⟩ := List.forall_mem_cons.1 above
      rw [List.foldl_cons]
      refine ⟨?_, List.forall_mem_cons.2 ⟨le_trans aboveFirst both, List.forall_mem_cons.2
        ⟨le_trans aboveSecond both, rest⟩⟩⟩
      rcases List.mem_cons.1 mem with first | later
      · rw [first]
        rcases choice with same | same
        · rw [same]; exact List.mem_cons_self
        · rw [same]; exact List.mem_cons_of_mem x List.mem_cons_self
      · exact List.mem_cons_of_mem x (List.mem_cons_of_mem y later)
  cases xs with
  | nil => cases largest
  | cons x xs =>
    obtain rfl := Option.some.inj largest
    exact fold xs x numbers

end Holdem.Scalar
