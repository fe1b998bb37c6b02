/-!
# Sorting by insertion

A list sorted by inserting its elements one after the other, each from the right: an element
moves left past its neighbours as long as it is before them. Elements that are not ordered keep
their order, so the sort is stable; and where the comparison is no order at all, the result is
still fixed by this rule.
-/

set_option autoImplicit false

namespace Holdem.Order

variable {α : Type}

/-- Inserts an element into a list written from right to left. -/
def insertBack (before : α → α → Bool) (x : α) : List α → List α
  | [] => [x]
  | y :: ys => if before x y then y :: insertBack before x ys else x :: y :: ys

/-- The list sorted by insertion from the right, first to last. -/
def insertionSort (before : α → α → Bool) (xs : List α) : List α :=
  (xs.foldl (fun sorted x => insertBack before x sorted) []).reverse

/-- Inserting adds one element and loses none. -/
theorem insertBack_perm (before : α → α → Bool) (x : α) (ys : List α) :
    (insertBack before x ys).Perm (x :: ys) := by
  induction ys with
  | nil => exact .refl _
  | cons y ys ih =>
    unfold insertBack
    split
    · exact (ih.cons y).trans (.swap x y ys)
    · exact .refl _

/-- Sorting rearranges a list. -/
theorem insertionSort_perm (before : α → α → Bool) (xs : List α) :
    (insertionSort before xs).Perm xs := by
  have fold : ∀ (xs acc : List α),
      (xs.foldl (fun sorted x => insertBack before x sorted) acc).Perm (xs.reverse ++ acc) := by
    intro xs
    induction xs with
    | nil => intro acc; exact .refl _
    | cons x xs ih =>
      intro acc
      refine (ih _).trans ?_
      simp only [List.reverse_cons, List.append_assoc, List.singleton_append]
      exact List.Perm.append_left _ (insertBack_perm before x acc)
  unfold insertionSort
  have h := fold xs []
  rw [List.append_nil] at h
  exact (List.reverse_perm _).trans (h.trans (List.reverse_perm _))

section

variable {before : α → α → Bool} {R : α → α → Prop} (sound : ∀ x y, before x y = true → R x y)
  (complete : ∀ x y, before x y = false → R y x) (trans : ∀ x y z, R x y → R y z → R x z)

include sound complete trans

/-- Inserting into a list that is sorted leaves it sorted. -/
theorem pairwise_insertBack (x : α) {ys : List α} (sorted : ys.Pairwise (fun a b => R b a)) :
    (insertBack before x ys).Pairwise (fun a b => R b a) := by
  induction ys with
  | nil => exact List.pairwise_singleton _ x
  | cons y ys ih =>
    obtain ⟨above, rest⟩ := List.pairwise_cons.1 sorted
    unfold insertBack
    split
    · refine List.pairwise_cons.2 ⟨fun z mem => ?_, ih rest⟩
      rcases List.mem_cons.1 ((insertBack_perm before x ys).mem_iff.1 mem) with rfl | old
      · exact sound z y ‹_›
      · exact above z old
    · have least : R y x := complete x y (Bool.eq_false_iff.2 ‹_›)
      refine List.pairwise_cons.2 ⟨fun z mem => ?_, sorted⟩
      rcases List.mem_cons.1 mem with rfl | old
      · exact least
      · exact trans z y x (above z old) least

/-- Where what is before and what is not are the two sides of an order, sorting gives a list that is
sorted by it. -/
theorem pairwise_insertionSort (xs : List α) : (insertionSort before xs).Pairwise R := by
  have fold : ∀ xs acc : List α, acc.Pairwise (fun a b => R b a) →
      (xs.foldl (fun sorted x => insertBack before x sorted) acc).Pairwise (fun a b => R b a) := by
    intro xs
    induction xs with
    | nil => exact fun acc sorted => sorted
    | cons x xs ih =>
      exact fun acc sorted => ih _ (pairwise_insertBack sound complete trans x sorted)
  exact List.pairwise_reverse.2 (fold xs [] .nil)

end

end Holdem.Order
