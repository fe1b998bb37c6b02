import Holdem.Betting.Sizing
import Mathlib

/-!
# The sizes of a grid

Which amounts a grid of fractions comes to. They are taken from a set: what the fractions come to,
lifted to the minimum, as far as it leaves chips behind. Listing them fails only where an amount
with what is owed is none.
-/

set_option autoImplicit false

namespace Holdem

/-! ## Lists that are filtered, sorted and rid of repetitions -/

/-- A test that fails on some elements fails on a list that has one of them, and filters any
other. -/
theorem filterM_guarded {ε α : Type} (e : ε) (fits keep : α → Bool) (xs : List α) :
    xs.filterM (fun a => if fits a then (.ok (keep a) : Except ε Bool) else .error e) =
      if xs.all fits then .ok (xs.filter keep) else .error e := by
  -- the elements kept so far are carried along in reverse
  have aux : ∀ kept : List α,
      xs.filterAuxM (fun a => if fits a then (.ok (keep a) : Except ε Bool) else .error e) kept =
        if xs.all fits then .ok ((xs.filter keep).reverse ++ kept) else .error e := by
    induction xs with
    | nil => exact fun kept => rfl
    | cons a xs ih =>
      intro kept
      rw [List.filterAuxM, List.all_cons, List.filter_cons]
      cases fits a with
      | false => rfl
      | true =>
        show List.filterAuxM _ xs (cond (keep a) (a :: kept) kept) = _
        rw [ih]
        cases keep a <;> simp
  rw [List.filterM, aux]
  cases xs.all fits with
  | false => rfl
  | true => simp [pure, Except.pure, bind, Except.bind]

/-- The loop that drops repeats carries along what it has kept so far. -/
theorem eraseReps_loop {α : Type} [BEq α] (x : α) (xs acc : List α) :
    List.eraseRepsBy.loop (· == ·) x xs acc = acc.reverse ++ (x :: xs).eraseReps := by
  unfold List.eraseReps List.eraseRepsBy
  induction xs generalizing x acc with
  | nil => simp [List.eraseRepsBy.loop]
  | cons y ys ih =>
    simp only [List.eraseRepsBy.loop]
    split
    · exact ih x acc
    · rw [ih y (x :: acc), ih y [x]]
      simp

/-- Of neighbours that are the same the first is kept. -/
theorem eraseReps_cons_cons {α : Type} [BEq α] (x y : α) (ys : List α) : (x :: y :: ys).eraseReps =
    if x == y then (x :: ys).eraseReps else x :: (y :: ys).eraseReps := by
  rw [List.eraseReps, List.eraseRepsBy, List.eraseRepsBy.loop]
  split
  · simpa [*] using eraseReps_loop x ys []
  · simpa [*] using eraseReps_loop y ys [x]

/-- Dropping repeats loses no element. -/
theorem mem_eraseReps {α : Type} [BEq α] [LawfulBEq α] {xs : List α} {a : α} :
    a ∈ xs.eraseReps ↔ a ∈ xs := by
  cases xs with
  | nil => exact Iff.rfl
  | cons x xs =>
    induction xs generalizing x with
    | nil => exact Iff.rfl
    | cons y ys ih =>
      rw [eraseReps_cons_cons]
      split
      · rename_i same
        obtain rfl := eq_of_beq same
        rw [ih x]
        simp
      · rw [List.mem_cons, ih y, ← List.mem_cons]

/-- Without repetitions, amounts in increasing order are strictly increasing. -/
theorem pairwise_eraseReps {xs : List Chips} (sorted : xs.Pairwise (· ≤ ·)) :
    xs.eraseReps.Pairwise (· < ·) := by
  cases xs with
  | nil => exact .nil
  | cons x xs =>
    induction xs generalizing x with
    | nil => exact List.pairwise_singleton _ _
    | cons y ys ih =>
      obtain ⟨least, rest⟩ := List.pairwise_cons.1 sorted
      rw [eraseReps_cons_cons]
      split
      · exact ih x (sorted.sublist (.cons_cons x (List.sublist_cons_self y ys)))
      · rename_i other
        have less : x < y := Nat.lt_of_le_of_ne (least y List.mem_cons_self) (by simpa using other)
        refine List.pairwise_cons.2 ⟨fun a mem => ?_, ih y rest⟩
        refine Nat.lt_of_lt_of_le less ?_
        rcases List.mem_cons.1 (mem_eraseReps.1 mem) with rfl | later
        · exact Nat.le_refl a
        · exact (List.pairwise_cons.1 rest).1 a later

/-- Amounts sorted by insertion and rid of repetitions are the sorted set of them. -/
theorem eraseReps_insertionSort (xs : List Chips) :
    (Order.insertionSort (fun a b => a < b) xs).eraseReps = xs.toFinset.sort (· ≤ ·) := by
  have sorted : (Order.insertionSort (fun a b => a < b) xs).Pairwise (· ≤ ·) := by
    refine Order.pairwise_insertionSort ?_ ?_ ?_ xs
    · exact fun m n before => Nat.le_of_lt (of_decide_eq_true before)
    · exact fun m n after => Nat.le_of_not_lt (of_decide_eq_false after)
    · exact fun _ _ _ => Nat.le_trans
  have increasing := pairwise_eraseReps sorted
  have same : xs.toFinset =
      (Order.insertionSort (fun a b => a < b) xs).eraseReps.toFinset := by
    ext n
    rw [List.mem_toFinset, List.mem_toFinset, mem_eraseReps,
      (Order.insertionSort_perm _ xs).mem_iff]
  rw [same, (List.toFinset_sort _ (increasing.imp Nat.ne_of_lt)).2 (increasing.imp Nat.le_of_lt)]

namespace Sizing

variable {s : Sizing} {value : PotFraction → Chips} {pot minimum deficit stack n : Chips}

/-- The amounts that the fractions of the grid come to, at least the minimum, that leave chips
behind once the deficit is paid. -/
def amounts (s : Sizing) (value : PotFraction → Chips) (minimum deficit stack : Chips) :
    Finset Chips :=
  (s.grid.map (fun f => max (value f) minimum)).toFinset.filter (fun n => deficit + n < stack)

/-- An amount is listed if some fraction comes to it, lifted to the minimum, and it leaves chips
behind. -/
theorem mem_amounts_iff : n ∈ s.amounts value minimum deficit stack ↔
    (∃ f ∈ s.grid, n = max (value f) minimum) ∧ deficit + n < stack := by
  simp [amounts, eq_comm]

/-- The sizes are listed in order, unless one of them with the deficit is no amount of chips. -/
theorem sizes_eq (s : Sizing) (pot minimum deficit stack : Chips) :
    s.sizes pot minimum deficit stack =
      if ∀ f ∈ s.grid, deficit + max (f.of pot) minimum < chipLimit then
        .ok ((s.amounts (·.of pot) minimum deficit stack).sort (· ≤ ·))
      else .error (.fault .addOverflow) := by
  have test : (fun n => (do return (← addChips deficit n) < stack : Outcome Bool)) =
      fun n => if decide (deficit + n < chipLimit) then .ok (decide (deficit + n < stack))
        else .error (.fault .addOverflow) := by
    funext n
    unfold addChips
    by_cases fits : deficit + n < chipLimit
    · rw [if_pos fits, if_pos (decide_eq_true fits)]
      rfl
    · rw [if_neg fits, if_neg (by simpa using fits)]
      rfl
  have all : ((s.grid.map (fun f => max (f.of pot) minimum)).all
        (fun n => deficit + n < chipLimit)) = true ↔
      ∀ f ∈ s.grid, deficit + max (f.of pot) minimum < chipLimit := by simp
  rw [sizes, test, filterM_guarded]
  by_cases fits : ∀ f ∈ s.grid, deficit + max (f.of pot) minimum < chipLimit
  · rw [if_pos fits, if_pos (all.2 fits)]
    show Except.ok (Order.insertionSort _ _).eraseReps = Except.ok _
    rw [eraseReps_insertionSort, List.toFinset_filter, amounts]
    simp
  · rw [if_neg fits, if_neg (mt all.1 fits)]
    rfl

end Sizing

end Holdem
