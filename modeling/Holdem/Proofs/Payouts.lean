import Holdem.Search.Payouts
import Mathlib

/-!
# Bags of payouts

Adding a payout to a bag makes the bag larger by one, and brings in no amount but its own. So what
bounds all payouts that are added bounds the bag.
-/

set_option autoImplicit false

namespace Holdem

namespace Payouts

variable {b : Payouts} {payout limit : Chips}

/-- Every payout of a bag is at most an amount. -/
def AtMost (b : Payouts) (limit : Chips) : Prop := ∀ entry ∈ b.counts, entry.1 ≤ limit

/-- A payout of a bag with one more is that one or was there before. -/
theorem mem_addTo {counts : List (Chips × Nat)} {entry : Chips × Nat}
    (mem : entry ∈ addTo payout counts) : entry.1 = payout ∨ ∃ old ∈ counts, entry.1 = old.1 := by
  induction counts with
  | nil => exact Or.inl (by rw [List.mem_singleton.1 mem])
  | cons first rest ih =>
    unfold addTo at mem
    split at mem
    · rcases List.mem_cons.1 mem with rfl | old
      · exact Or.inl rfl
      · exact Or.inr ⟨entry, old, rfl⟩
    · split at mem
      · rcases List.mem_cons.1 mem with rfl | old
        · exact Or.inr ⟨first, List.mem_cons_self, rfl⟩
        · exact Or.inr ⟨entry, List.mem_cons_of_mem first old, rfl⟩
      · rcases List.mem_cons.1 mem with rfl | later
        · exact Or.inr ⟨first, List.mem_cons_self, rfl⟩
        · rcases ih later with same | ⟨old, inRest, same⟩
          · exact Or.inl same
          · exact Or.inr ⟨old, List.mem_cons_of_mem first inRest, same⟩

/-- A bag bounded by an amount stays so with one more payout within it. -/
theorem AtMost.add (h : b.AtMost limit) (fits : payout ≤ limit) : (b.add payout).AtMost limit := by
  intro entry mem
  rcases mem_addTo mem with same | ⟨old, inOld, same⟩
  · exact same ▸ fits
  · exact same ▸ h old inOld

/-- The empty bag is bounded by every amount. -/
theorem atMost_empty : ({} : Payouts).AtMost limit := fun _ mem => absurd mem List.not_mem_nil

/-- A bag of one payout is bounded by what bounds the payout. -/
theorem atMost_ofList_singleton (fits : payout ≤ limit) : (ofList [payout]).AtMost limit :=
  atMost_empty.add fits

/-- A bag is larger by one after a payout is added. -/
theorem size_add (b : Payouts) (payout : Chips) : (b.add payout).size = b.size + 1 := by
  have counted : ∀ counts : List (Chips × Nat),
      ((addTo payout counts).map Prod.snd).sum = (counts.map Prod.snd).sum + 1 := by
    intro counts
    induction counts with
    | nil => rfl
    | cons first rest ih =>
      unfold addTo
      split
      · simp only [List.map_cons, List.sum_cons]
        lia
      · split
        · simp only [List.map_cons, List.sum_cons]
          lia
        · simp only [List.map_cons, List.sum_cons, ih]
          lia
  exact counted b.counts

end Payouts

end Holdem
