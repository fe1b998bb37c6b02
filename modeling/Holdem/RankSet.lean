import Holdem.Card

/-!
# Sets of ranks

A set of ranks is a word of sixteen bits, one for each rank from the deuce up. Three bits are left
over and name no rank. The value of the word orders sets of one size as poker compares kickers:
the set with the higher rank on top is the larger, and a tie on top is decided by the next rank.
-/

set_option autoImplicit false

namespace Holdem

/-- A set of ranks. -/
structure RankSet where
  bits : BitVec 16
  deriving DecidableEq, Repr

namespace RankSet

/-- The set without ranks. -/
def empty : RankSet := ⟨0⟩

/-- The set of one rank. -/
def single (r : Rank) : RankSet := ⟨BitVec.twoPow 16 r.index⟩

/-- The ranks of either set. -/
def union (a b : RankSet) : RankSet := ⟨a.bits ||| b.bits⟩

/-- The ranks of both sets. -/
def inter (a b : RankSet) : RankSet := ⟨a.bits &&& b.bits⟩

/-- The ranks outside a set, and the bits that name no rank. -/
def complement (a : RankSet) : RankSet := ⟨~~~ a.bits⟩

/-- Whether a rank is in the set. -/
def contains (a : RankSet) (r : Rank) : Bool := a.bits.getLsbD r.index

/-- The set of the ranks of a list. -/
def ofRanks (rs : List Rank) : RankSet := rs.foldl (fun a r => a.union (single r)) empty

/-- The ranks of a set, lowest first. -/
def ranks (a : RankSet) : List Rank := Rank.all.filter a.contains

/-- The highest rank of a set. -/
def highest? (a : RankSet) : Option Rank := a.ranks.getLast?

/-- The `n` highest ranks of a set. -/
def keepTop (n : Nat) (a : RankSet) : RankSet := ofRanks (a.ranks.reverse.take n)

/-- The value of a set as a word. -/
def value (a : RankSet) : Nat := a.bits.toNat

/-- The text of a set: its symbols, highest first. -/
def text (a : RankSet) : String := String.ofList (a.ranks.reverse.map Rank.symbol)

/-- The empty set has no rank. -/
theorem contains_empty (r : Rank) : empty.contains r = false := by
  simp [empty, contains]

/-- A set of one rank has this rank only. -/
theorem contains_single (r s : Rank) : (single r).contains s = decide (r = s) := by
  revert r s
  intro r s
  cases r <;> cases s <;> rfl

/-- A union has the ranks of either set. -/
theorem contains_union (a b : RankSet) (r : Rank) :
    (a.union b).contains r = (a.contains r || b.contains r) := by
  simp [contains, union]

/-- An intersection has the ranks of both sets. -/
theorem contains_inter (a b : RankSet) (r : Rank) :
    (a.inter b).contains r = (a.contains r && b.contains r) := by
  simp [contains, inter]

/-- A complement has just the ranks that the set has not. -/
theorem contains_complement (a : RankSet) (r : Rank) :
    a.complement.contains r = !a.contains r := by
  have h := r.index_lt
  simp only [contains, complement, BitVec.getLsbD_not]
  simp [show r.index < 16 by omega]

/-- A set made from a list contains the ranks of the list. -/
theorem contains_ofRanks (rs : List Rank) (r : Rank) :
    (ofRanks rs).contains r = decide (r ∈ rs) := by
  have fold : ∀ (rs : List Rank) (a : RankSet),
      (rs.foldl (fun a r => a.union (single r)) a).contains r
        = (a.contains r || decide (r ∈ rs)) := by
    intro rs
    induction rs with
    | nil => intro a; simp
    | cons q qs ih =>
      intro a
      rw [List.foldl_cons, ih, contains_union, contains_single]
      by_cases h : q = r
      · simp [h]
      · simp [h, Ne.symm h]
  simpa [ofRanks, contains_empty] using fold rs empty

/-- The list of a set's ranks has the ranks of the set. -/
theorem mem_ranks {a : RankSet} {r : Rank} : r ∈ a.ranks ↔ a.contains r = true := by
  simp [ranks, r.mem_all]

end RankSet

end Holdem
