import Holdem.RankSet
import Mathlib

/-!
# Sets of ranks as numbers

The value of a set of ranks is a sum of powers of two, one for each of its ranks. So sets of one
size compare as their ranks do when they are listed from the top, the first difference deciding;
and however many ranks are kept from the top, a larger set keeps at least as much.
-/

set_option autoImplicit false

namespace Holdem

namespace Rank

/-- Ranks are listed from the lowest up. -/
theorem all_sorted : all.Pairwise (fun r q => r.index < q.index) := by decide

/-- Ranks listed in strictly increasing order are known by which ranks they are. -/
theorem eq_of_sorted {l m : List Rank} (first : l.Pairwise (fun r q => r.index < q.index))
    (second : m.Pairwise (fun r q => r.index < q.index)) (same : ∀ r, r ∈ l ↔ r ∈ m) : l = m := by
  have antisymm : Std.Antisymm (fun r q : Rank => r.index < q.index) :=
    ⟨fun _ _ below above => absurd below (Nat.lt_asymm above)⟩
  have irrefl : Std.Irrefl (fun r q : Rank => r.index < q.index) := ⟨fun _ => Nat.lt_irrefl _⟩
  exact first.eq_of_mem_iff second same

/-- What a list of ranks weighs: a power of two for each. -/
def weight (rs : List Rank) : Nat := (rs.map (fun r => 2 ^ r.index)).sum

/-- One more rank adds its bit to the weight. -/
@[simp] theorem weight_cons (r : Rank) (rs : List Rank) :
    weight (r :: rs) = 2 ^ r.index + weight rs := by
  simp [weight]

/-- Compares ranks one after the other: the first difference decides. -/
def compareAll (rs qs : List Rank) : Ordering :=
  List.compareLex (fun r q => Ord.compare r.index q.index) rs qs

/-- Two empty lists of ranks compare equal. -/
@[simp] theorem compareAll_nil : compareAll [] [] = .eq := List.compareLex_nil_nil

/-- Lists of ranks compare by their first ranks, and then by the rest. -/
@[simp] theorem compareAll_cons (r q : Rank) (rs qs : List Rank) :
    compareAll (r :: rs) (q :: qs) =
      (Ord.compare r.index q.index).then (compareAll rs qs) :=
  List.compareLex_cons_cons

/-- Ranks listed from the top weigh less than the next power of two. -/
theorem weight_lt {rs : List Rank} {n : Nat} (below : ∀ r ∈ rs, r.index < n)
    (falling : rs.Pairwise (fun r q => q.index < r.index)) : weight rs < 2 ^ n := by
  induction rs generalizing n with
  | nil => exact Nat.two_pow_pos n
  | cons r rs ih =>
    rw [List.pairwise_cons] at falling
    have rest := ih falling.1 falling.2
    have top : r.index + 1 ≤ n := below r List.mem_cons_self
    have power : 2 ^ (r.index + 1) ≤ 2 ^ n := Nat.pow_le_pow_right (by decide) top
    rw [weight_cons]
    rw [Nat.pow_succ] at power
    omega

/-- As many ranks listed from the top compare by weight as they do one after the other. -/
theorem compare_weight {rs qs : List Rank} (length : rs.length = qs.length)
    (first : rs.Pairwise (fun r q => q.index < r.index))
    (second : qs.Pairwise (fun r q => q.index < r.index)) :
    Ord.compare (weight rs) (weight qs) = compareAll rs qs := by
  induction rs generalizing qs with
  | nil =>
    obtain rfl := List.length_eq_zero_iff.1 length.symm
    rw [compareAll_nil]
    rfl
  | cons r rs ih =>
    cases qs with
    | nil => simp at length
    | cons q qs =>
      rw [List.pairwise_cons] at first second
      have rest := ih (Nat.succ.inj length) first.2 second.2
      have lighter := weight_lt first.1 first.2
      have lighter' := weight_lt second.1 second.2
      rw [compareAll_cons, weight_cons, weight_cons]
      rcases Nat.lt_trichotomy r.index q.index with less | same | more
      · -- the higher top outweighs all that lies below the other one
        have power : 2 ^ (r.index + 1) ≤ 2 ^ q.index := Nat.pow_le_pow_right (by decide) less
        rw [Nat.pow_succ] at power
        rw [Nat.compare_eq_lt.2 less, Nat.compare_eq_lt.2 (by omega)]
        rfl
      · rw [same, Nat.compare_eq_eq.2 rfl, Ordering.eq_then, ← rest]
        simp only [Nat.compare_eq_ite_lt, Nat.add_lt_add_iff_left]
      · have power : 2 ^ (q.index + 1) ≤ 2 ^ r.index := Nat.pow_le_pow_right (by decide) more
        rw [Nat.pow_succ] at power
        rw [Nat.compare_eq_gt.2 more, Nat.compare_eq_gt.2 (by omega)]
        rfl

/-- Among more ranks the highest weigh at least as much, however many are taken. -/
theorem weight_take_le {rs qs : List Rank} (sub : rs.Sublist qs)
    (falling : qs.Pairwise (fun r q => q.index < r.index)) (n : Nat) :
    weight (rs.take n) ≤ weight (qs.take n) := by
  -- the sublist loses its own head when it does not start with that of the list
  induction qs generalizing rs n with
  | nil =>
    rw [List.sublist_nil.1 sub]
  | cons q qs ih =>
    rw [List.pairwise_cons] at falling
    cases n with
    | zero => simp
    | succ n =>
      cases rs with
      | nil => exact Nat.zero_le _
      | cons r rs =>
        rw [List.take_succ_cons, List.take_succ_cons, weight_cons, weight_cons]
        rcases List.sublist_cons_iff.1 sub with later | ⟨tail, same, rest⟩
        · have below := falling.1 r (later.subset List.mem_cons_self)
          have power : 2 ^ r.index ≤ 2 ^ q.index :=
            Nat.pow_le_pow_right (by decide) (Nat.le_of_lt below)
          have rest := ih ((List.sublist_cons_self r rs).trans later) falling.2 n
          omega
        · obtain ⟨rfl, rfl⟩ := List.cons.inj same
          have rest := ih rest falling.2 n
          omega

end Rank

namespace RankSet

variable {a b : RankSet}

/-- The ranks of a set are listed from the lowest up. -/
theorem ranks_sorted (a : RankSet) : a.ranks.Pairwise (fun r q => r.index < q.index) :=
  Rank.all_sorted.sublist List.filter_sublist

/-- A set's ranks listed from the top. -/
def descending (a : RankSet) : List Rank := a.ranks.reverse

/-- The ranks of a set in descending order fall strictly. -/
theorem descending_sorted (a : RankSet) :
    a.descending.Pairwise (fun r q => q.index < r.index) :=
  List.pairwise_reverse.2 a.ranks_sorted

/-- The descending ranks are the members of the set. -/
theorem mem_descending {r : Rank} : r ∈ a.descending ↔ a.contains r = true := by
  rw [descending, List.mem_reverse, mem_ranks]

/-- The descending ranks are distinct. -/
theorem descending_nodup (a : RankSet) : a.descending.Nodup :=
  a.descending_sorted.imp (fun below same => absurd (same ▸ below) (Nat.lt_irrefl _))

/-- Both listings of a set are equally long. -/
theorem length_descending (a : RankSet) : a.descending.length = a.ranks.length :=
  List.length_reverse

/-- Two sets of the same value are one set. -/
theorem eq_of_value_eq (same : a.value = b.value) : a = b := by
  obtain ⟨x⟩ := a
  obtain ⟨y⟩ := b
  exact congrArg RankSet.mk (BitVec.eq_of_toNat_eq same)

/-- The value of a set has sixteen bits. -/
theorem value_lt (a : RankSet) : a.value < 2 ^ 16 := a.bits.isLt

/-! ## The value of a set of listed ranks -/

/-- The value of the set of one rank is that rank's bit. -/
theorem value_single (r : Rank) : (single r).value = 2 ^ r.index := by
  cases r <;> rfl

/-- One more rank adds its bit to the value. -/
theorem value_union_single {r : Rank} (absent : a.contains r = false) :
    (a.union (single r)).value = a.value + 2 ^ r.index := by
  have apart : a.bits &&& BitVec.twoPow 16 r.index = 0#16 := by
    rw [BitVec.and_twoPow]
    exact if_neg (by rw [show a.bits.getLsbD r.index = false from absent]; simp)
  rw [← value_single r]
  show (a.bits ||| BitVec.twoPow 16 r.index).toNat = _
  rw [← BitVec.add_eq_or_of_and_eq_zero _ _ apart, BitVec.toNat_add_of_and_eq_zero apart]
  rfl

/-- The value of a set made from a list of different ranks is what the list weighs. -/
theorem value_ofRanks {rs : List Rank} (distinct : rs.Nodup) :
    (ofRanks rs).value = Rank.weight rs := by
  have fold : ∀ (rs : List Rank) (a : RankSet), rs.Nodup → (∀ r ∈ rs, a.contains r = false) →
      (rs.foldl (fun a r => a.union (single r)) a).value = a.value + Rank.weight rs := by
    intro rs
    induction rs with
    | nil =>
      intro a _ _
      rfl
    | cons q qs ih =>
      intro a distinct apart
      rw [List.nodup_cons] at distinct
      have absent := apart q List.mem_cons_self
      have later : ∀ r ∈ qs, (a.union (single q)).contains r = false := by
        intro r mem
        have other : q ≠ r := fun same => distinct.1 (same ▸ mem)
        rw [contains_union, apart r (List.mem_cons_of_mem q mem), contains_single]
        simp [other]
      rw [List.foldl_cons, ih _ distinct.2 later, value_union_single absent, Rank.weight_cons]
      omega
  have all := fold rs empty distinct (fun r _ => contains_empty r)
  rw [ofRanks, all]
  exact Nat.zero_add _

/-! ## The highest ranks of a set -/

/-- Keeping the highest ranks of a set keeps the first of them, listed from the top. -/
theorem descending_keepTop (n : Nat) (a : RankSet) :
    (a.keepTop n).descending = a.descending.take n := by
  have kept : (a.descending.take n).reverse.Pairwise (fun r q => r.index < q.index) :=
    List.pairwise_reverse.2 (a.descending_sorted.sublist (List.take_sublist n _))
  have ranks : (a.keepTop n).ranks = (a.descending.take n).reverse := by
    apply Rank.eq_of_sorted (a.keepTop n).ranks_sorted kept
    intro r
    rw [mem_ranks, keepTop, contains_ofRanks, decide_eq_true_iff, List.mem_reverse]
    rfl
  rw [descending, ranks, List.reverse_reverse]

/-- The value of the top ranks is the weight of the first descending ones. -/
theorem value_keepTop (n : Nat) (a : RankSet) :
    (a.keepTop n).value = Rank.weight (a.descending.take n) :=
  value_ofRanks (a.descending_nodup.sublist (List.take_sublist n _))

/-- Of a set as many ranks are kept as asked for, or all. -/
theorem length_keepTop (n : Nat) (a : RankSet) :
    (a.keepTop n).descending.length = min n a.descending.length := by
  rw [descending_keepTop, List.length_take]

/-- A kept rank is a member of the set. -/
theorem contains_of_keepTop {n : Nat} {r : Rank} (kept : (a.keepTop n).contains r = true) :
    a.contains r = true := by
  rw [← mem_descending, descending_keepTop] at kept
  exact mem_descending.1 (List.mem_of_mem_take kept)

/-- Of more ranks, the highest are worth at least as much. -/
theorem value_keepTop_mono (n : Nat) (sub : ∀ r, a.contains r = true → b.contains r = true) :
    (a.keepTop n).value ≤ (b.keepTop n).value := by
  rw [value_keepTop, value_keepTop]
  exact Rank.weight_take_le (List.monotone_filter_right Rank.all sub).reverse b.descending_sorted n

/-- What is kept of a set is kept of every set between the two. -/
theorem keepTop_of_between {n : Nat} (sub : ∀ r, b.contains r = true → a.contains r = true)
    (kept : ∀ r, (a.keepTop n).contains r = true → b.contains r = true) :
    b.keepTop n = a.keepTop n := by
  have less := value_keepTop_mono n sub
  have more := value_keepTop_mono n kept
  have again : ((a.keepTop n).keepTop n).value = (a.keepTop n).value := by
    rw [value_keepTop, descending_keepTop, List.take_take, Nat.min_self, value_keepTop]
  exact eq_of_value_eq (Nat.le_antisymm less (again ▸ more))

/-- Kickers in equal number compare as their ranks do, listed from the top. -/
theorem compare_value_keepTop {n m : Nat}
    (length : (a.keepTop n).descending.length = (b.keepTop m).descending.length) :
    Ord.compare (a.keepTop n).value (b.keepTop m).value =
      Rank.compareAll (a.keepTop n).descending (b.keepTop m).descending := by
  rw [value_keepTop, value_keepTop, ← descending_keepTop, ← descending_keepTop]
  exact Rank.compare_weight length (descending_sorted _) (descending_sorted _)

end RankSet

end Holdem
