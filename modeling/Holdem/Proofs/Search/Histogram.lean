import Holdem.Chance.Xoshiro
import Holdem.Proofs.Scalar
import Holdem.Proofs.Search.Sampling

/-!
# Sampling counts hits

The probabilities of some candidates, added up from the first on, cut the numbers from zero to one
into parts, one for each candidate; what is left over belongs to the last. In exact arithmetic a
draw is the candidate in whose part a number lies, and sampling counts these hits: each candidate
that is hit is returned once, with the number of its hits, and no other. The order of what is
returned is that in which candidates are shown. A candidate of no probability has an empty part.
-/

set_option autoImplicit false

namespace Holdem

/-! ## The order of candidates -/

namespace Candidate

variable {c d : Candidate ℚ}

/-- What candidates are sorted by: the likelier first, then by name, then from large to small. -/
def sortKey (c : Candidate ℚ) : ℚᵒᵈ ×ₗ String ×ₗ Chipsᵒᵈ :=
  toLex (OrderDual.toDual c.probability,
    toLex (c.action.label, OrderDual.toDual c.action.amount))

/-- Candidates are in the order of their sort keys. -/
theorem order_eq_lt_iff : c.order d = .lt ↔ c.sortKey < d.sortKey := by
  rw [order, Ordering.then_eq_lt, Scalar.compare_rat, compare_lt_iff_lt, compare_eq_iff_eq, sortKey,
    sortKey, Prod.Lex.toLex_lt_toLex, Prod.Lex.toLex_lt_toLex]
  refine or_congr Iff.rfl (and_congr (by rw [eq_comm]; rfl) ?_)
  by_cases same : c.action.label = d.action.label
  · rw [if_pos same, compare_lt_iff_lt]
    simp [same]
  · rw [if_neg same, compare_lt_iff_lt]
    simp [same]

/-- The order of two candidates turned round. -/
theorem order_eq_gt_iff : c.order d = .gt ↔ d.sortKey < c.sortKey := by
  rw [order, Ordering.then_eq_gt, Scalar.compare_rat, compare_gt_iff_gt, compare_eq_iff_eq, sortKey,
    sortKey, Prod.Lex.toLex_lt_toLex, Prod.Lex.toLex_lt_toLex]
  refine or_congr Iff.rfl (and_congr Iff.rfl ?_)
  by_cases same : c.action.label = d.action.label
  · rw [if_pos same, compare_gt_iff_gt]
    simp [same]
  · rw [if_neg same, compare_gt_iff_gt]
    simp [Ne.symm same]

end Candidate

/-! ## Parts -/

namespace Sampling

variable {cs : List (Candidate ℚ)} {u : ℚ} {i j : Nat}

/-- The sum of the probabilities up to a place, with its own. -/
def massUpTo (cs : List (Candidate ℚ)) (i : Nat) : ℚ :=
  ((cs.take (i + 1)).map Candidate.probability).sum

/-- A number falls on the first place up to which the probabilities sum to more than it, or on the
last place if there is none. -/
def FallsOn (cs : List (Candidate ℚ)) (u : ℚ) (i : Nat) : Prop :=
  i < cs.length ∧ u < massUpTo cs i ∧ (∀ j < i, massUpTo cs j ≤ u) ∨
    i + 1 = cs.length ∧ ∀ j < cs.length, massUpTo cs j ≤ u

instance : Decidable (FallsOn cs u i) :=
  inferInstanceAs (Decidable (_ ∧ _ ∧ (∀ j < i, _) ∨ _ ∧ ∀ j < cs.length, _))

/-- How many of some numbers fall on a place. -/
def hits (cs : List (Candidate ℚ)) (us : List ℚ) (i : Nat) : Nat :=
  us.countP (fun u => FallsOn cs u i)

/-- A running sum is the start and the probabilities up to its place. -/
theorem getElem_cumulative (sum : ℚ) (cs : List (Candidate ℚ)) (i : Nat)
    (h : i < (cumulative sum cs).length) : (cumulative sum cs)[i] = sum + massUpTo cs i := by
  induction cs generalizing sum i with
  | nil => exact absurd h (Nat.not_lt_zero i)
  | cons c cs ih =>
    cases i with
    | zero => simp [cumulative, massUpTo]
    | succ i =>
      have h : i < (cumulative (sum + c.probability) cs).length := Nat.lt_of_succ_lt_succ h
      show (cumulative (sum + c.probability) cs)[i] = _
      rw [ih, massUpTo, massUpTo, List.take_succ_cons, List.map_cons, List.sum_cons, add_assoc]

/-- A number is placed where it falls. -/
theorem placeOf_eq_iff (some : cs ≠ []) :
    placeOf (cumulative (Scalar.ofNat 0) cs) u = i ↔ FallsOn cs u i := by
  have length : (cumulative (Scalar.ofNat 0) cs).length = cs.length := length_cumulative _ cs
  have mass : ∀ j (h : j < (cumulative (Scalar.ofNat 0) cs).length),
      Scalar.lt u (cumulative (Scalar.ofNat 0) cs)[j] = true ↔ u < massUpTo cs j := by
    intro j h
    rw [getElem_cumulative, Scalar.lt_rat, Scalar.ofNat_rat, Nat.cast_zero, zero_add]
  have pos : 0 < cs.length := List.length_pos_of_ne_nil some
  unfold placeOf FallsOn
  cases found : (cumulative (Scalar.ofNat 0) cs).findIdx? (fun sum => Scalar.lt u sum) with
  | some k =>
    obtain ⟨h, above, first⟩ := List.findIdx?_eq_some_iff_getElem.1 found
    rw [mass] at above
    have first : ∀ j < k, massUpTo cs j ≤ u := fun j less =>
      not_lt.1 (mt (mass j (less.trans h)).2 (first j less))
    show k = i ↔ _
    constructor
    · rintro rfl
      exact .inl ⟨length ▸ h, above, first⟩
    · rintro (⟨-, here, before⟩ | ⟨-, none⟩)
      · rcases lt_trichotomy k i with less | same | less
        · exact absurd above (before k less).not_gt
        · exact same
        · exact absurd here (first i less).not_gt
      · exact absurd above (none k (length ▸ h)).not_gt
  | none =>
    have none : ∀ j < cs.length, massUpTo cs j ≤ u := by
      intro j h
      have miss := List.findIdx?_eq_none_iff.1 found _ (List.getElem_mem (length ▸ h))
      exact not_lt.1 (mt (mass j _).2 (Bool.eq_false_iff.1 miss))
    show (cumulative (Scalar.ofNat 0) cs).length - 1 = i ↔ _
    rw [length]
    constructor
    · rintro rfl
      exact .inr ⟨Nat.sub_add_cancel pos, none⟩
    · rintro (⟨h, here, -⟩ | ⟨last, -⟩)
      · exact absurd here (none i h).not_gt
      · lia

/-- The first mass is the first probability. -/
theorem massUpTo_zero (some : 0 < cs.length) : massUpTo cs 0 = cs[0].probability := by
  rw [massUpTo, List.take_succ_eq_append_getElem some]
  simp

/-- The mass grows by the probability of the next candidate. -/
theorem massUpTo_succ (h : i + 1 < cs.length) :
    massUpTo cs (i + 1) = massUpTo cs i + cs[i + 1].probability := by
  rw [massUpTo, massUpTo, List.take_succ_eq_append_getElem h, List.map_append, List.sum_append]
  simp

/-- The last mass is the sum of all probabilities. -/
theorem massUpTo_last (last : i + 1 = cs.length) :
    massUpTo cs i = (cs.map Candidate.probability).sum := by
  rw [massUpTo, last, List.take_length]

/-- Where the probabilities sum to at least one, a number below one falls on no candidate without
any: the sum before that candidate is the sum up to it. -/
theorem FallsOn.probability_ne_zero (falls : FallsOn cs u i) (nonneg : 0 ≤ u) (below : u < 1)
    (whole : 1 ≤ (cs.map Candidate.probability).sum) (h : i < cs.length) :
    cs[i].probability ≠ 0 := by
  rcases falls with ⟨-, above, before⟩ | ⟨last, none⟩
  · intro zero
    cases i with
    | zero =>
      rw [massUpTo_zero h, zero] at above
      exact absurd nonneg above.not_ge
    | succ i =>
      rw [massUpTo_succ h, zero, add_zero] at above
      exact absurd above (before i (Nat.lt_succ_self i)).not_gt
  · have all := none i h
    rw [massUpTo_last last] at all
    exact absurd (whole.trans all) below.not_ge

/-! ## Counting hits -/

/-- What some numbers count as draws from some candidates. -/
def tally (cs : List (Candidate ℚ)) (us : List ℚ) : List (Draw ℚ) :=
  collect cs (us.map (placeOf (cumulative (Scalar.ofNat 0) cs)))

/-- Draws that count where some numbers fall: the places that are hit, each once with its number of
hits, in the order in which candidates are shown. -/
structure Histogram (cs : List (Candidate ℚ)) (us : List ℚ) (drawn : List (Draw ℚ)) : Prop where
  falls : ∀ u ∈ us, ∃! i, FallsOn cs u i
  counted : drawn.Perm (((List.finRange cs.length).filter
    (fun i : Fin cs.length => 0 < hits cs us i.val)).map (fun i => ⟨cs[i], hits cs us i.val⟩))
  total : (drawn.map Draw.count).sum = us.length
  sorted : drawn.Pairwise (fun d e => d.candidate.order e.candidate ≠ .gt)
  likely : 1 ≤ (cs.map Candidate.probability).sum → ∀ d ∈ drawn, d.candidate.probability ≠ 0

/-- A candidate is drawn by as many numbers as fall into its stretch. -/
theorem count_places (some : cs ≠ []) (us : List ℚ) (i : Nat) :
    (us.map (placeOf (cumulative (Scalar.ofNat 0) cs))).count i = hits cs us i := by
  rw [List.count, List.countP_map, hits]
  refine List.countP_congr (fun u _ => ?_)
  simp [placeOf_eq_iff some]

/-- The draws collected are the candidates that were hit, each with its number of hits, in some
order. -/
theorem collect_perm (cs : List (Candidate ℚ)) (places : List Nat) :
    (collect cs places).Perm (((List.finRange cs.length).filter
      (fun i : Fin cs.length => 0 < places.count i.val)).map
        (fun i => ⟨cs[i], places.count i.val⟩)) := by
  refine (Order.insertionSort_perm _ _).trans (.of_eq ?_)
  rw [List.mapIdx_eq_ofFn, List.ofFn_eq_map, List.filter_map]
  rfl

/-- The draws are collected in the order of the candidates. -/
theorem pairwise_collect (cs : List (Candidate ℚ)) (places : List Nat) :
    (collect cs places).Pairwise (fun d e => d.candidate.order e.candidate ≠ .gt) := by
  have sorted : (collect cs places).Pairwise
      (fun d e => d.candidate.sortKey ≤ e.candidate.sortKey) := by
    refine Order.pairwise_insertionSort
      (R := fun d e : Draw ℚ => d.candidate.sortKey ≤ e.candidate.sortKey)
      (fun d e before => ?_) (fun d e after => ?_) (fun d e f => le_trans) _
    · exact (Candidate.order_eq_lt_iff.1 (eq_of_beq before)).le
    · exact not_lt.1 (mt Candidate.order_eq_lt_iff.2 (ne_of_beq_false after))
  exact sorted.imp (fun le => mt Candidate.order_eq_gt_iff.1 le.not_gt)

/-- Tallying numbers from the unit interval gives the histogram of the candidates they hit. -/
theorem histogram_tally (some : cs ≠ []) {us : List ℚ} (range : ∀ u ∈ us, 0 ≤ u ∧ u < 1) :
    Histogram cs us (tally cs us) where
  falls := fun u _ =>
    ⟨_, (placeOf_eq_iff some).1 rfl, fun i falls => ((placeOf_eq_iff some).2 falls).symm⟩
  counted := by
    have perm := collect_perm cs (us.map (placeOf (cumulative (Scalar.ofNat 0) cs)))
    simp only [count_places some] at perm
    exact perm
  total := by
    have sums : cumulative (Scalar.ofNat 0) cs ≠ [] := by
      rw [← List.length_pos_iff_ne_nil, length_cumulative]
      exact List.length_pos_of_ne_nil some
    have below : ∀ place ∈ us.map (placeOf (cumulative (Scalar.ofNat 0) cs)),
      place < cs.length := by
      intro place mem
      obtain ⟨u, -, rfl⟩ := List.mem_map.1 mem
      exact length_cumulative (Scalar.ofNat 0) cs ▸ placeOf_lt sums u
    exact (drawn_collect below).counts.trans (List.length_map _)
  sorted := pairwise_collect cs _
  likely := by
    intro whole d mem
    obtain ⟨i, h, rfl, hit⟩ := mem_collect.1 mem
    rw [count_places some] at hit
    obtain ⟨u, inUs, falls⟩ := List.countP_pos_iff.1 hit
    obtain ⟨nonneg, below⟩ := range u inUs
    exact (of_decide_eq_true falls).probability_ne_zero nonneg below whole h

/-- Where a number is drawn the histogram has a draw. -/
theorem Histogram.ne_nil {us : List ℚ} {drawn : List (Draw ℚ)} (histogram : Histogram cs us drawn)
    (some : us ≠ []) : drawn ≠ [] := by
  rintro rfl
  exact some (List.length_eq_zero_iff.1 histogram.total.symm)

end Sampling

/-! ## Draws from a stream of words -/

variable {σ : Type} [WordSource σ]

namespace Random

/-- The numbers from zero to one that the next words give. -/
def units : Nat → Random σ (List ℚ)
  | 0 => return []
  | n + 1 => do return (← unit) :: (← units n)

/-- A uniform rational is at least zero and less than one. -/
theorem within_unit_rat {F : Failure → Prop} :
    Within F (fun u => 0 ≤ u ∧ u < 1) (unit : Random σ ℚ) := by
  refine within_word.bind (fun w _ => within_pure (Scalar.ratio_bounds ?_))
  exact Nat.div_lt_of_lt_mul w.toNat_lt

/-- As many uniform rationals are drawn as asked for, each from the unit interval. -/
theorem within_units {F : Failure → Prop} (n : Nat) :
    Within F (fun us => us.length = n ∧ ∀ u ∈ us, 0 ≤ u ∧ u < 1)
      (units n : Random σ (List ℚ)) := by
  induction n with
  | zero => exact within_pure ⟨rfl, fun u mem => absurd mem List.not_mem_nil⟩
  | succ n ih =>
    refine within_unit_rat.bind (fun u first => ih.bind (fun us rest => within_pure ?_))
    exact ⟨congrArg Nat.succ rest.1, List.forall_mem_cons.2 ⟨first, rest.2⟩⟩

/-- Drawing uniform rationals always ends. -/
theorem exists_units (n : Nat) (g : σ) : ∃ us g', units n g = .ok (us, g') ∧ us.length = n ∧
    ∀ u ∈ us, 0 ≤ u ∧ u < 1 := by
  have within := within_units (F := fun _ => False) n g
  cases ended : (units n : Random σ (List ℚ)) g with
  | error e => exact (within.error ended).elim
  | ok end_ => exact ⟨end_.1, end_.2, rfl, within.ok ended⟩

end Random

namespace Sampling

/-- The places of some draws are those on which the numbers that the words give are placed. -/
theorem drawPlaces_eq (sums : List ℚ) (n : Nat) :
    (drawPlaces sums n : Random σ (List Nat)) =
      (Random.units n >>= fun us => pure (us.map (placeOf sums))) := by
  induction n with
  | zero => rfl
  | succ n ih =>
    rw [drawPlaces, Random.units]
    simp [ih]

/-- Sampling tallies the numbers that the words give. -/
theorem sample_eq (s : Sampling) {cs : List (Candidate ℚ)} (some : cs ≠ []) (tokens : Nat) :
    (s.sample cs tokens : Random σ (List (Draw ℚ))) =
      (Random.units (s.draws tokens) >>= fun us => pure (tally cs us)) := by
  rw [sample, if_neg (by simpa using some), drawPlaces_eq]
  simp [tally]

/-- Sampling counts hits. Without candidates nothing is drawn. With some, as many numbers are drawn
as the tokens buy, at least one, from zero up to and without one, and what is returned is their
histogram; and it would be so whatever these numbers were. -/
theorem sample_counts_hits (s : Sampling) (cs : List (Candidate ℚ)) (tokens : Nat) :
    (∀ us : List ℚ, us.length = max 1 (min s.samples tokens) → (∀ u ∈ us, 0 ≤ u ∧ u < 1) →
      (tally cs us = [] ↔ cs = []) ∧ (cs ≠ [] → Histogram cs us (tally cs us))) ∧
    ∀ g : σ, ∃ us g', Random.units (max 1 (min s.samples tokens)) g = .ok (us, g') ∧
      us.length = max 1 (min s.samples tokens) ∧ (∀ u ∈ us, 0 ≤ u ∧ u < 1) ∧
      s.sample cs tokens g = .ok (tally cs us, if cs.isEmpty then g else g') := by
  constructor
  · intro us length range
    have drawn : us ≠ [] := by
      rintro rfl
      exact absurd length (Nat.ne_of_lt (Nat.lt_of_lt_of_le Nat.one_pos (Nat.le_max_left _ _)))
    refine ⟨⟨fun nothing => ?_, ?_⟩, fun some => histogram_tally some range⟩
    · by_contra some
      exact (histogram_tally some range).ne_nil drawn nothing
    · rintro rfl
      rfl
  · intro g
    obtain ⟨us, g', ended, length, range⟩ := Random.exists_units (max 1 (min s.samples tokens)) g
    refine ⟨us, g', ended, length, range, ?_⟩
    cases cs with
    | nil => rfl
    | cons c cs =>
      rw [sample_eq s (List.cons_ne_nil c cs), draws, max_comm]
      show (Random.units _ g >>= _) = _
      rw [ended]
      rfl

/-- Of two like candidates between two of no probability each is returned, the first with one draw
and the second with three. -/
theorem sample_counts_hits_twins : ∃ (cs : List (Candidate ℚ)) (us : List ℚ) (g' : Xoshiro),
    cs = [⟨.fold, 0⟩, ⟨.call 1, 1 / 2⟩, ⟨.call 1, 1 / 2⟩, ⟨.shove 9, 0⟩] ∧
    us.length = 4 ∧ (∀ u ∈ us, 0 ≤ u ∧ u < 1) ∧
    Random.units 4 (Xoshiro.ofSeed 1) = .ok (us, g') ∧
    (⟨4, .proportional⟩ : Sampling).sample cs 250 (Xoshiro.ofSeed 1) = .ok (tally cs us, g') ∧
    (tally cs us).map Draw.count = [1, 3] ∧ Histogram cs us (tally cs us) := by
  have counts : ((⟨4, .proportional⟩ : Sampling).sample
      [⟨.fold, (0 : ℚ)⟩, ⟨.call 1, 1 / 2⟩, ⟨.call 1, 1 / 2⟩, ⟨.shove 9, 0⟩] 250
        (Xoshiro.ofSeed 1)).toOption.map (fun ended => ended.1.map Draw.count) = some [1, 3] := by
    decide +kernel
  obtain ⟨all, draws⟩ := sample_counts_hits (σ := Xoshiro) ⟨4, .proportional⟩
    [⟨.fold, 0⟩, ⟨.call 1, 1 / 2⟩, ⟨.call 1, 1 / 2⟩, ⟨.shove 9, 0⟩] 250
  obtain ⟨us, g', ended, length, range, sampled⟩ := draws (Xoshiro.ofSeed 1)
  rw [sampled] at counts
  exact ⟨_, us, g', rfl, length, range, ended, sampled, Option.some.inj counts,
    (all us length range).2 (List.cons_ne_nil _ _)⟩

end Sampling

end Holdem
