import Holdem.Proofs.Outcome
import Holdem.Proofs.Within
import Holdem.Search.Sampling

/-!
# What sampling draws

However the words fall, sampling makes as many draws as the tokens buy, at least one, and each of
them falls on a candidate; a candidate that is drawn several times is one branch. A branch plays the
action it was drawn with and weighs as much of the whole as it has of the draws. Branches together
take no more tokens than there are, since each takes at most its part of the whole. Sampling fails
only where playing does, or where shares are in proportion to counts and tokens times draws is no
number of sixty-four bits.
-/

set_option autoImplicit false

namespace Holdem

/-- What a branch from a table is, when all branches together have a number of draws. -/
structure Branch.From {α : Type} [Scalar α] (t : Table) (total : Nat) (b : Branch α) : Prop where
  plays : t.play b.action = .ok b.table
  count_pos : 0 < b.count
  weight : b.weight = Scalar.ratio b.count total

/-- Branches from a table by some actions, at least one of them, no two by one place of the list. -/
structure Branches {α : Type} [Scalar α] (t : Table) (tokens : Nat) (actions : List Action)
    (branches : List (Branch α)) : Prop where
  some : branches ≠ []
  sub : (branches.map Branch.action).Subperm actions
  tokens_sum : (branches.map Branch.tokens).sum ≤ tokens
  each : ∀ b ∈ branches, b.From t (branches.map Branch.count).sum

/-- Where each takes at most its part of a whole, all together take no more than there is. -/
theorem sum_shares_le {β : Type} {items : List β} {share part : β → Nat} {tokens whole : Nat}
    (pos : 0 < whole) (parts : (items.map part).sum ≤ whole)
    (each : ∀ b ∈ items, share b * whole ≤ tokens * part b) : (items.map share).sum ≤ tokens := by
  have shares : (items.map share).sum * whole ≤ tokens * (items.map part).sum := by
    rw [← List.sum_map_mul_right, ← List.sum_map_mul_left]
    exact List.sum_le_sum each
  refine Nat.le_of_mul_le_mul_right ?_ pos
  exact shares.trans (Nat.mul_le_mul_left tokens parts)

/-- The part of a child that was drawn a number of times, as its share of the tokens counts it. -/
def Split.part (split : Split) (count : Nat) : Nat :=
  match split with
  | .proportional => count
  | .uniform => 1

/-- The whole that the parts belong to. -/
def Split.whole (split : Split) (draws distinct : Nat) : Nat :=
  match split with
  | .proportional => max draws 1
  | .uniform => max distinct 1

/-- Either split divides by a positive number. -/
theorem Split.whole_pos (split : Split) (draws distinct : Nat) :
    0 < split.whole draws distinct := by
  cases split <;> exact Nat.lt_of_lt_of_le Nat.one_pos (Nat.le_max_right _ _)

/-- The parts of a split sum to no more than the whole. -/
theorem Split.sum_part_le (split : Split) (counts : List Nat) :
    (counts.map split.part).sum ≤ split.whole counts.sum counts.length := by
  cases split with
  | proportional =>
    show (counts.map id).sum ≤ max counts.sum 1
    rw [List.map_id]
    exact Nat.le_max_left _ _
  | uniform =>
    show (counts.map (fun _ => 1)).sum ≤ max counts.length 1
    simp

namespace Sampling

section

variable {α : Type} {cs : List (Candidate α)}

/-- What is drawn from some candidates in a number of draws. -/
structure Drawn (cs : List (Candidate α)) (n : Nat) (drawn : List (Draw α)) : Prop where
  sub : (drawn.map Draw.candidate).Subperm cs
  count_pos : ∀ d ∈ drawn, 0 < d.count
  counts : (drawn.map Draw.count).sum = n

/-- A drawn candidate is one of the candidates. -/
theorem Drawn.candidate_mem {n : Nat} {drawn : List (Draw α)} (spec : Drawn cs n drawn) {d : Draw α}
    (mem : d ∈ drawn) : d.candidate ∈ cs := spec.sub.subset (List.mem_map_of_mem mem)

/-- Where a draw is asked for there is one. -/
theorem Drawn.ne_nil {n : Nat} {drawn : List (Draw α)} (spec : Drawn cs n drawn) (pos : 0 < n) :
    drawn ≠ [] := by
  rintro rfl
  exact Nat.ne_of_gt pos spec.counts.symm

/-- At least one draw is made. -/
theorem draws_pos (s : Sampling) (tokens : Nat) : 0 < s.draws tokens :=
  Nat.lt_of_lt_of_le Nat.one_pos (Nat.le_max_right _ _)

/-- Candidates that were not drawn add nothing to the draws. -/
theorem sum_count_filter (drawn : List (Draw α)) :
    ((drawn.filter (fun d => 0 < d.count)).map Draw.count).sum = (drawn.map Draw.count).sum := by
  induction drawn with
  | nil => rfl
  | cons d drawn ih =>
    by_cases counted : 0 < d.count
    · simp [counted, ih]
    · have none : d.count = 0 := Nat.eq_zero_of_not_pos counted
      simp [none, ih]

/-- Each of some places below a bound is counted once. -/
theorem sum_count_range {places : List Nat} {n : Nat} (below : ∀ place ∈ places, place < n) :
    ((List.range n).map (fun i => places.count i)).sum = places.length := by
  have counted := Multiset.sum_count_eq_card (s := Finset.range n) (m := (places : Multiset Nat))
    (fun place mem => Finset.mem_range.2 (below place mem))
  simpa [Finset.sum, Multiset.range] using counted

end

variable {α σ : Type} [Scalar α] [WordSource σ] {F : Failure → Prop} {cs : List (Candidate α)}

/-- There are as many running sums as candidates. -/
theorem length_cumulative (sum : α) (cs : List (Candidate α)) :
    (cumulative sum cs).length = cs.length := by
  induction cs generalizing sum with
  | nil => rfl
  | cons c cs ih => exact congrArg Nat.succ (ih _)

/-- A draw falls on one of the sums. -/
theorem placeOf_lt {sums : List α} (some : sums ≠ []) (u : α) : placeOf sums u < sums.length := by
  unfold placeOf
  cases found : sums.findIdx? (fun sum => Scalar.lt u sum) with
  | none => exact Nat.sub_lt (List.length_pos_of_ne_nil some) Nat.one_pos
  | some i => exact (List.findIdx?_eq_some_iff_getElem.1 found).1

/-- As many places are drawn as asked for, each that of a candidate. -/
theorem within_drawPlaces {sums : List α} (some : sums ≠ []) (n : Nat) :
    Random.Within F (fun places => places.length = n ∧ ∀ place ∈ places, place < sums.length)
      (drawPlaces sums n : Random σ (List Nat)) := by
  induction n with
  | zero => exact Random.within_pure ⟨rfl, fun _ mem => absurd mem List.not_mem_nil⟩
  | succ n ih =>
    refine Random.within_unit.bind (fun u _ => ih.bind (fun places spec => Random.within_pure ?_))
    obtain ⟨length, below⟩ := spec
    exact ⟨congrArg Nat.succ length, List.forall_mem_cons.2 ⟨placeOf_lt some u, below⟩⟩

/-- A candidate is collected with the number of draws that fell on its place, unless none did. -/
theorem mem_collect {places : List Nat} {d : Draw α} : d ∈ collect cs places ↔
    ∃ i, ∃ h : i < cs.length, d = ⟨cs[i], places.count i⟩ ∧ 0 < places.count i := by
  unfold collect
  rw [(Order.insertionSort_perm _ _).mem_iff, List.mem_filter, List.mem_mapIdx]
  constructor
  · rintro ⟨⟨i, h, rfl⟩, counted⟩
    exact ⟨i, h, rfl, of_decide_eq_true counted⟩
  · rintro ⟨i, h, rfl, counted⟩
    exact ⟨⟨i, h, rfl⟩, decide_eq_true counted⟩

/-- What is collected from draws on places of candidates, as many as are wanted. -/
theorem drawn_collect {places : List Nat} (below : ∀ place ∈ places, place < cs.length) :
    Drawn cs places.length (collect cs places) where
  sub := by
    have sorted := (Order.insertionSort_perm (fun a b : Draw α => a.candidate.before b.candidate)
      ((cs.mapIdx (fun i c => (⟨c, places.count i⟩ : Draw α))).filter (fun d => 0 < d.count))).map
        Draw.candidate
    have all : (cs.mapIdx (fun i c => (⟨c, places.count i⟩ : Draw α))).map Draw.candidate = cs := by
      rw [List.mapIdx_eq_zipIdx_map, List.map_map]
      exact List.zipIdx_map_fst 0 cs
    have drawn := (List.filter_sublist (p := fun d : Draw α => 0 < d.count)
      (l := cs.mapIdx (fun i c => ⟨c, places.count i⟩))).map Draw.candidate
    rw [all] at drawn
    exact sorted.subperm.trans drawn.subperm
  count_pos := by
    intro d mem
    obtain ⟨i, h, rfl, counted⟩ := mem_collect.1 mem
    exact counted
  counts := by
    have sorted := (Order.insertionSort_perm (fun a b : Draw α => a.candidate.before b.candidate)
      ((cs.mapIdx (fun i c => (⟨c, places.count i⟩ : Draw α))).filter (fun d => 0 < d.count))).map
        Draw.count
    have all : (cs.mapIdx (fun i c => (⟨c, places.count i⟩ : Draw α))).map Draw.count =
        (List.range cs.length).map (fun i => places.count i) := by
      rw [List.mapIdx_eq_zipIdx_map, List.map_map, List.range_eq_range', ← List.zipIdx_map_snd 0 cs,
        List.map_map]
      rfl
    rw [collect, sorted.sum_eq, sum_count_filter, all, sum_count_range below]

/-- Sampling draws candidates, as many times as the tokens allow. -/
theorem within_sample (s : Sampling) (some : cs ≠ []) (tokens : Nat) :
    Random.Within F (Drawn cs (s.draws tokens))
      (s.sample cs tokens : Random σ (List (Draw α))) := by
  have sums : cumulative (Scalar.ofNat 0) cs ≠ [] := by
    rw [← List.length_pos_iff_ne_nil, length_cumulative]
    exact List.length_pos_of_ne_nil some
  unfold sample
  rw [if_neg (by simpa using some)]
  refine (within_drawPlaces sums (s.draws tokens)).bind (fun places spec => Random.within_pure ?_)
  obtain ⟨length, below⟩ := spec
  rw [length_cumulative] at below
  exact length ▸ drawn_collect below

/-- The share of a child is at most its part of the whole. -/
theorem within_allot (split : Split) (tokens count draws distinct : Nat) :
    Outcome.Within (fun e => e = .fault .mulOverflow ∧ split = .proportional ∧
        countLimit ≤ tokens * count)
      (fun share => share * split.whole draws distinct ≤ tokens * split.part count)
      (allot split tokens count draws distinct) := by
  cases split with
  | proportional =>
    refine ((Outcome.within_mulCounts tokens count).mono
      (fun e wrong => ⟨wrong.1, rfl, wrong.2⟩) (fun _ => id)).bind ?_
    rintro product rfl
    exact Nat.div_mul_le_self _ _
  | uniform =>
    show tokens / max distinct 1 * max distinct 1 ≤ tokens * 1
    rw [Nat.mul_one]
    exact Nat.div_mul_le_self _ _

/-- What is drawn from candidates and played are branches by their actions, of all draws that the
tokens buy. -/
theorem within_expand (s : Sampling) {t : Table} {tokens : Nat} (some : cs ≠ [])
    (plays : ∀ c ∈ cs, Outcome.Within F (fun _ => True) (t.play c.action))
    (spill : s.split = .proportional → countLimit ≤ tokens * max s.samples 1 →
      F (.fault .mulOverflow)) :
    Random.Within F (fun branches => Branches t tokens (cs.map Candidate.action) branches ∧
        (branches.map Branch.count).sum = s.draws tokens)
      (s.expand t cs tokens : Random σ (List (Branch α))) := by
  unfold expand
  refine (s.within_sample some tokens).bind (fun drawn spec => ?_)
  have few : s.draws tokens ≤ max s.samples 1 :=
    max_le_max (Nat.min_le_left _ _) (Nat.le_refl _)
  have each : ∀ d ∈ drawn, Outcome.Within F
      (fun b => b.From t (drawn.map Draw.count).sum ∧ b.count = d.count ∧
        b.action = d.candidate.action ∧
        b.tokens * s.split.whole (drawn.map Draw.count).sum drawn.length ≤
          tokens * s.split.part b.count)
      (s.branch t tokens (drawn.map Draw.count).sum drawn.length d) := by
    intro d mem
    have part : d.count ≤ s.draws tokens :=
      spec.counts ▸ List.le_sum_of_mem (List.mem_map_of_mem mem)
    have share := (within_allot s.split tokens d.count (drawn.map Draw.count).sum drawn.length).mono
      (G := F) (by
        rintro _ ⟨rfl, split, large⟩
        exact spill split (large.trans (Nat.mul_le_mul_left tokens (part.trans few)))) (fun _ => id)
    unfold branch
    cases played : t.play d.candidate.action with
    | error e => exact (plays _ (spec.candidate_mem mem)).error played
    | ok u =>
      refine share.bind (fun share fits => ?_)
      exact ⟨⟨played, spec.count_pos d mem, rfl⟩, rfl, rfl, fits⟩
  refine (Random.within_mapM (fun d mem => Random.within_lift (each d mem))).mono
    (fun _ => id) (fun branches made => ?_)
  have counts : drawn.map Draw.count = branches.map Branch.count :=
    map_eq_of_forall₂ made (fun _ _ spec => spec.2.1.symm)
  have actions : (drawn.map Draw.candidate).map Candidate.action = branches.map Branch.action := by
    rw [List.map_map]
    exact map_eq_of_forall₂ made (fun _ _ spec => spec.2.2.1.symm)
  have length : drawn.length = (branches.map Branch.count).length := by
    rw [← counts, List.length_map]
  have parts := s.split.sum_part_le (branches.map Branch.count)
  rw [List.map_map] at parts
  refine ⟨⟨?_, ?_, ?_, ?_⟩, counts ▸ spec.counts⟩
  · rintro rfl
    exact spec.ne_nil (s.draws_pos tokens) (List.forall₂_nil_right_iff.1 made)
  · obtain ⟨listed, perm, sub⟩ := spec.sub
    exact actions ▸ ⟨listed.map Candidate.action, perm.map _, sub.map _⟩
  · refine sum_shares_le (s.split.whole_pos _ _) parts (fun b mem => ?_)
    obtain ⟨d, _, _, _, _, fits⟩ := exists_left_of_forall₂ made mem
    rwa [counts, length] at fits
  · intro b mem
    obtain ⟨d, _, origin, _⟩ := exists_left_of_forall₂ made mem
    exact counts ▸ origin

end Sampling

end Holdem
