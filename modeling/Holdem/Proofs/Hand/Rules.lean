import Holdem.Proofs.Hand.BestFive
import Holdem.Proofs.Hand.Order
import Mathlib

/-!
# The rules of the game on five cards

The rules look at a hand of five cards as its ranks, read from the most frequent down and from the
highest down among equally frequent ones. How often each of them occurs, whether they are five in a
row and whether the cards are of one suit gives the kind of the hand. Hands of one kind compare
rank by rank, and straights by their top alone. The strengths of five cards compare just so.
-/

set_option autoImplicit false

namespace Holdem

/-! ## The rules -/

namespace FiveCards

/-- The kinds of hands, lowest first. -/
inductive Kind where
  | highCard | onePair | twoPair | trips | straight | flush | fullHouse | quads | straightFlush
  deriving DecidableEq, Repr

/-- The place of a kind in the order. -/
def Kind.place : Kind → Nat
  | highCard => 0
  | onePair => 1
  | twoPair => 2
  | trips => 3
  | straight => 4
  | flush => 5
  | fullHouse => 6
  | quads => 7
  | straightFlush => 8

variable (f g : FiveCards)

/-- How many of the cards have a rank. -/
def often (r : Rank) : Nat := f.cards.ranks.count r

/-- Whether a rank is read no later than another: it is more frequent, or as frequent and no
lower. -/
def precedes (r q : Rank) : Bool :=
  f.often q < f.often r || (f.often q = f.often r && q.index ≤ r.index)

/-- The five ranks in the order they are read. -/
def sorted : List Rank := f.cards.ranks.mergeSort f.precedes

/-- How often each of the five ranks occurs. -/
def pattern : List Nat := f.sorted.map f.often

/-- Whether all cards are of one suit. -/
def suited : Bool := Suit.all.any (fun s => f.cards.cards.all (fun c => c.suit = s))

/-- The top of five ranks in a row, if they are; the five tops the straight that the ace opens. -/
def straightTop? : Option Rank :=
  if f.sorted = [.ace, .five, .four, .three, .two] then some .five
  else if f.sorted.IsChain (fun r q => r.index = q.index + 1) then f.sorted.head?
  else none

/-- The kind of a hand: the highest that applies. -/
def kind : Kind :=
  if f.suited ∧ f.straightTop?.isSome then .straightFlush
  else if f.pattern = [4, 4, 4, 4, 1] then .quads
  else if f.pattern = [3, 3, 3, 2, 2] then .fullHouse
  else if f.suited then .flush
  else if f.straightTop?.isSome then .straight
  else if f.pattern = [3, 3, 3, 1, 1] then .trips
  else if f.pattern = [2, 2, 2, 2, 1] then .twoPair
  else if f.pattern = [2, 2, 1, 1, 1] then .onePair
  else .highCard

/-- The ranks that decide between hands of one kind. -/
def deciding : List Rank :=
  match f.straightTop? with
  | some top => [top]
  | none => f.sorted

/-- The order of the rules: by kind, then rank by rank. -/
def compare : Ordering :=
  (Ord.compare f.kind.place g.kind.place).then (Rank.compareAll f.deciding g.deciding)

end FiveCards

/-! ## Five cards by the rules -/

/-- Ranks in a row are known by the first and by how many they are. -/
theorem eq_of_isChain {rs qs : List Rank} (first : rs.IsChain (fun r q => r.index = q.index + 1))
    (second : qs.IsChain (fun r q => r.index = q.index + 1)) (head : rs.head? = qs.head?)
    (length : rs.length = qs.length) : rs = qs := by
  induction rs generalizing qs with
  | nil => exact (List.length_eq_zero_iff.1 length.symm).symm
  | cons r rs ih =>
    cases qs with
    | nil => simp at length
    | cons q qs =>
      obtain rfl := Option.some.inj head
      rw [List.isChain_cons] at first second
      refine congrArg (r :: ·) (ih first.2 second.2 ?_ (Nat.succ.inj length))
      cases rs with
      | nil =>
        rw [List.length_eq_zero_iff.1 (Nat.succ.inj length).symm]
      | cons p rs =>
        cases qs with
        | nil => simp at length
        | cons p' qs =>
          have next := first.1 p (by simp)
          have next' := second.1 p' (by simp)
          exact congrArg some (Rank.index_injective (by omega))

/-- Below the first of ranks in a row there is room for the others. -/
theorem length_le_of_isChain {r : Rank} {rs : List Rank}
    (row : (r :: rs).IsChain (fun r q => r.index = q.index + 1)) : rs.length ≤ r.index := by
  induction rs generalizing r with
  | nil => exact Nat.zero_le _
  | cons q rs ih =>
    rw [List.isChain_cons_cons] at row
    have below := ih row.2
    rw [List.length_cons]
    omega

/-- The ranks of a straight above the wheel descend by one from the top, and are five. -/
theorem straightTo_row {r : Rank} (high : 4 ≤ r.index) :
    (RankSet.ofRanks (straightTo r)).descending.IsChain (fun r q => r.index = q.index + 1) ∧
      (RankSet.ofRanks (straightTo r)).descending.head? = some r ∧
      (RankSet.ofRanks (straightTo r)).descending.length = 5 := by
  cases r <;> first | exact absurd high (by decide) | decide

/-- The ranks of a category are spelled from the most frequent down, then from the highest. -/
theorem Category.spelling_ordered {h : Hand} {c : Category} (made : h.Makes c)
    (falling : ∀ r q, c = .twoPair r q → q.index ≤ r.index) :
    c.spelling.Pairwise (fun r q => c.spelling.count q < c.spelling.count r ∨
      c.spelling.count q = c.spelling.count r ∧ q.index ≤ r.index) := by
  have row : ∀ a : RankSet, a.descending.Pairwise (fun r q =>
      a.descending.count q < a.descending.count r ∨
        a.descending.count q = a.descending.count r ∧ q.index ≤ r.index) := by
    refine fun a => a.descending_sorted.imp_of_mem (fun first second below => .inr ⟨?_, below.le⟩)
    rw [List.count_eq_one_of_mem a.descending_nodup first,
      List.count_eq_one_of_mem a.descending_nodup second]
  cases c with
  | straight r | straightFlush r => exact row _
  | highCard r | onePair r | trips r | flush r | quads r => simp [spelling]
  | twoPair r q => simp [spelling, made.1, made.1.symm, falling r q rfl]
  | fullHouse r q => simp [spelling, made.1, made.1.symm]

/-- How often the five ranks of a strength occur, by its category. -/
def Category.pattern : Category → List Nat
  | quads _ => [4, 4, 4, 4, 1]
  | fullHouse _ _ => [3, 3, 3, 2, 2]
  | trips _ => [3, 3, 3, 1, 1]
  | twoPair _ _ => [2, 2, 2, 2, 1]
  | onePair _ => [2, 2, 1, 1, 1]
  | highCard _ | straight _ | flush _ | straightFlush _ => [1, 1, 1, 1, 1]

/-- How often the ranks of a made category occur, with each kicker once, is the pattern of its
kind. -/
theorem Category.pattern_eq {h : Hand} {c : Category} (made : h.Makes c) :
    c.spelling.map c.spelling.count ++ List.replicate c.kickers 1 = c.pattern := by
  cases c with
  | straight r | straightFlush r =>
    obtain ⟨high, -⟩ := made
    cases r <;> first | exact absurd high (by decide) | rfl
  | highCard r | onePair r | trips r | flush r | quads r => simp [spelling, kickers, pattern]
  | twoPair r q | fullHouse r q => simp [spelling, kickers, pattern, made.1, made.1.symm]

/-- Where kickers count, a rank of the category occurs again, unless the highest card makes it. -/
theorem Category.one_lt_count {c : Category} {r : Rank} (own : r ∈ c.spelling)
    (kickers : 0 < c.kickers) :
    1 < c.spelling.count r ∨ c = .highCard r ∨ c = .flush r := by
  cases c with
  | highCard q | flush q => simp_all [spelling]
  | straight q | fullHouse q p | straightFlush q => exact absurd kickers (Nat.lt_irrefl 0)
  | onePair q | trips q | quads q =>
    obtain rfl : r = q := by simpa [spelling] using own
    exact .inl (by simp [spelling])
  | twoPair q p =>
    refine .inl ?_
    rcases (show r = q ∨ r = p by simpa [spelling] using own) with rfl | rfl
    · rw [spelling, List.count_cons_self, List.count_cons_self]
      omega
    · simp only [spelling, List.count_cons, beq_self_eq_true, if_true]
      omega

namespace FiveCards

variable {f : FiveCards} {s : Strength}

/-- Five cards are sorted into five ranks. -/
theorem length_sorted (f : FiveCards) : f.sorted.length = 5 := by
  rw [sorted, List.length_mergeSort, Hand.length_ranks, f.five]

/-- Five cards have a straight's top exactly when their sorted ranks are its row, the wheel's
included. -/
theorem straightTop?_eq_some {r : Rank} : f.straightTop? = some r ↔
    3 ≤ r.index ∧ f.sorted = (RankSet.ofRanks (straightTo r)).descending := by
  have length := f.length_sorted
  constructor
  · intro found
    rw [straightTop?] at found
    split at found
    · rename_i wheel
      obtain rfl := Option.some.inj found
      exact ⟨by decide, wheel⟩
    · split at found
      · rename_i row
        have high : 4 ≤ r.index := by
          cases same : f.sorted with
          | nil => simp [same] at length
          | cons q rs =>
            rw [same] at found row length
            obtain rfl := Option.some.inj found
            exact (Nat.succ.inj length).symm.le.trans (length_le_of_isChain row)
        obtain ⟨row', head, length'⟩ := straightTo_row high
        exact ⟨by omega, eq_of_isChain row row' (found.trans head.symm) (by omega)⟩
      · exact absurd found (Option.some_ne_none r).symm
  · rintro ⟨high, same⟩
    rw [straightTop?, same]
    cases r <;> first | exact absurd high (by decide) | decide

/-- The reading order puts the more frequent rank first, and of equally frequent ranks the
higher. -/
theorem precedes_iff {r q : Rank} : f.precedes r q = true ↔
    f.often q < f.often r ∨ f.often q = f.often r ∧ q.index ≤ r.index := by
  simp only [precedes, Bool.or_eq_true, Bool.and_eq_true, decide_eq_true_iff]

/-- The ranks of a hand, listed in the order they are read, are its sorted ranks. -/
theorem sorted_eq {rs : List Rank} (listed : f.cards.ranks.Perm rs)
    (ordered : rs.Pairwise (fun r q => f.precedes r q = true)) : f.sorted = rs := by
  have antisymm : ∀ r q, f.precedes r q = true → f.precedes q r = true → r = q := by
    intro r q first second
    rw [precedes_iff] at first second
    exact Rank.index_injective (by omega)
  have sorted : f.sorted.Pairwise (fun r q => f.precedes r q = true) := by
    apply List.pairwise_mergeSort
    · intro r q p first second
      rw [precedes_iff] at first second ⊢
      omega
    · intro r q
      rw [Bool.or_eq_true, precedes_iff, precedes_iff]
      omega
  exact List.Perm.eq_of_pairwise (fun r q _ _ => antisymm r q) sorted ordered
    ((List.mergeSort_perm _ _).trans listed)

/-- Five cards are suited exactly when some suit is that of all of them. -/
theorem suited_iff : f.suited = true ↔ ∃ s, ∀ c ∈ f.cards, c.suit = s := by
  simp [suited, Hand.mem_cards, Suit.mem_all]

/-! ## What the rules find, the evaluator makes -/

/-- Five cards have at most one suit of five. -/
theorem oneFlush (f : FiveCards) : f.cards.OneFlush :=
  Hand.oneFlush_of_size (by rw [f.five]; decide)

/-- Suited cards make a flush. -/
theorem makes_flush (suited : f.suited = true) : ∃ r, f.cards.Makes (.flush r) := by
  obtain ⟨s, same⟩ := suited_iff.1 suited
  have all : f.cards ⊆ f.cards.inSuit s := by
    intro c held
    rw [Hand.mem_def, Hand.contains_inSuit, Bool.and_eq_true]
    exact ⟨held, decide_eq_true (same c held)⟩
  obtain ⟨c, -, held⟩ := List.countP_pos_iff.1 (show 0 < f.cards.size by rw [f.five]; decide)
  refine ⟨c.rank, s, f.five.symm.le.trans (Hand.size_mono all), ?_⟩
  rw [← same c held]
  exact held

/-- Every rank of a straight that five cards have occurs among them. -/
theorem multiplicity_pos_of_straightTop? {r : Rank} (found : f.straightTop? = some r) :
    ∀ q ∈ straightTo r, 0 < f.cards.multiplicity q := by
  intro q mem
  rw [← Hand.count_ranks, List.count_pos_iff, ← (List.mergeSort_perm _ f.precedes).mem_iff]
  show q ∈ f.sorted
  rw [(straightTop?_eq_some.1 found).2]
  exact Category.mem_descending_straightTo.2 mem

/-- Cards in a row make the straight of their top. -/
theorem makes_straight {r : Rank} (found : f.straightTop? = some r) :
    f.cards.Makes (.straight r) :=
  ⟨(straightTop?_eq_some.1 found).1, multiplicity_pos_of_straightTop? found⟩

/-- Suited cards in a row make the straight flush of their top. -/
theorem makes_straightFlush {r : Rank} (suited : f.suited = true)
    (found : f.straightTop? = some r) : f.cards.Makes (.straightFlush r) := by
  obtain ⟨s, same⟩ := suited_iff.1 suited
  refine ⟨(straightTop?_eq_some.1 found).1, s, fun q mem => ?_⟩
  obtain ⟨t, held⟩ := Hand.multiplicity_pos.1 (multiplicity_pos_of_straightTop? found q mem)
  have suit : t = s := same _ held
  rwa [suit] at held

/-- Five ranks in a row all occur once. -/
theorem pattern_of_straightTop? {r : Rank} (found : f.straightTop? = some r) :
    f.pattern = [1, 1, 1, 1, 1] := by
  have once : ∀ q ∈ f.sorted, f.often q = 1 := by
    intro q mem
    rw [often, ← (List.mergeSort_perm _ f.precedes).count_eq]
    show f.sorted.count q = 1
    rw [(straightTop?_eq_some.1 found).2] at mem ⊢
    exact List.count_eq_one_of_mem (RankSet.descending_nodup _) mem
  rw [pattern, List.map_eq_replicate_iff.2 once, length_sorted]
  rfl

/-! ## The strength of five cards, read by the rules -/

variable (known : f.cards.strength? = some s)

include known

/-- Of five cards all count for their category. -/
theorem counting_eq : f.cards.counting s.category = f.cards := by
  have made := Hand.makes_of_category? f.oneFlush (Hand.strength?_eq_some.1 known).1
  have five := Hand.five_le_size_counting f.oneFlush made f.five.ge
  exact Hand.eq_of_subset_of_size_le (Hand.counting_subset _ _) (by rwa [f.five])

/-- The ranks of five cards are those their strength spells. -/
theorem ranks_perm : f.cards.ranks.Perm s.spelling := by
  have sub := Hand.spelling_subperm f.oneFlush known
  have length := Hand.length_spelling_of_strength? f.oneFlush f.five.ge known
  rw [counting_eq known] at sub
  exact (sub.perm_of_length_le (by rw [Hand.length_ranks, f.five, length])).symm

/-- A rank occurs among five cards as often as the category and the kickers say. -/
theorem often_spelling (r : Rank) :
    f.often r = s.category.spelling.count r + s.kickers.descending.count r := by
  rw [often, (ranks_perm known).count_eq, Strength.spelling, List.count_append]

/-- A kicker is a rank of the cards outside the category. -/
theorem kicker_spec {r : Rank} (kicker : r ∈ s.kickers.descending) :
    0 < f.cards.multiplicity r ∧ r ∉ s.category.spelling := by
  obtain ⟨chosen, kept⟩ := Hand.strength?_eq_some.1 known
  have made := Hand.makes_of_category? f.oneFlush chosen
  rw [← kept, RankSet.mem_descending] at kicker
  have spec := Hand.contains_kickers f.oneFlush made kicker
  rwa [counting_eq known] at spec

/-- A kicker occurs once. -/
theorem often_kicker {r : Rank} (kicker : r ∈ s.kickers.descending) : f.often r = 1 := by
  rw [often_spelling known, List.count_eq_zero_of_not_mem (kicker_spec known kicker).2,
    List.count_eq_one_of_mem (RankSet.descending_nodup _) kicker]

/-- A rank of the category occurs as often as the category spells it. -/
theorem often_own {r : Rank} (own : r ∈ s.category.spelling) :
    f.often r = s.category.spelling.count r := by
  have other : r ∉ s.kickers.descending := fun kicker => (kicker_spec known kicker).2 own
  rw [often_spelling known, List.count_eq_zero_of_not_mem other, Nat.add_zero]

/-- No kicker of a high card or a flush is higher than its top. -/
theorem kicker_le_top {r q : Rank} (top : s.category = .highCard r ∨ s.category = .flush r)
    (kicker : q ∈ s.kickers.descending) : q.index ≤ r.index := by
  obtain ⟨chosen, -⟩ := Hand.strength?_eq_some.1 known
  have held := (kicker_spec known kicker).1
  rcases top with high | flush
  · rw [high] at chosen
    have le := Hand.place_le_of_makes f.oneFlush chosen (show f.cards.Makes (.highCard q) from held)
    exact Category.index_le_of_place_le le rfl rfl rfl
  · have made := Hand.makes_of_category? f.oneFlush chosen
    have counts := counting_eq known
    rw [flush] at chosen made counts
    obtain ⟨t, suit⟩ := Hand.flushSuit?_of_makes f.oneFlush made rfl
    rw [Hand.counting_suited rfl suit] at counts
    rw [← counts] at held
    have made' : f.cards.Makes (.flush q) :=
      ⟨t, Hand.five_of_flushSuit? suit, Hand.multiplicity_inSuit_pos.1 held⟩
    have le := Hand.place_le_of_makes f.oneFlush chosen made'
    exact Category.index_le_of_place_le le rfl rfl rfl

/-- The spelling of a strength is in the order the ranks are read. -/
theorem spelling_ordered : s.spelling.Pairwise (fun r q => f.precedes r q = true) := by
  obtain ⟨chosen, kept⟩ := Hand.strength?_eq_some.1 known
  have made := Hand.makes_of_category? f.oneFlush chosen
  have length := Hand.length_kickers f.oneFlush f.five.ge chosen
  rw [kept] at length
  have falling : ∀ r q, s.category = .twoPair r q → q.index ≤ r.index := by
    intro r q two
    rw [two] at chosen made
    have swapped : f.cards.Makes (.twoPair q r) := ⟨made.1.symm, made.2.2, made.2.1⟩
    have le := Hand.place_le_of_makes f.oneFlush chosen swapped
    rw [Category.place_pair rfl, Category.place_pair rfl] at le
    simp only [Category.kind] at le
    omega
  simp only [precedes_iff]
  refine List.pairwise_append.2 ⟨?_, ?_, ?_⟩
  · refine (Category.spelling_ordered made falling).imp_of_mem (fun first second ordered => ?_)
    rwa [often_own known first, often_own known second]
  · exact (RankSet.descending_sorted s.kickers).imp_of_mem (fun first second below =>
      .inr ⟨by rw [often_kicker known first, often_kicker known second], Nat.le_of_lt below⟩)
  · intro r own q kicker
    have some : 0 < s.category.kickers := length ▸ List.length_pos_of_mem kicker
    rw [often_own known own, often_kicker known kicker]
    rcases Category.one_lt_count own some with more | top
    · exact .inl more
    · have once := List.count_pos_iff.2 own
      rcases Nat.lt_or_eq_of_le once with more | one
      · exact .inl more
      · exact .inr ⟨one, kicker_le_top known top kicker⟩

/-- The sorted ranks of five cards are those their strength spells, in that order. -/
theorem sorted_spelling : f.sorted = s.spelling :=
  sorted_eq (ranks_perm known) (spelling_ordered known)

/-- The pattern of five cards is that of their category. -/
theorem pattern_eq : f.pattern = s.category.pattern := by
  obtain ⟨chosen, kept⟩ := Hand.strength?_eq_some.1 known
  have made := Hand.makes_of_category? f.oneFlush chosen
  have length := Hand.length_kickers f.oneFlush f.five.ge chosen
  rw [kept] at length
  rw [pattern, sorted_spelling known, Strength.spelling, List.map_append,
    ← Category.pattern_eq made, ← length]
  congr 1
  · exact List.map_congr_left (fun r own => often_own known own)
  · exact List.map_eq_replicate_iff.2 (fun r kicker => often_kicker known kicker)

/-- Cards of a suited category are of one suit. -/
theorem suited_of_category (suited : s.category.suited = true) : f.suited = true := by
  have made := Hand.makes_of_category? f.oneFlush (Hand.strength?_eq_some.1 known).1
  obtain ⟨t, flush⟩ := Hand.flushSuit?_of_makes f.oneFlush made suited
  have counts := counting_eq known
  rw [Hand.counting_suited suited flush] at counts
  exact suited_iff.2 ⟨t, fun c held => Hand.suit_of_mem (counts.symm ▸ held)⟩

/-- A straight has no kickers. -/
theorem kickers_of_straight {r : Rank}
    (straight : s.category = .straight r ∨ s.category = .straightFlush r) :
    s.kickers.descending = [] := by
  obtain ⟨chosen, kept⟩ := Hand.strength?_eq_some.1 known
  have length := Hand.length_kickers f.oneFlush f.five.ge chosen
  rw [kept] at length
  apply List.length_eq_zero_iff.1
  rcases straight with same | same <;> rw [length, same] <;> rfl

/-- Cards whose category is a straight or a straight flush are in a row. -/
theorem straightTop?_of_category {r : Rank}
    (straight : s.category = .straight r ∨ s.category = .straightFlush r) :
    f.straightTop? = some r := by
  have made := Hand.makes_of_category? f.oneFlush (Hand.strength?_eq_some.1 known).1
  refine straightTop?_eq_some.2 ⟨?_, ?_⟩
  · rcases straight with same | same <;> rw [same] at made <;> exact made.1
  · rw [sorted_spelling known, Strength.spelling, kickers_of_straight known straight,
      List.append_nil]
    rcases straight with same | same <;> rw [same] <;> rfl

/-- Cards of a category below the flush are not of one suit. -/
theorem suited_of_low (low : s.category.kind < 5) : f.suited = false := by
  obtain ⟨chosen, -⟩ := Hand.strength?_eq_some.1 known
  rw [Bool.eq_false_iff]
  intro suited
  obtain ⟨r, flush⟩ := makes_flush suited
  exact Hand.not_makes_of_kind f.oneFlush chosen (d := .flush r) low flush

/-- Cards of a category below the straight are not in a row. -/
theorem straightTop?_of_low (low : s.category.kind < 4) : f.straightTop? = none := by
  obtain ⟨chosen, -⟩ := Hand.strength?_eq_some.1 known
  rw [Option.eq_none_iff_forall_ne_some]
  intro r found
  exact Hand.not_makes_of_kind f.oneFlush chosen (d := .straight r) low (makes_straight found)

/-- Cards of a category below the straight flush are not both suited and in a row. -/
theorem not_both_of_low (low : s.category.kind < 8) :
    ¬ (f.suited = true ∧ f.straightTop?.isSome = true) := by
  obtain ⟨chosen, -⟩ := Hand.strength?_eq_some.1 known
  rintro ⟨suited, found⟩
  obtain ⟨r, found⟩ := Option.isSome_iff_exists.1 found
  exact Hand.not_makes_of_kind f.oneFlush chosen (d := .straightFlush r) low
    (makes_straightFlush suited found)

/-- The rules find a straight only where the category is one. -/
theorem straightTop?_eq_none (unlike : s.category.kind ≠ 4 ∧ s.category.kind ≠ 8) :
    f.straightTop? = none := by
  rw [Option.eq_none_iff_forall_ne_some]
  intro r found
  have once := (pattern_eq known).symm.trans (pattern_of_straightTop? found)
  cases same : s.category with
  | flush q =>
    have suited := suited_of_category known (by rw [same]; rfl)
    have below : s.category.kind < 8 := by simp [same, Category.kind]
    exact not_both_of_low known below ⟨suited, Option.isSome_iff_exists.2 ⟨r, found⟩⟩
  | fullHouse q p | quads q =>
    rw [same] at once
    exact absurd once (by simp [Category.pattern])
  | straight q | straightFlush q => simp [same, Category.kind] at unlike
  | highCard q | onePair q | twoPair q p | trips q =>
    have below : s.category.kind < 4 := by simp [same, Category.kind]
    exact absurd (found.symm.trans (straightTop?_of_low known below)) (Option.some_ne_none r)

/-- The rules find the kind of the category. -/
theorem kind_place : f.kind.place = s.category.kind := by
  have pattern := pattern_eq known
  have unsuited := suited_of_low known
  have noStraight := straightTop?_of_low known
  have notBoth := not_both_of_low known
  cases same : s.category with
  | straightFlush r =>
    have suited := suited_of_category known (by rw [same]; rfl)
    have top := straightTop?_of_category known (.inr same)
    simp [kind, suited, top, Kind.place, Category.kind]
  | quads r | fullHouse r q =>
    rw [same] at pattern notBoth
    rw [kind, if_neg (notBoth (by simp [Category.kind])), pattern]
    rfl
  | flush r =>
    rw [same] at pattern notBoth
    have suited := suited_of_category known (by rw [same]; rfl)
    rw [kind, if_neg (notBoth (by simp [Category.kind])), pattern, suited]
    rfl
  | straight r =>
    rw [same] at pattern unsuited
    have top := straightTop?_of_category known (.inl same)
    rw [kind, pattern, unsuited (by simp [Category.kind]), top]
    rfl
  | highCard r | onePair r | twoPair r q | trips r =>
    rw [same] at pattern unsuited noStraight
    rw [kind, pattern, unsuited (by simp [Category.kind]), noStraight (by simp [Category.kind])]
    rfl

/-- Straights of one kind are decided by their top alone. -/
theorem deciding_of_straight {r : Rank}
    (straight : s.category = .straight r ∨ s.category = .straightFlush r) :
    f.deciding = [r] := by
  rw [deciding, straightTop?_of_category known straight]

/-- Other hands of one kind are decided by all five ranks they spell. -/
theorem deciding_spelling (unlike : s.category.kind ≠ 4 ∧ s.category.kind ≠ 8) :
    f.deciding = s.spelling := by
  rw [deciding, straightTop?_eq_none known unlike]
  exact sorted_spelling known

omit known

/-- Kickers of hands of one kind compare rank by rank. -/
theorem compare_kickers {g : FiveCards} {t : Strength} (known : f.cards.strength? = some s)
    (known' : g.cards.strength? = some t) (kickers : s.category.kickers = t.category.kickers) :
    Ord.compare s.kickers.value t.kickers.value =
      Rank.compareAll s.kickers.descending t.kickers.descending := by
  obtain ⟨chosen, kept⟩ := Hand.strength?_eq_some.1 known
  obtain ⟨chosen', kept'⟩ := Hand.strength?_eq_some.1 known'
  have length := Hand.length_kickers f.oneFlush f.five.ge chosen
  have length' := Hand.length_kickers g.oneFlush g.five.ge chosen'
  rw [← kept, ← kept']
  rw [Hand.kickers_eq f.oneFlush (Hand.makes_of_category? f.oneFlush chosen)] at length ⊢
  rw [Hand.kickers_eq g.oneFlush (Hand.makes_of_category? g.oneFlush chosen')] at length' ⊢
  exact RankSet.compare_value_keepTop (length.trans (kickers.trans length'.symm))

/-- Five cards have a strength, and strengths compare as the rules compare the cards. -/
theorem strength_compare (f g : FiveCards) : ∃ s t, f.cards.strength? = some s ∧
    g.cards.strength? = some t ∧ s.compare t = f.compare g := by
  obtain ⟨s, known⟩ := Hand.exists_strength?_of_size f.oneFlush (by rw [f.five]; decide)
  obtain ⟨t, known'⟩ := Hand.exists_strength?_of_size g.oneFlush (by rw [g.five]; decide)
  refine ⟨s, t, known, known', ?_⟩
  rw [Strength.compare_eq, compare, kind_place known, kind_place known']
  rcases Nat.lt_trichotomy s.category.kind t.category.kind with less | same | more
  · rw [Nat.compare_eq_lt.2 less]
    rfl
  · rw [Nat.compare_eq_eq.2 same, Ordering.eq_then, Ordering.eq_then]
    rw [compare_kickers known known' (Category.kickers_of_kind same)]
    by_cases unlike : s.category.kind ≠ 4 ∧ s.category.kind ≠ 8
    · rw [deciding_spelling known unlike, deciding_spelling known' (same ▸ unlike)]
      exact (Category.compareAll_spelling same unlike _ _).symm
    · obtain ⟨r, ranks, straight⟩ := Category.straight_of_kind unlike
      obtain ⟨q, ranks', straight'⟩ := Category.straight_of_kind (same ▸ unlike)
      rw [deciding_of_straight known straight, deciding_of_straight known' straight', ranks,
        ranks', kickers_of_straight known straight, kickers_of_straight known' straight',
        Rank.compareAll_nil, Ordering.then_eq]
  · rw [Nat.compare_eq_gt.2 more]
    rfl

end FiveCards

end Holdem
