import Holdem.Strength
import Holdem.Proofs.Hand.Counting
import Mathlib

/-!
# The category of a hand

What it takes for a hand to make a category is said by counting its cards: so many of a rank, five
ranks in a row, five cards of a suit. A hand makes many categories, and the one it is given is the
greatest of them, by kind and then by the ranks that make it. The search for it goes down a
cascade of choices, and each of its stages chooses the greatest of its own kinds.
-/

set_option autoImplicit false

namespace Holdem

/-! ## The greatest choice -/

/-- What is chosen has the property and nothing with the property measures more; nothing is chosen
only where nothing has the property. -/
def Peak {α : Type} (measure : α → Nat) (P : α → Prop) : Option α → Prop
  | some a => P a ∧ ∀ b, P b → measure b ≤ measure a
  | none => ∀ b, ¬ P b

namespace Peak

variable {α β : Type} {measure : α → Nat} {P Q : α → Prop} {x y : Option α}

/-- A greatest choice for one property is one for every property that agrees with it. -/
theorem congr (same : ∀ a, P a ↔ Q a) (peak : Peak measure P x) : Peak measure Q x := by
  rwa [← funext (fun a => propext (same a))]

/-- A greatest choice keeps being one under a map that keeps the order of the measures. -/
theorem map {f : α → β} {measure' : β → Nat} {Q : β → Prop} (peak : Peak measure P x)
    (image : ∀ b, Q b ↔ ∃ a, P a ∧ f a = b)
    (mono : ∀ a b, measure a ≤ measure b → measure' (f a) ≤ measure' (f b)) :
    Peak measure' Q (x.map f) := by
  cases x with
  | none =>
    intro b made
    obtain ⟨a, property, -⟩ := (image b).1 made
    exact peak a property
  | some a =>
    refine ⟨(image _).2 ⟨a, peak.1, rfl⟩, ?_⟩
    intro b made
    obtain ⟨a', property, rfl⟩ := (image b).1 made
    exact mono a' a (peak.2 a' property)

/-- Of two choices the first is the greatest of both where it measures more. -/
theorem orElse (first : Peak measure P x) (second : Peak measure Q y)
    (above : ∀ a b, P a → Q b → measure b ≤ measure a) :
    Peak measure (fun a => P a ∨ Q a) (x <|> y) := by
  cases x with
  | some a =>
    refine ⟨.inl first.1, ?_⟩
    rintro b (property | property)
    · exact first.2 b property
    · exact above a b first.1 property
  | none =>
    refine congr ?_ second
    intro a
    exact ⟨.inr, fun either => either.resolve_left (first a)⟩

/-- The first match in a list of falling measure is the greatest. -/
theorem find? {l : List α} {p : α → Bool}
    (falling : l.Pairwise (fun a b => measure b < measure a)) :
    Peak measure (fun a => a ∈ l ∧ p a = true) (l.find? p) := by
  cases found : l.find? p with
  | none =>
    rintro b ⟨mem, holds⟩
    exact List.find?_eq_none.1 found b mem holds
  | some a =>
    obtain ⟨holds, before, after, rfl, none⟩ := List.find?_eq_some_iff_append.1 found
    refine ⟨⟨List.mem_append_right _ List.mem_cons_self, holds⟩, ?_⟩
    rintro b ⟨mem, holds'⟩
    rcases List.mem_append.1 mem with early | late
    · have fails := none b early
      rw [holds'] at fails
      exact absurd fails (by decide)
    · rcases List.mem_cons.1 late with rfl | later
      · exact Nat.le_refl _
      · have tail := (List.pairwise_append.1 falling).2.1
        exact Nat.le_of_lt ((List.pairwise_cons.1 tail).1 b later)

end Peak

/-! ## Straights -/

namespace RankSet

/-- The highest rank of a set is its greatest by index. -/
theorem highest?_peak (a : RankSet) :
    Peak Rank.index (fun r => a.contains r = true) a.highest? := by
  have listed : a.highest? = a.descending.find? (fun _ => true) := by
    rw [highest?, descending, ← List.head?_reverse]
    cases a.ranks.reverse <;> rfl
  rw [listed]
  refine Peak.congr ?_ (Peak.find? a.descending_sorted)
  intro r
  rw [mem_descending]
  exact and_iff_left rfl

/-- The top of a straight in a set is the highest rank all of whose row the set holds. -/
theorem straightTop?_peak (a : RankSet) :
    Peak Rank.index (fun r => 3 ≤ r.index ∧ ∀ q ∈ straightTo r, a.contains q = true)
      a.straightTop? := by
  have falling : (Rank.all.drop 3).reverse.Pairwise (fun r q => q.index < r.index) := by decide
  have listed : ∀ r : Rank, r ∈ (Rank.all.drop 3).reverse ↔ 3 ≤ r.index := by
    intro r
    cases r <;> decide
  refine Peak.congr ?_ (Peak.find? falling)
  intro r
  rw [listed, List.all_eq_true]

end RankSet

/-- The five ranks of a straight are distinct. -/
theorem straightTo_nodup (r : Rank) : (straightTo r).Nodup := by cases r <;> decide

/-- A straight from the five up has five ranks. -/
theorem length_straightTo {r : Rank} (high : 3 ≤ r.index) : (straightTo r).length = 5 := by
  cases r <;> first | rfl | exact absurd high (by decide)

/-! ## The place of a category -/

namespace Category

/-- The place of a category among all: its kind, then its ranks. -/
def place (c : Category) : Nat :=
  let first := match c.ranks with
    | r :: _ => r.index
    | [] => 0
  let second := match c.ranks with
    | [_, r] => r.index
    | _ => 0
  (c.kind * 13 + first) * 13 + second

/-- Whether the cards of a category are of one suit. -/
def suited : Category → Bool
  | flush _ | straightFlush _ => true
  | _ => false

/-- There are nine kinds of categories. -/
theorem kind_lt (c : Category) : c.kind < 9 := by
  cases c <;> simp [kind]

/-- The place of a category with one deciding rank. -/
theorem place_single {c : Category} {r : Rank} (one : c.ranks = [r]) :
    c.place = (c.kind * 13 + r.index) * 13 := by
  rw [place, one]
  rfl

/-- The place of a category with two deciding ranks. -/
theorem place_pair {c : Category} {r q : Rank} (two : c.ranks = [r, q]) :
    c.place = (c.kind * 13 + r.index) * 13 + q.index := by
  rw [place, two]

/-- A category is decided by one rank or by two. -/
theorem ranks_cases (c : Category) : (∃ r, c.ranks = [r]) ∨ ∃ r q, c.ranks = [r, q] := by
  cases c <;> simp [ranks]

/-- The places of one kind fill a stretch of their own, between the kinds below and above it. -/
theorem place_bounds (c : Category) :
    c.kind * 169 ≤ c.place ∧ c.place < (c.kind + 1) * 169 := by
  rcases c.ranks_cases with ⟨r, one⟩ | ⟨r, q, two⟩
  · have first := r.index_lt
    rw [place_single one]
    omega
  · have first := r.index_lt
    have second := q.index_lt
    rw [place_pair two]
    omega

/-- A category of a lower kind has a lower place. -/
theorem place_lt_of_kind {c d : Category} (less : c.kind < d.kind) : c.place < d.place := by
  have above := c.place_bounds
  have below := d.place_bounds
  omega

/-- A category is known by its kind and its ranks. -/
theorem eq_of_ranks {c d : Category} (kind : c.kind = d.kind) (ranks : c.ranks = d.ranks) :
    c = d := by
  cases c <;> cases d <;> simp_all [Category.kind, Category.ranks]

/-- Only two pair and the full house have two deciding ranks. -/
theorem length_ranks (c : Category) :
    c.ranks.length = if c.kind = 2 ∨ c.kind = 6 then 2 else 1 := by
  cases c <;> rfl

/-- Different categories have different places. -/
theorem eq_of_place_eq {c d : Category} (same : c.place = d.place) : c = d := by
  have first := c.place_bounds
  have second := d.place_bounds
  have kind : c.kind = d.kind := by omega
  have length : c.ranks.length = d.ranks.length := by
    rw [length_ranks, length_ranks, kind]
  apply eq_of_ranks kind
  rcases c.ranks_cases with ⟨r, one⟩ | ⟨r, q, two⟩ <;>
    rcases d.ranks_cases with ⟨r', one'⟩ | ⟨r', q', two'⟩
  · rw [place_single one, place_single one', kind] at same
    rw [one, one', Rank.index_injective (show r.index = r'.index by omega)]
  · simp [one, two'] at length
  · simp [two, one'] at length
  · have low := q.index_lt
    have low' := q'.index_lt
    rw [place_pair two, place_pair two', kind] at same
    rw [two, two', Rank.index_injective (show r.index = r'.index by omega),
      Rank.index_injective (show q.index = q'.index by omega)]

end Category

/-- The value of a strength is its category's place above the kickers' sixteen bits. -/
theorem Strength.value_eq (s : Strength) :
    s.value = s.category.place * 2 ^ 16 + s.kickers.value := rfl

/-! ## What a category takes -/

namespace Hand

variable {g h : Hand}

/-- What a hand holds when it makes a category. -/
def Makes (h : Hand) : Category → Prop
  | .highCard r => 1 ≤ h.multiplicity r
  | .onePair r => 2 ≤ h.multiplicity r
  | .twoPair r q => r ≠ q ∧ 2 ≤ h.multiplicity r ∧ 2 ≤ h.multiplicity q
  | .trips r => 3 ≤ h.multiplicity r
  | .straight r => 3 ≤ r.index ∧ ∀ q ∈ straightTo r, 1 ≤ h.multiplicity q
  | .flush r => ∃ s, 5 ≤ (h.inSuit s).size ∧ ⟨r, s⟩ ∈ h
  | .fullHouse r q => r ≠ q ∧ 3 ≤ h.multiplicity r ∧ 2 ≤ h.multiplicity q
  | .quads r => 4 ≤ h.multiplicity r
  | .straightFlush r => 3 ≤ r.index ∧ ∃ s, ∀ q ∈ straightTo r, ⟨q, s⟩ ∈ h

/-- What a hand makes, every hand that holds it makes too. -/
theorem Makes.mono {c : Category} (made : g.Makes c) (sub : g ⊆ h) : h.Makes c := by
  have more := multiplicity_mono sub
  cases c with
  | highCard r | onePair r | trips r | quads r => exact Nat.le_trans made (more r)
  | twoPair r q | fullHouse r q =>
    exact ⟨made.1, made.2.1.trans (more r), made.2.2.trans (more q)⟩
  | straight r => exact ⟨made.1, fun q mem => (made.2 q mem).trans (more q)⟩
  | flush r =>
    obtain ⟨s, five, top⟩ := made
    exact ⟨s, five.trans (size_mono (inSuit_mono sub s)), sub _ top⟩
  | straightFlush r =>
    obtain ⟨high, s, held⟩ := made
    exact ⟨high, s, fun q mem => sub _ (held q mem)⟩

/-- A straight in one suit is five cards of it. -/
theorem five_of_straight {r : Rank} {s : Suit} (high : 3 ≤ r.index)
    (held : ∀ q ∈ straightTo r, ⟨q, s⟩ ∈ h) : 5 ≤ (h.inSuit s).size := by
  have sub : straightTo r ⊆ (h.suitRanks s).descending := by
    intro q mem
    rw [RankSet.mem_descending, contains_suitRanks]
    exact held q mem
  have length := ((straightTo_nodup r).subperm sub).length_le
  rwa [length_straightTo high, ← size_inSuit] at length

/-- The flush suit has five cards. -/
theorem five_of_flushSuit? {s : Suit} (found : h.flushSuit? = some s) :
    5 ≤ (h.inSuit s).size := by
  rw [flushSuit?] at found
  simpa using List.find?_some found

/-- In a hand with at most one suit of five cards, that suit is found. -/
theorem flushSuit?_eq_some (one : h.OneFlush) {s : Suit} (five : 5 ≤ (h.inSuit s).size) :
    h.flushSuit? = some s := by
  cases found : h.flushSuit? with
  | none => exact absurd (decide_eq_true five) (List.find?_eq_none.1 found s s.mem_all)
  | some t => exact congrArg some (one t s (five_of_flushSuit? found) five)

/-- What is chosen in the flush's suit is chosen in any suit that has five cards. -/
theorem flushSuit?_peak (one : h.OneFlush) {f : Suit → Option Rank} {P : Suit → Rank → Prop}
    (peak : ∀ s, Peak Rank.index (P s) (f s)) :
    Peak Rank.index (fun r => ∃ s, 5 ≤ (h.inSuit s).size ∧ P s r) (h.flushSuit?.bind f) := by
  cases found : h.flushSuit? with
  | none =>
    rintro r ⟨s, five, -⟩
    rw [flushSuit?_eq_some one five] at found
    exact Option.some_ne_none s found
  | some t =>
    refine Peak.congr ?_ (peak t)
    intro r
    refine ⟨fun made => ⟨t, five_of_flushSuit? found, made⟩, ?_⟩
    rintro ⟨s, five, made⟩
    rwa [one t s (five_of_flushSuit? found) five]

/-- The search for one rank chooses the highest that occurs often enough and is not the excluded
one. -/
theorem topOf?_peak (h : Hand) (n : Nat) (other : Option Rank) :
    Peak Rank.index (fun r => other ≠ some r ∧ n ≤ h.multiplicity r) (h.topOf? n other) := by
  have falling : Rank.all.reverse.Pairwise (fun r q => q.index < r.index) := by decide
  refine Peak.congr ?_ (Peak.find? falling)
  intro r
  simp [r.mem_all]

/-- The highest rank held `n` times. -/
theorem held_peak (h : Hand) (n : Nat) :
    Peak Rank.index (fun r => n ≤ h.multiplicity r) (h.topOf? n none) :=
  Peak.congr (fun _ => and_iff_right (Option.some_ne_none _).symm) (h.topOf?_peak n none)

/-- The highest rank held `n` times, with the highest other rank held twice. -/
def topTwo? (h : Hand) (n : Nat) : Option (Rank × Rank) :=
  (h.topOf? n none).bind fun r => (h.topOf? 2 (some r)).map fun q => (r, q)

/-- The search for two ranks chooses the pair that is greatest by its first rank and then its
second. -/
theorem topTwo?_peak (h : Hand) {n : Nat} (two : 2 ≤ n) :
    Peak (fun both => both.1.index * 13 + both.2.index)
      (fun both => both.1 ≠ both.2 ∧ n ≤ h.multiplicity both.1 ∧ 2 ≤ h.multiplicity both.2)
      (h.topTwo? n) := by
  have firsts := h.held_peak n
  rw [topTwo?]
  cases first : h.topOf? n none with
  | none =>
    rintro ⟨r, q⟩ ⟨-, held, -⟩
    rw [first] at firsts
    exact firsts r held
  | some t =>
    rw [first] at firsts
    have seconds := h.topOf?_peak 2 (some t)
    rw [Option.bind_some]
    cases second : h.topOf? 2 (some t) with
    | none =>
      -- a rank that is not the first but is held as often would do for the second
      rintro ⟨r, q⟩ ⟨other, held, held'⟩
      rw [second] at seconds
      by_cases same : t = r
      · exact seconds q ⟨by simp [same, other], held'⟩
      · exact seconds r ⟨by simp [same], two.trans held⟩
    | some p =>
      rw [second] at seconds
      refine ⟨⟨fun same => seconds.1.1 (congrArg some same), firsts.1, seconds.1.2⟩, ?_⟩
      rintro ⟨r, q⟩ ⟨other, held, held'⟩
      have le := firsts.2 r held
      have low := q.index_lt
      by_cases same : t = r
      · have le' := seconds.2 q ⟨by simp [same, other], held'⟩
        subst same
        exact Nat.add_le_add_left le' _
      · have less : r.index ≠ t.index := fun e => same (Rank.index_injective e).symm
        show r.index * 13 + q.index ≤ t.index * 13 + p.index
        omega

/-- The full house is the search for a triple and a pair. -/
theorem fullHouse?_eq (h : Hand) :
    h.fullHouse? = (h.topTwo? 3).map fun both => .fullHouse both.1 both.2 := by
  rw [fullHouse?, topTwo?]
  cases h.topOf? 3 none with
  | none => rfl
  | some r => cases second : h.topOf? 2 (some r) <;> simp [second]

/-- The pairs are the search for two ranks, and for one where there are no two. -/
theorem pairs?_eq (h : Hand) :
    h.pairs? = ((h.topTwo? 2).map (fun both => .twoPair both.1 both.2)
      <|> (h.topOf? 2 none).map .onePair) := by
  rw [pairs?, topTwo?]
  cases h.topOf? 2 none with
  | none => rfl
  | some r => cases second : h.topOf? 2 (some r) <;> simp [second]

/-- The straight flush a hand picks is the highest it makes. -/
theorem straightFlush_peak (one : h.OneFlush) :
    Peak Rank.index (fun r => h.Makes (.straightFlush r))
      (h.flushSuit?.bind fun s => (h.suitRanks s).straightTop?) := by
  refine Peak.congr ?_ (flushSuit?_peak one (fun s => (h.suitRanks s).straightTop?_peak))
  intro r
  simp only [contains_suitRanks]
  constructor
  · rintro ⟨s, -, high, held⟩
    exact ⟨high, s, held⟩
  · rintro ⟨high, s, held⟩
    exact ⟨s, five_of_straight high held, high, held⟩

/-- The flush a hand picks is the highest it makes. -/
theorem flush_peak (one : h.OneFlush) :
    Peak Rank.index (fun r => h.Makes (.flush r))
      (h.flushSuit?.bind fun s => (h.suitRanks s).highest?) := by
  refine Peak.congr ?_ (flushSuit?_peak one (fun s => (h.suitRanks s).highest?_peak))
  intro r
  simp only [contains_suitRanks]
  rfl

/-- The straight a hand picks is the highest it makes. -/
theorem straight_peak (h : Hand) :
    Peak Rank.index (fun r => h.Makes (.straight r)) h.rankSet.straightTop? := by
  refine Peak.congr ?_ h.rankSet.straightTop?_peak
  intro r
  simp only [contains_rankSet, decide_eq_true_iff]
  rfl

/-! ## The stages of the cascade -/

section Cascade

variable (P : Category → Prop)

/-- A stage that chooses one rank chooses the greatest category of its kind. -/
theorem stage_rank (make : Rank → Category) (kind : Nat) {x : Option Rank}
    (peak : Peak Rank.index (fun r => P (make r)) x) (ranks : ∀ r, (make r).ranks = [r])
    (only : ∀ c : Category, c.kind = kind ↔ ∃ r, make r = c) :
    Peak Category.place (fun c => P c ∧ c.kind = kind) (x.map make) := by
  refine peak.map ?_ ?_
  · intro c
    rw [only]
    constructor
    · rintro ⟨made, r, rfl⟩
      exact ⟨r, made, rfl⟩
    · rintro ⟨r, made, rfl⟩
      exact ⟨made, r, rfl⟩
  · intro r q le
    rw [Category.place_single (ranks r), Category.place_single (ranks q),
      (only _).2 ⟨r, rfl⟩, (only _).2 ⟨q, rfl⟩]
    omega

/-- A stage that chooses two ranks chooses the greatest category of its kind. -/
theorem stage_pair (make : Rank → Rank → Category) (kind : Nat) {x : Option (Rank × Rank)}
    (peak : Peak (fun both => both.1.index * 13 + both.2.index)
      (fun both => P (make both.1 both.2)) x)
    (ranks : ∀ r q, (make r q).ranks = [r, q])
    (only : ∀ c : Category, c.kind = kind ↔ ∃ r q, make r q = c) :
    Peak Category.place (fun c => P c ∧ c.kind = kind)
      (x.map fun both => make both.1 both.2) := by
  refine peak.map ?_ ?_
  · intro c
    rw [only]
    constructor
    · rintro ⟨made, r, q, rfl⟩
      exact ⟨(r, q), made, rfl⟩
    · rintro ⟨⟨r, q⟩, made, rfl⟩
      exact ⟨made, r, q, rfl⟩
  · rintro ⟨r, q⟩ ⟨r', q'⟩ le
    rw [Category.place_pair (ranks _ _), Category.place_pair (ranks _ _),
      (only _).2 ⟨r, q, rfl⟩, (only _).2 ⟨r', q', rfl⟩]
    simp only at le ⊢
    omega

variable {P}

/-- A kind stands before all lower ones. -/
theorem stage_above {kind : Nat} {x y : Option Category}
    (upper : Peak Category.place (fun c => P c ∧ c.kind = kind) x)
    (lower : Peak Category.place (fun c => P c ∧ c.kind < kind) y) :
    Peak Category.place (fun c => P c ∧ c.kind < kind + 1) (x <|> y) := by
  refine Peak.congr ?_ (upper.orElse lower ?_)
  · intro c
    rw [← and_or_left, Nat.lt_succ_iff_lt_or_eq, or_comm]
  · rintro c d ⟨-, same⟩ ⟨-, below⟩
    exact Nat.le_of_lt (Category.place_lt_of_kind (same ▸ below))

/-- The cascade chooses the greatest category, as far as its choices in a suit are the greatest. -/
theorem cascade_peak
    (straightFlush : Peak Rank.index (fun r => P (.straightFlush r))
      (h.flushSuit?.bind fun s => (h.suitRanks s).straightTop?))
    (flush : Peak Rank.index (fun r => P (.flush r))
      (h.flushSuit?.bind fun s => (h.suitRanks s).highest?))
    (unsuited : ∀ c : Category, c.suited = false → (h.Makes c ↔ P c)) :
    Peak Category.place P h.category? := by
  have nothing : Peak Category.place (fun c => P c ∧ c.kind < 0) none :=
    fun c made => absurd made.2 (Nat.not_lt_zero _)
  have highCard := stage_rank P .highCard 0
    ((h.held_peak 1).congr (fun r => unsuited (.highCard r) rfl))
    (fun _ => rfl) (by intro c; cases c <;> simp [Category.kind])
  have onePair := stage_rank P .onePair 1
    ((h.held_peak 2).congr (fun r => unsuited (.onePair r) rfl))
    (fun _ => rfl) (by intro c; cases c <;> simp [Category.kind])
  have twoPair := stage_pair P .twoPair 2
    ((h.topTwo?_peak (by decide)).congr
      (fun both => unsuited (.twoPair both.1 both.2) rfl))
    (fun _ _ => rfl) (by intro c; cases c <;> simp [Category.kind])
  have trips := stage_rank P .trips 3
    ((h.held_peak 3).congr (fun r => unsuited (.trips r) rfl))
    (fun _ => rfl) (by intro c; cases c <;> simp [Category.kind])
  have straight := stage_rank P .straight 4
    (h.straight_peak.congr (fun r => unsuited (.straight r) rfl))
    (fun _ => rfl) (by intro c; cases c <;> simp [Category.kind])
  have flush := stage_rank P .flush 5 flush (fun _ => rfl)
    (by intro c; cases c <;> simp [Category.kind])
  have fullHouse := stage_pair P .fullHouse 6
    ((h.topTwo?_peak (by decide)).congr
      (fun both => unsuited (.fullHouse both.1 both.2) rfl))
    (fun _ _ => rfl) (by intro c; cases c <;> simp [Category.kind])
  have quads := stage_rank P .quads 7
    ((h.held_peak 4).congr (fun r => unsuited (.quads r) rfl))
    (fun _ => rfl) (by intro c; cases c <;> simp [Category.kind])
  have straightFlush := stage_rank P .straightFlush 8 straightFlush (fun _ => rfl)
    (by intro c; cases c <;> simp [Category.kind])
  have low := stage_above trips (stage_above twoPair (stage_above onePair
    (stage_above highCard nothing)))
  have all := stage_above straightFlush (stage_above quads (stage_above fullHouse
    (stage_above flush (stage_above straight low))))
  have cascade := Peak.congr (fun c => and_iff_left c.kind_lt) all
  rw [category?, fullHouse?_eq, pairs?_eq]
  simpa only [Option.orElse_eq_orElse, Option.orElse_eq_or, Option.or_assoc, Option.or_none]
    using cascade

end Cascade

/-- The category a hand is given is the greatest it makes. -/
theorem category?_peak (one : h.OneFlush) : Peak Category.place h.Makes h.category? :=
  cascade_peak (straightFlush_peak one) (flush_peak one) (fun _ _ => Iff.rfl)

/-- A hand makes the category it picks. -/
theorem makes_of_category? (one : h.OneFlush) {c : Category} (chosen : h.category? = some c) :
    h.Makes c := by
  have peak := category?_peak one
  rw [chosen] at peak
  exact peak.1

/-- The category a hand picks is the highest it makes. -/
theorem place_le_of_makes (one : h.OneFlush) {c d : Category} (chosen : h.category? = some c)
    (made : h.Makes d) : d.place ≤ c.place := by
  have peak := category?_peak one
  rw [chosen] at peak
  exact peak.2 d made

/-- A hand makes no category of a higher kind than its own. -/
theorem not_makes_of_kind (one : h.OneFlush) {c d : Category} (chosen : h.category? = some c)
    (higher : c.kind < d.kind) : ¬ h.Makes d := fun made =>
  absurd (place_le_of_makes one chosen made) (Nat.not_le.2 (Category.place_lt_of_kind higher))

/-- A hand that makes some category picks one. -/
theorem exists_category? (one : h.OneFlush) {d : Category} (made : h.Makes d) :
    ∃ c, h.category? = some c := by
  have peak := category?_peak one
  cases chosen : h.category? with
  | none =>
    rw [chosen] at peak
    exact absurd made (peak d)
  | some c => exact ⟨c, rfl⟩

end Hand

end Holdem
