import Holdem.Proofs.Overlap

/-!
# Hands as machine words

A hand lies in a machine word: the lowest fifty-two of sixty-four bits stand for the cards, in the
order of the deck. With words the operations on hands take a few instructions each. Hands are joined
bit by bit, a suit or a rank is a mask, the size is the number of bits that are set. The lowest card
is the number of zeros at the low end of the word, and subtracting one leaves no more of the word
than the bits above that card.

What is shown here is that each of these does on the word of a hand what the operation does on the
hand. So the words that are built by the operations are the words of hands.
-/

set_option autoImplicit false

namespace Holdem

/-- A machine word of sixty-four bits. -/
abbrev Word := BitVec 64

namespace Word

/-- The bits that stand for cards. -/
def deck : Word := 0x000FFFFFFFFFFFFF#64

/-- The bit of a card. -/
def ofCard (c : Card) : Word := 1#64 <<< c.code

/-- The bits of a suit, one for each rank. -/
def ofSuit (s : Suit) : Word := 0x0001111111111111#64 <<< s.index

/-- The bits of a rank, one for each suit. -/
def ofRank (r : Rank) : Word := 0xF#64 <<< (4 * r.index)

/-- The bits of a word that stand for cards. -/
def masked (w : Word) : Word := w &&& deck

/-- The cards of both words. -/
def union (w v : Word) : Word := w ||| v

/-- The bits of the cards of a list. -/
def ofCards (cs : List Card) : Word := (cs.map ofCard).foldl union 0#64

/-- The union of two words that share no bit. -/
def add (w v : Word) : Outcome Word :=
  if w &&& v = 0#64 then .ok (w ||| v)
  else .error (.fault (.overlap (Hand.ofNat w.toNat) (Hand.ofNat v.toNat)))

/-- The cards of the deck that are not in the word. -/
def complement (w : Word) : Word := w ^^^ deck

/-- The number of bits that are set. -/
def size (w : Word) : Nat := w.cpop.toNat

/-- Whether no bit is on. -/
def isEmpty (w : Word) : Bool := w == 0#64

/-- Whether a card's bit is on. -/
def contains (w : Word) (c : Card) : Bool := w &&& ofCard c != 0#64

/-- Whether some bit is on in both words. -/
def overlaps (w v : Word) : Bool := w &&& v != 0#64

/-- The bits of one suit. -/
def inSuit (w : Word) (s : Suit) : Word := w &&& ofSuit s

/-- The word with a card's bit off. -/
def remove (w : Word) (c : Card) : Word := w &&& ~~~ ofCard c

/-- The word without the lowest bit that is set. -/
def dropLowest (w : Word) : Word := w &&& (w - 1#64)

/-- The card of the lowest bit that is set. -/
def lowest (w : Word) : Outcome Card := Card.ofCode w.ctz.toNat

/-- Takes the lowest card out of a word, if there is one. -/
def next (w : Word) : Outcome (Option Card × Word) :=
  if w = 0#64 then .ok (none, w)
  else do return (some (← w.lowest), w.dropLowest)

/-- The ranks with a bit that is set, each as a bit of its own. -/
def rankSet (w : Word) : BitVec 16 :=
  (Rank.all.filter (fun r => w &&& ofRank r != 0#64)).foldl
    (fun set r => set ||| 1#16 <<< r.index) 0#16

/-! ## The lowest bit -/

/-- Taking one from a word flips the bits up to and including the lowest that is on. -/
theorem getLsbD_sub_one (w : Word) (i : Nat) :
    (w - 1#64).getLsbD i =
      (decide (i < 64) && !(w.getLsbD i ^^ decide (∃ j < i, w.getLsbD j = true))) := by
  -- one less is the complement of the negative, whose bits are those of the word turned over above
  -- the lowest one
  rw [← BitVec.not_neg, BitVec.getLsbD_not, BitVec.getLsbD_neg]
  by_cases inside : i < 64 <;> simp [inside]

/-- Of the bits that are set, all stay but the lowest. -/
theorem getLsbD_dropLowest (w : Word) (i : Nat) :
    w.dropLowest.getLsbD i = (w.getLsbD i && decide (∃ j < i, w.getLsbD j = true)) := by
  rw [dropLowest, BitVec.getLsbD_and, getLsbD_sub_one]
  cases set : w.getLsbD i with
  | false => rfl
  | true => simp [BitVec.lt_of_getLsbD set]

/-- The bit that is set with none below it is the lowest one. -/
theorem ctz_eq {w : Word} {n : Nat} (set : w.getLsbD n = true)
    (below : ∀ i < n, w.getLsbD i = false) : w.ctz.toNat = n := by
  have nonzero : w ≠ 0#64 := by
    rintro rfl
    simp at set
  have own : w.getLsbD w.ctz.toNat = true := BitVec.getLsbD_true_ctz_of_ne_zero nonzero
  rcases Nat.lt_trichotomy w.ctz.toNat n with less | same | more
  · rw [below _ less] at own
    cases own
  · exact same
  · rw [BitVec.getLsbD_false_of_lt_ctz more] at set
    cases set

/-- The number of bits that are set, counted one by one. -/
theorem size_eq (w : Word) : w.size = (List.range 64).countP (w.getLsbD ·) := by
  -- the count runs down from the top with what it has counted so far
  have counted : ∀ n sofar, w.cpopNatRec n sofar = sofar + (List.range n).countP (w.getLsbD ·) := by
    intro n
    induction n with
    | zero =>
      intro sofar
      rfl
    | succ n ih =>
      intro sofar
      rw [BitVec.cpopNatRec_succ, ih, List.range_succ, List.countP_append, List.countP_singleton]
      cases w.getLsbD n with
      | false => simp
      | true =>
        simp
        omega
  rw [size, BitVec.toNat_cpop, counted, Nat.zero_add]

end Word

namespace Hand

variable {h k : Hand}

/-- The word a hand lies in. -/
def word (h : Hand) : Word := h.bits.setWidth 64

/-- The word of a hand has the hand's bits. -/
theorem getLsbD_word (h : Hand) (i : Nat) : h.word.getLsbD i = h.bits.getLsbD i := by
  rw [word, BitVec.getLsbD_setWidth]
  by_cases inside : i < 64
  · simp [inside]
  · have none : h.bits.getLsbD i = false := BitVec.getLsbD_of_ge _ _ (by omega)
    simp [none]

/-- A card's bit in the word says whether the hand holds the card. -/
theorem getLsbD_word_code (h : Hand) (c : Card) : h.word.getLsbD c.code = h.contains c :=
  getLsbD_word h c.code

/-- No bit above the fifty-second is set. -/
theorem getLsbD_word_of_ge (h : Hand) {i : Nat} (above : 52 ≤ i) : h.word.getLsbD i = false := by
  rw [getLsbD_word]
  exact BitVec.getLsbD_of_ge _ _ above

/-- A bit that is set is the bit of a card of the hand. -/
theorem exists_card_of_getLsbD {i : Nat} (set : h.word.getLsbD i = true) :
    ∃ c ∈ h, c.code = i := by
  rw [getLsbD_word] at set
  obtain ⟨c, rfl⟩ := Card.exists_code (BitVec.lt_of_getLsbD set)
  exact ⟨c, set, rfl⟩

/-- Two hands with the same word are one hand. -/
theorem word_injective (same : h.word = k.word) : h = k := by
  apply ext
  intro c
  rw [← getLsbD_word_code, same, getLsbD_word_code]

/-! ## Operations bit by bit -/

/-- The empty hand is the zero word. -/
theorem word_empty : empty.word = 0#64 := by decide

/-- The full hand is the word of the deck. -/
theorem word_full : full.word = Word.deck := by decide

/-- The hand of one card is the word of that card's bit. -/
theorem word_single (c : Card) : (single c).word = Word.ofCard c := by
  have each : ∀ c ∈ Card.all, (single c).word = Word.ofCard c := by decide
  exact each c c.mem_all

/-- The hand of a suit is the word of that suit. -/
theorem word_ofSuit (s : Suit) : (ofSuit s).word = Word.ofSuit s := by
  cases s <;> decide

/-- The hand of a rank is the word of that rank. -/
theorem word_ofRank (r : Rank) : (ofRank r).word = Word.ofRank r := by
  cases r <;> decide

/-- Joining without a check is the disjunction of words. -/
theorem word_union (h k : Hand) : (h.union k).word = h.word ||| k.word := BitVec.setWidth_or

/-- Intersecting is the conjunction of words. -/
theorem word_inter (h k : Hand) : (h.inter k).word = h.word &&& k.word := BitVec.setWidth_and

/-- Complementing a hand is complementing its word inside the deck. -/
theorem word_complement (h : Hand) : h.complement.word = h.word.complement := by
  refine BitVec.eq_of_getLsbD_eq (fun i _ => ?_)
  rw [Word.complement, BitVec.getLsbD_xor, ← word_full, getLsbD_word, getLsbD_word, getLsbD_word,
    complement, full, BitVec.getLsbD_not, BitVec.getLsbD_allOnes]
  by_cases inside : i < 52
  · simp [inside]
  · simp [inside, BitVec.getLsbD_of_ge h.bits i (by omega)]

/-- Taking out a card is clearing its bit. -/
theorem word_erase (h : Hand) (c : Card) : (h.erase c).word = h.word.remove c := by
  refine BitVec.eq_of_getLsbD_eq (fun i inWord => ?_)
  rw [erase, word_inter, word_complement, Word.remove, Word.complement, word_single,
    BitVec.getLsbD_and, BitVec.getLsbD_and, BitVec.getLsbD_xor, BitVec.getLsbD_not, ← word_full,
    getLsbD_word full, full, BitVec.getLsbD_allOnes]
  by_cases inside : i < 52
  · simp [inside, inWord]
  · simp [getLsbD_word_of_ge h (i := i) (by omega)]

/-- Keeping a suit is masking by it. -/
theorem word_inSuit (h : Hand) (s : Suit) : (h.inSuit s).word = h.word.inSuit s := by
  rw [inSuit, word_inter, word_ofSuit, Word.inSuit]

/-- A hand built from a word has its fifty-two low bits. -/
theorem word_ofNat (w : Word) : (ofNat w.toNat).word = w.masked := by
  refine BitVec.eq_of_getLsbD_eq (fun i _ => ?_)
  rw [Word.masked, BitVec.getLsbD_and, ← word_full, getLsbD_word, getLsbD_word, full,
    BitVec.getLsbD_allOnes, ofNat, BitVec.getLsbD_ofNat, BitVec.testBit_toNat, Bool.and_comm]

/-- A hand is built back from its word. -/
theorem ofNat_word (h : Hand) : ofNat h.word.toNat = h := by
  apply word_injective
  rw [word_ofNat, Word.masked, ← word_full, ← word_inter]
  exact congrArg word (ext (fun c => by rw [contains_inter, contains_full, Bool.and_true]))

/-- The word of a list's hand is the list's word. -/
theorem word_ofCards (cs : List Card) : (ofCards cs).word = Word.ofCards cs := by
  have fold : ∀ (cs : List Card) (h : Hand),
      (cs.foldl (fun h c => h.union (single c)) h).word =
        (cs.map Word.ofCard).foldl Word.union h.word := by
    intro cs
    induction cs with
    | nil =>
      intro h
      rfl
    | cons c cs ih =>
      intro h
      rw [List.foldl_cons, ih, word_union, word_single]
      rfl
  rw [ofCards, fold, word_empty, Word.ofCards]

/-- The word is zero exactly for the empty hand. -/
theorem word_eq_zero_iff : h.word = 0#64 ↔ h.isEmpty = true := by
  have bits : h.isEmpty = true ↔ h = empty := by
    rw [isEmpty, beq_iff_eq]
    exact ⟨fun none => congrArg Hand.mk none, fun none => none ▸ rfl⟩
  rw [bits, ← word_empty]
  exact ⟨word_injective, fun none => none ▸ rfl⟩

/-- The word and the hand agree on emptiness. -/
theorem isEmpty_word (h : Hand) : h.word.isEmpty = h.isEmpty := by
  rw [Bool.eq_iff_iff, Word.isEmpty, beq_iff_eq, word_eq_zero_iff]

/-- Words overlap as their hands do. -/
theorem overlaps_word (h k : Hand) : h.word.overlaps k.word = h.overlaps k := by
  rw [overlaps, ← isEmpty_word, word_inter]
  rfl

/-- The word and the hand agree on each card. -/
theorem contains_word (h : Hand) (c : Card) : h.word.contains c = h.contains c := by
  have one : h.overlaps (single c) = h.contains c := by
    rw [Bool.eq_iff_iff, ← Bool.not_eq_false, overlaps_eq_false_iff]
    constructor
    · intro shared
      by_contra absent
      exact shared (fun d held same => absent (mem_single.1 same ▸ held))
    · intro held apart
      exact apart c held (mem_single.2 rfl)
  rw [Word.contains, ← word_single, ← one, ← overlaps_word]
  rfl

/-- Words add up as hands join, with the same fault for shared cards. -/
theorem add_word (h k : Hand) : h.word.add k.word = (h.join k).map word := by
  have shared : h.word &&& k.word = 0#64 ↔ h.overlaps k = false := by
    rw [← word_inter, word_eq_zero_iff, overlaps, Bool.not_eq_false']
  rw [Word.add, join, ofNat_word, ofNat_word]
  by_cases common : h.overlaps k = true
  · rw [if_neg (fun none => by simp [shared.1 none] at common), if_pos common]
    rfl
  · rw [if_pos (shared.2 (Bool.eq_false_iff.2 common)), if_neg common, ← word_union]
    rfl

/-- The number of a hand's cards is the number of bits that are set. -/
theorem size_word (h : Hand) : h.word.size = h.size := by
  have codes : Card.all.map Card.code = List.range 52 := by decide
  have split : List.range 64 = List.range 52 ++ (List.range 12).map (52 + ·) := by decide
  have above : ((List.range 12).map (52 + ·)).countP (h.word.getLsbD ·) = 0 := by
    rw [List.countP_map, List.countP_eq_zero]
    intro i _
    simp [getLsbD_word_of_ge h (Nat.le_add_right 52 i)]
  rw [Word.size_eq, split, List.countP_append, above, ← codes, List.countP_map, size]
  exact List.countP_congr (fun c _ => by rw [Function.comp, getLsbD_word_code])

/-! ## The ranks -/

/-- A rank's hand holds the cards of that rank. -/
theorem contains_ofRank (r : Rank) (c : Card) : (ofRank r).contains c = decide (c.rank = r) := by
  have every : ∀ r ∈ Rank.all, ∀ c ∈ Card.all, (ofRank r).contains c = decide (c.rank = r) := by
    decide
  exact every r r.mem_all c c.mem_all

/-- Two hands overlap exactly when some card is in both. -/
theorem overlaps_iff : h.overlaps k = true ↔ ∃ c, c ∈ h ∧ c ∈ k := by
  rw [← Bool.not_eq_false, overlaps_eq_false_iff, Apart]
  push Not
  rfl

/-- A hand overlaps a rank exactly when the rank occurs in it. -/
theorem overlaps_ofRank (h : Hand) (r : Rank) :
    h.overlaps (ofRank r) = decide (0 < h.multiplicity r) := by
  rw [Bool.eq_iff_iff, decide_eq_true_iff, overlaps_iff, multiplicity_pos]
  constructor
  · rintro ⟨⟨q, s⟩, held, ranked⟩
    rw [mem_def, contains_ofRank, decide_eq_true_iff] at ranked
    exact ⟨s, ranked ▸ held⟩
  · rintro ⟨s, held⟩
    exact ⟨⟨r, s⟩, held, by rw [mem_def, contains_ofRank, decide_eq_true rfl]⟩

/-- The rank set of a word has the bits of the hand's rank set. -/
theorem rankSet_word (h : Hand) : h.word.rankSet = h.rankSet.bits := by
  have fold : ∀ (rs : List Rank) (a : RankSet),
      rs.foldl (fun set r => set ||| 1#16 <<< r.index) a.bits =
        (rs.foldl (fun a r => a.union (RankSet.single r)) a).bits := by
    intro rs
    induction rs with
    | nil =>
      intro a
      rfl
    | cons r rs ih =>
      intro a
      exact ih (a.union (RankSet.single r))
  have held : ∀ r ∈ Rank.all, (h.word &&& Word.ofRank r != 0#64) = decide (0 < h.multiplicity r) :=
    fun r _ => by rw [← overlaps_ofRank, ← overlaps_word, word_ofRank, Word.overlaps]
  rw [Word.rankSet, List.filter_congr held]
  exact fold _ RankSet.empty

/-! ## The cards one after the other -/

/-- Without its first card a hand lists the others. -/
theorem cards_erase {c : Card} {cs : List Card} (listed : h.cards = c :: cs) :
    (h.erase c).cards = cs := by
  have fresh : c ∉ cs := (List.nodup_cons.1 (listed ▸ h.cards_nodup)).1
  have others : cs.filter (fun d => !decide (c = d)) = cs := by
    rw [List.filter_eq_self]
    intro d inRest
    simp only [Bool.not_eq_true', decide_eq_false_iff_not]
    exact fun same => fresh (same ▸ inRest)
  calc (h.erase c).cards
      = h.cards.filter (fun d => !decide (c = d)) := by
        rw [cards, cards, List.filter_filter]
        exact List.filter_congr (fun d _ => by rw [contains_erase, Bool.and_comm])
    _ = cs := by
        rw [listed, List.filter_cons]
        simpa using others

/-- The first card of a hand is its lowest one. -/
theorem code_le_of_mem {c d : Card} {cs : List Card} (listed : h.cards = c :: cs) (held : d ∈ h) :
    c.code ≤ d.code := by
  have sorted := h.cards_sorted
  rw [← mem_cards] at held
  rw [listed] at held sorted
  rcases List.mem_cons.1 held with rfl | later
  · exact Nat.le_refl _
  · exact Nat.le_of_lt ((List.pairwise_cons.1 sorted).1 d later)

/-- The lowest card of a word is the first its hand lists. -/
theorem lowest_word {c : Card} {cs : List Card} (listed : h.cards = c :: cs) :
    h.word.lowest = .ok c := by
  have held : c ∈ h := mem_cards.1 (listed ▸ List.mem_cons_self)
  have below : ∀ i < c.code, h.word.getLsbD i = false := by
    intro i less
    by_contra set
    obtain ⟨d, other, rfl⟩ := exists_card_of_getLsbD (Bool.not_eq_false _ ▸ set)
    exact absurd (code_le_of_mem listed other) (by omega)
  have code := Word.ctz_eq ((getLsbD_word_code h c).trans held) below
  rw [Word.lowest, code, Card.ofCode, Card.ofCode?_code]

/-- Dropping the lowest bit drops the first card. -/
theorem dropLowest_word {c : Card} {cs : List Card} (listed : h.cards = c :: cs) :
    h.word.dropLowest = (h.erase c).word := by
  have held : c ∈ h := mem_cards.1 (listed ▸ List.mem_cons_self)
  refine BitVec.eq_of_getLsbD_eq (fun i _ => ?_)
  rw [Word.getLsbD_dropLowest]
  by_cases inside : i < 52
  · -- a card other than the first is one with a lower card in the hand
    obtain ⟨d, rfl⟩ := Card.exists_code inside
    rw [getLsbD_word_code, getLsbD_word_code, contains_erase]
    cases other : h.contains d with
    | false => rfl
    | true =>
      rw [Bool.true_and, Bool.true_and, Bool.eq_iff_iff, Bool.not_eq_true', decide_eq_true_iff,
        decide_eq_false_iff_not]
      constructor
      · rintro ⟨j, less, set⟩ rfl
        obtain ⟨b, lower, rfl⟩ := exists_card_of_getLsbD set
        exact absurd (code_le_of_mem listed lower) (by omega)
      · intro differs
        have least := code_le_of_mem listed (d := d) other
        have apart : c.code ≠ d.code := fun same => differs (Card.code_injective same)
        exact ⟨c.code, by omega, (getLsbD_word_code h c).trans held⟩
  · rw [getLsbD_word_of_ge h (by omega), getLsbD_word_of_ge _ (by omega), Bool.false_and]

/-- Taking the lowest card out of the word of a hand takes it out of the hand. -/
theorem next_word (h : Hand) : h.word.next = .ok (match h.next? with
    | some (c, rest) => (some c, rest.word)
    | none => (none, h.word)) := by
  have empty : h.word = 0#64 ↔ h.cards = [] := by
    rw [word_eq_zero_iff, isEmpty_iff, List.eq_nil_iff_forall_not_mem]
    simp only [mem_cards]
  cases listed : h.cards with
  | nil => rw [Word.next, if_pos (empty.2 listed), next?, listed, List.head?_nil, Option.map_none]
  | cons c cs =>
    have some : ¬ h.word = 0#64 := fun none => by simp [empty.1 none] at listed
    rw [Word.next, if_neg some, lowest_word listed, dropLowest_word listed, next?, listed,
      List.head?_cons, Option.map_some]
    rfl

end Hand

namespace Word

/-- Taking out the lowest card again and again yields the cards of a list, and then no more. -/
inductive Drains : Word → List Card → Prop
  | stop {w : Word} (none : w.next = .ok (none, w)) : Drains w []
  | take {w rest : Word} {c : Card} {cs : List Card} (some : w.next = .ok (some c, rest))
      (more : Drains rest cs) : Drains w (c :: cs)

end Word

namespace Hand

/-- The word of a hand yields the cards of the hand, lowest first. -/
theorem drains_word_iff {h : Hand} {cs : List Card} : Word.Drains h.word cs ↔ cs = h.cards := by
  constructor
  · intro drained
    generalize lies : h.word = w at drained
    induction drained generalizing h with
    | stop none =>
      subst lies
      rw [next_word, next?] at none
      cases listed : h.cards with
      | nil => rfl
      | cons c cs => simp [listed] at none
    | @take w rest c cs some more ih =>
      subst lies
      rw [next_word, next?] at some
      cases listed : h.cards with
      | nil => simp [listed] at some
      | cons d ds =>
        rw [listed, List.head?_cons, Option.map_some] at some
        simp only [Except.ok.injEq, Prod.mk.injEq, Option.some.injEq] at some
        obtain ⟨rfl, rfl⟩ := some
        rw [ih rfl, cards_erase listed]
  · rintro rfl
    induction listed : h.cards generalizing h with
    | nil =>
      refine .stop ?_
      rw [next_word, next?, listed, List.head?_nil, Option.map_none]
    | cons c cs ih =>
      refine .take ?_ (ih (cards_erase listed))
      rw [next_word, next?, listed, List.head?_cons, Option.map_some]

end Hand

end Holdem
