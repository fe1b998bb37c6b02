import Holdem.Proofs.Hand.Word

/-!
# Hands as finite sets

A hand is a finite set of cards, and so is each word that the operations on hands build: no bit
above the fifty-second is ever set in it. Every operation, on the words and on the hands that lie in
them, is the one on finite sets. Taking out the lowest card until none is left lists the set in the
order of the deck, and the ranks of a hand are the image of the set.
-/

set_option autoImplicit false

namespace Holdem

instance : Fintype Card where
  elems := Card.all.toFinset
  complete := fun c => List.mem_toFinset.2 c.mem_all

/-- There are fifty-two cards. -/
theorem Card.card_eq : Fintype.card Card = 52 := by decide

namespace Word

/-- The words that the operations on hands build, from numbers, from cards and from one another. -/
inductive Built : Word → Prop
  | empty : Built 0#64
  | full : Built deck
  | masked (n : Word) : Built n.masked
  | ofCard (c : Card) : Built (ofCard c)
  | ofCards (cs : List Card) : Built (ofCards cs)
  | add {w v joined : Word} (left : Built w) (right : Built v) (ended : w.add v = .ok joined) :
      Built joined
  | union {w v : Word} (left : Built w) (right : Built v) : Built (w.union v)
  | complement {w : Word} (whole : Built w) : Built w.complement
  | inSuit {w : Word} (whole : Built w) (s : Suit) : Built (w.inSuit s)
  | remove {w : Word} (whole : Built w) (c : Card) : Built (w.remove c)
  | next {w rest : Word} {c : Option Card} (whole : Built w) (ended : w.next = .ok (c, rest)) :
      Built rest

/-- The words that are built are those of hands. -/
theorem built_iff {w : Word} : Built w ↔ ∃ h : Hand, h.word = w := by
  constructor
  · intro built
    induction built with
    | empty => exact ⟨_, Hand.word_empty⟩
    | full => exact ⟨_, Hand.word_full⟩
    | masked n => exact ⟨_, Hand.word_ofNat n⟩
    | ofCard c => exact ⟨_, Hand.word_single c⟩
    | ofCards cs => exact ⟨_, Hand.word_ofCards cs⟩
    | add _ _ ended first second =>
      obtain ⟨h, rfl⟩ := first
      obtain ⟨k, rfl⟩ := second
      rw [Hand.add_word] at ended
      cases joined : h.join k with
      | error e => simp [joined, Except.map] at ended
      | ok u =>
        rw [joined] at ended
        exact ⟨u, Except.ok.inj ended⟩
    | union _ _ first second =>
      obtain ⟨h, rfl⟩ := first
      obtain ⟨k, rfl⟩ := second
      exact ⟨_, Hand.word_union h k⟩
    | complement _ ih =>
      obtain ⟨h, rfl⟩ := ih
      exact ⟨_, Hand.word_complement h⟩
    | inSuit _ s ih =>
      obtain ⟨h, rfl⟩ := ih
      exact ⟨_, Hand.word_inSuit h s⟩
    | remove _ c ih =>
      obtain ⟨h, rfl⟩ := ih
      exact ⟨_, Hand.word_erase h c⟩
    | next _ ended ih =>
      obtain ⟨h, rfl⟩ := ih
      rw [Hand.next_word, Except.ok.injEq] at ended
      cases taken : h.next? with
      | none =>
        rw [taken] at ended
        exact ⟨h, (Prod.mk.inj ended).2⟩
      | some found =>
        rw [taken] at ended
        exact ⟨found.2, (Prod.mk.inj ended).2⟩
  · rintro ⟨h, rfl⟩
    rw [← Hand.ofNat_word h, Hand.word_ofNat]
    exact .masked h.word

end Word

namespace Hand

variable {h k : Hand}

/-- The set of the cards of a hand. -/
def toFinset (h : Hand) : Finset Card := {c | c ∈ h}

/-- The set of a hand has the hand's cards for members. -/
@[simp] theorem mem_toFinset {c : Card} : c ∈ h.toFinset ↔ c ∈ h := by
  simp [toFinset]

/-- Two hands with the same set of cards are one hand. -/
theorem toFinset_injective (same : h.toFinset = k.toFinset) : h = k := by
  apply ext
  intro c
  rw [Bool.eq_iff_iff]
  exact mem_toFinset.symm.trans ((Finset.ext_iff.1 same c).trans mem_toFinset)

/-- The listed cards of a hand are its set. -/
theorem toFinset_cards (h : Hand) : h.cards.toFinset = h.toFinset := by
  ext c
  rw [List.mem_toFinset, mem_cards, mem_toFinset]

/-- The set of a hand is as large as the hand. -/
theorem card_toFinset (h : Hand) : h.toFinset.card = h.size := by
  rw [← toFinset_cards, List.toFinset_card_of_nodup h.cards_nodup, length_cards]

/-- Sets of hands are disjoint exactly when the hands share no card. -/
theorem disjoint_toFinset_iff : Disjoint h.toFinset k.toFinset ↔ h.Apart k := by
  rw [Finset.disjoint_left]
  simp only [mem_toFinset, Apart]

/-! ## Operations -/

/-- The empty hand is the empty set. -/
theorem toFinset_empty : empty.toFinset = ∅ := by
  ext c
  simp [not_mem_empty]

/-- The full hand is the set of all cards. -/
theorem toFinset_full : full.toFinset = Finset.univ := by
  ext c
  simp [mem_def, contains_full]

/-- The hand of one card is the set of that card. -/
theorem toFinset_single (c : Card) : (single c).toFinset = {c} := by
  ext d
  simp [mem_single, eq_comm]

/-- The hand of a list is the set of its cards. -/
theorem toFinset_ofCards (cs : List Card) : (ofCards cs).toFinset = cs.toFinset := by
  ext c
  simp [mem_def, contains_ofCards]

/-- The hand of a word is the set of the cards whose bit is on. -/
theorem toFinset_ofNat (w : Word) :
    (ofNat w.toNat).toFinset = {c : Card | w.getLsbD c.code = true} := by
  ext c
  have inside : c.code < 52 := c.code_lt
  simp [mem_def, contains, ofNat, inside]

/-- Joining two hands without a check is the union of their sets. -/
theorem toFinset_union (h k : Hand) : (h.union k).toFinset = h.toFinset ∪ k.toFinset := by
  ext c
  simp [mem_union]

/-- The complement of a hand is the complement of its set. -/
theorem toFinset_complement (h : Hand) : h.complement.toFinset = h.toFinsetᶜ := by
  ext c
  simp [mem_complement]

/-- Keeping a suit filters the set. -/
theorem toFinset_inSuit (h : Hand) (s : Suit) :
    (h.inSuit s).toFinset = h.toFinset.filter (fun c => c.suit = s) := by
  ext c
  simp [mem_def, contains_inSuit]

/-- Taking out a card erases it from the set. -/
theorem toFinset_erase (h : Hand) (c : Card) : (h.erase c).toFinset = h.toFinset.erase c := by
  ext d
  simp [mem_erase, and_comm, eq_comm]

/-- Two hands join exactly when their sets are disjoint, and then to the union. -/
theorem join_eq_ok_iff : h.join k = .ok (h.union k) ↔ Disjoint h.toFinset k.toFinset := by
  rw [disjoint_toFinset_iff, ← overlaps_eq_false_iff, join]
  cases h.overlaps k <;> simp

/-- A hand is empty exactly when its set is. -/
theorem isEmpty_iff_toFinset : h.isEmpty = true ↔ h.toFinset = ∅ := by
  rw [isEmpty_iff, Finset.eq_empty_iff_forall_notMem]
  simp only [mem_toFinset]

/-- Two hands overlap exactly when their sets are not disjoint. -/
theorem overlaps_iff_toFinset : h.overlaps k = true ↔ ¬ Disjoint h.toFinset k.toFinset := by
  rw [disjoint_toFinset_iff, ← overlaps_eq_false_iff, Bool.not_eq_false]

/-- The rank set is the image of the set of cards under the rank. -/
theorem contains_rankSet_iff {r : Rank} :
    h.rankSet.contains r = true ↔ r ∈ h.toFinset.image Card.rank := by
  rw [contains_rankSet, decide_eq_true_iff, multiplicity_pos, Finset.mem_image]
  constructor
  · rintro ⟨s, held⟩
    exact ⟨⟨r, s⟩, mem_toFinset.2 held, rfl⟩
  · rintro ⟨⟨q, s⟩, held, rfl⟩
    exact ⟨s, mem_toFinset.1 held⟩

/-- A set of ranks has no bit but those of its ranks. -/
theorem getLsbD_rankSet_of_ge (h : Hand) {i : Nat} (above : 13 ≤ i) :
    h.rankSet.bits.getLsbD i = false := by
  have fold : ∀ (rs : List Rank) (a : RankSet), a.bits.getLsbD i = false →
      (rs.foldl (fun a r => a.union (RankSet.single r)) a).bits.getLsbD i = false := by
    intro rs
    induction rs with
    | nil =>
      intro a unset
      exact unset
    | cons r rs ih =>
      intro a unset
      have other : r.index ≠ i := by
        have low := r.index_lt
        omega
      refine ih _ ?_
      simp [RankSet.union, RankSet.single, unset, BitVec.getLsbD_twoPow, other]
  exact fold _ RankSet.empty BitVec.getLsbD_zero

/-- The lowest card is the least of the set, and what is left is the set without it. -/
theorem next?_eq_some {c : Card} {rest : Hand} (taken : h.next? = some (c, rest)) :
    c ∈ h ∧ (∀ d ∈ h, c.code ≤ d.code) ∧ rest = h.erase c := by
  rw [next?] at taken
  cases listed : h.cards with
  | nil => simp [listed] at taken
  | cons d ds =>
    simp only [listed, List.head?_cons, Option.map_some, Option.some.injEq, Prod.mk.injEq] at taken
    obtain ⟨rfl, rfl⟩ := taken
    exact ⟨mem_cards.1 (listed ▸ List.mem_cons_self), fun _ => code_le_of_mem listed, rfl⟩

/-- A hand gives no next card exactly when its set is empty. -/
theorem next?_eq_none_iff : h.next? = none ↔ h.toFinset = ∅ := by
  rw [next?, Option.map_eq_none_iff, List.head?_eq_none_iff, ← toFinset_cards,
    List.toFinset_eq_empty_iff]

/-! ## Hands and sets -/

/-- What is computed with the words of two hands is computed with the hands, and it is what the sets
of their cards give. -/
structure ActsAsSet (h k : Hand) : Prop where
  same : (h.word = k.word ↔ h = k) ∧ (h = k ↔ h.toFinset = k.toFinset)
  join : h.word.add k.word = (h.join k).map word ∧
    (h.join k = .ok (h.union k) ↔ Disjoint h.toFinset k.toFinset) ∧
    (h.join k = .error (.fault (.overlap h k)) ↔ ¬ Disjoint h.toFinset k.toFinset)
  union : h.word.union k.word = (h.union k).word ∧
    (h.union k).toFinset = h.toFinset ∪ k.toFinset
  complement : h.word.complement = h.complement.word ∧ h.complement.toFinset = h.toFinsetᶜ
  inSuit : ∀ s, h.word.inSuit s = (h.inSuit s).word ∧
    (h.inSuit s).toFinset = h.toFinset.filter (fun c => c.suit = s)
  erase : ∀ c, h.word.remove c = (h.erase c).word ∧ (h.erase c).toFinset = h.toFinset.erase c
  contains : ∀ c, h.word.contains c = h.contains c ∧ (h.contains c = true ↔ c ∈ h.toFinset)
  overlaps : h.word.overlaps k.word = h.overlaps k ∧
    (h.overlaps k = true ↔ ¬ Disjoint h.toFinset k.toFinset)
  size : h.word.size = h.size ∧ h.size = h.toFinset.card
  isEmpty : h.word.isEmpty = h.isEmpty ∧ (h.isEmpty = true ↔ h.toFinset = ∅)
  /-- Taking out the lowest card. -/
  next : (h.next? = none → h.word.next = .ok (none, h.word) ∧ h.toFinset = ∅) ∧
    ∀ c rest, h.next? = some (c, rest) → h.word.next = .ok (some c, rest.word) ∧
      c ∈ h.toFinset ∧ (∀ d ∈ h.toFinset, c.code ≤ d.code) ∧ rest.toFinset = h.toFinset.erase c
  /-- Taking out the lowest card until none is left. -/
  cards : (∀ cs, Word.Drains h.word cs ↔ cs = h.cards) ∧
    h.cards.Pairwise (fun c d => c.code < d.code) ∧ h.cards.toFinset = h.toFinset
  ranks : h.word.rankSet = h.rankSet.bits ∧
    (∀ r, h.rankSet.contains r = true ↔ r ∈ h.toFinset.image Card.rank) ∧
    ∀ i, 13 ≤ i → h.rankSet.bits.getLsbD i = false

/-- Every operation on hands is the set operation it stands for. -/
theorem actsAsSet (h k : Hand) : h.ActsAsSet k where
  same := ⟨⟨word_injective, fun same => same ▸ rfl⟩, ⟨fun same => same ▸ rfl, toFinset_injective⟩⟩
  join := by
    refine ⟨add_word h k, join_eq_ok_iff, ?_⟩
    rw [← join_eq_ok_iff, Hand.join]
    cases h.overlaps k <;> simp
  union := ⟨(word_union h k).symm, toFinset_union h k⟩
  complement := ⟨(word_complement h).symm, toFinset_complement h⟩
  inSuit s := ⟨(word_inSuit h s).symm, toFinset_inSuit h s⟩
  erase c := ⟨(word_erase h c).symm, toFinset_erase h c⟩
  contains c := ⟨contains_word h c, mem_toFinset.symm⟩
  overlaps := ⟨overlaps_word h k, overlaps_iff_toFinset⟩
  size := ⟨size_word h, (card_toFinset h).symm⟩
  isEmpty := ⟨isEmpty_word h, isEmpty_iff_toFinset⟩
  next := by
    constructor
    · intro none
      exact ⟨by rw [next_word, none], next?_eq_none_iff.1 none⟩
    · intro c rest taken
      obtain ⟨held, least, rfl⟩ := next?_eq_some taken
      refine ⟨by rw [next_word, taken], mem_toFinset.2 held, ?_, toFinset_erase h c⟩
      exact fun d other => least d (mem_toFinset.1 other)
  cards := ⟨fun _ => drains_word_iff, h.cards_sorted, toFinset_cards h⟩
  ranks := ⟨rankSet_word h, fun _ => contains_rankSet_iff, fun _ => getLsbD_rankSet_of_ge h⟩

/-- The words that the operations build are the words of hands, without a bit above the
fifty-second. The hands made from a number, from cards or from none are the sets of these cards
among the fifty-two, and every operation acts on hands, and on the words they lie in, as on sets. -/
theorem hands_are_sets :
    (∀ w, Word.Built w ↔ ∃ h : Hand, h.word = w) ∧
    (∀ w, Word.Built w → ∀ i, 52 ≤ i → w.getLsbD i = false) ∧
    Fintype.card Card = 52 ∧
    (empty.word = 0#64 ∧ empty.toFinset = ∅) ∧
    (full.word = Word.deck ∧ full.toFinset = Finset.univ) ∧
    (∀ n : Word, (ofNat n.toNat).word = n.masked ∧
      (ofNat n.toNat).toFinset = {c : Card | n.getLsbD c.code = true}) ∧
    (∀ c, (single c).word = Word.ofCard c ∧ (single c).toFinset = {c}) ∧
    (∀ cs, (ofCards cs).word = Word.ofCards cs ∧ (ofCards cs).toFinset = cs.toFinset) ∧
    ∀ h k : Hand, h.ActsAsSet k := by
  refine ⟨fun w => Word.built_iff, ?_, Card.card_eq, ⟨word_empty, toFinset_empty⟩,
    ⟨word_full, toFinset_full⟩, fun n => ⟨word_ofNat n, toFinset_ofNat n⟩,
    fun c => ⟨word_single c, toFinset_single c⟩, fun cs => ⟨word_ofCards cs, toFinset_ofCards cs⟩,
    actsAsSet⟩
  intro w built i above
  obtain ⟨h, rfl⟩ := Word.built_iff.1 built
  exact getLsbD_word_of_ge h above

end Hand

end Holdem
