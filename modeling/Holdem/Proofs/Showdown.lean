import Holdem.Proofs.Deck
import Holdem.Proofs.Payouts
import Holdem.Search.Showdown

/-!
# Trials of a showdown

When the board and the known holes share no card, a trial finds no card in two hands: what is dealt
comes from the cards that nobody is known to hold, the opened cards leave the deck before the
unknown holes are dealt, and a hole is joined with nothing but the board. So a trial fails only for
want of cards, and whether they are wanting does not depend on which cards are drawn: it is decided
by how many are known and how many the board and the unknown holes need. What a trial pays is no
more than the pot.
-/

set_option autoImplicit false

namespace Holdem

/-- What a showdown needs is not there: the player's own cards, or enough cards to deal. -/
inductive WantOfCards (p : Player) : Failure → Prop
  | hole : WantOfCards p (.defect (.unknownHole p))
  | deck (needed left : Nat) : WantOfCards p (.defect (.deckExhausted needed left))

/-- A want of cards is no overlap. -/
theorem WantOfCards.noOverlap {p : Player} {failure : Failure} (want : WantOfCards p failure) :
    failure.NoOverlap := by
  cases want <;> intro h k same <;> cases same

/-- The failure is that of a deck that has run out. -/
def Failure.IsExhaustion (e : Failure) : Prop :=
  ∃ needed left, e = .defect (.deckExhausted needed left)

/-- Exhausting the deck is a want of cards. -/
theorem Failure.IsExhaustion.want {e : Failure} (exhausted : e.IsExhaustion) (p : Player) :
    WantOfCards p e := by
  obtain ⟨needed, left, rfl⟩ := exhausted
  exact .deck needed left

/-! ## What is known before the cards are dealt -/

/-- No card of a contest is in two places, holes have two cards, and what is known is all of it. -/
structure Contest.Fair (c : Contest) : Prop where
  hole_board : c.hole.Apart c.board.cards
  opponent_board : ∀ hole, some hole ∈ c.opponents → hole.Apart c.board.cards
  hole_opponent : ∀ hole, some hole ∈ c.opponents → c.hole.Apart hole
  opponents_apart : (c.opponents.filterMap id).Pairwise Hand.Apart
  opponent_size : ∀ hole, some hole ∈ c.opponents → hole.size = 2
  mem_known : ∀ card, card ∈ c.known ↔
    card ∈ c.hole ∨ card ∈ c.board.cards ∨ ∃ hole, some hole ∈ c.opponents ∧ card ∈ hole
  size_known : c.known.size =
    c.hole.size + c.board.size + ((c.opponents.filterMap id).map Hand.size).sum

namespace Contest.Fair

variable {c : Contest} (fair : c.Fair) {card : Card}

include fair

/-- The cards of the hero are known. -/
theorem hole_known (held : card ∈ c.hole) : card ∈ c.known := (fair.mem_known card).2 (.inl held)

/-- The cards of the board are known. -/
theorem board_known (mem : card ∈ c.board.cards) : card ∈ c.known :=
  (fair.mem_known card).2 (.inr (.inl mem))

/-- The cards an opponent shows are known. -/
theorem opponent_known {own : Hand} (mem : some own ∈ c.opponents) (held : card ∈ own) :
    card ∈ c.known :=
  (fair.mem_known card).2 (.inr (.inr ⟨own, mem, held⟩))

end Contest.Fair

/-- Hands that share no card are joined one by one. -/
theorem Outcome.within_foldlM_join {F : Failure → Prop} {hands : List Hand} {seen : Hand}
    (fresh : ∀ h ∈ hands, seen.Apart h) (apart : hands.Pairwise Hand.Apart) :
    Outcome.Within F (fun known => (∀ c, c ∈ known ↔ c ∈ seen ∨ ∃ h ∈ hands, c ∈ h) ∧
        known.size = seen.size + (hands.map Hand.size).sum)
      (hands.foldlM Hand.join seen) := by
  induction hands generalizing seen with
  | nil => exact ⟨fun c => by simp, rfl⟩
  | cons h hands ih =>
    rw [List.pairwise_cons] at apart
    rw [List.foldlM_cons]
    refine (Outcome.within_join (fresh h List.mem_cons_self)).bind ?_
    rintro joined rfl
    have later : ∀ k ∈ hands, (seen.union h).Apart k := fun k mem =>
      Hand.apart_union.2 ⟨fresh k (List.mem_cons_of_mem h mem), apart.1 k mem⟩
    refine (ih later apart.2).mono (fun _ => id) (fun known spec => ⟨fun c => ?_, ?_⟩)
    · rw [spec.1, Hand.mem_union]
      simp only [List.mem_cons, exists_eq_or_imp, or_assoc]
    · rw [spec.2, Hand.size_union (fresh h List.mem_cons_self), List.map_cons, List.sum_cons,
        Nat.add_assoc]

/-- The hands shown by opponents are their hole cards. -/
theorem filterMap_holes (opponents : List Seat) :
    (opponents.map (fun seat => seat.hole.map Hole.cards)).filterMap id =
      (opponents.filterMap Seat.hole).map Hole.cards := by
  rw [List.filterMap_map, List.map_filterMap]
  rfl

/-- A contest between players whose holes share no card with each other or the board is fair; it
needs the player's own hole. -/
theorem Contest.within_between {pot : Chips} {hero : Seat} {opponents : List Seat} {board : Board}
    (own : ∀ hole ∈ hero.hole, board.cards.Apart hole.cards)
    (theirs : ∀ hole ∈ opponents.filterMap Seat.hole, board.cards.Apart hole.cards ∧
      ∀ mine ∈ hero.hole, mine.cards.Apart hole.cards)
    (apart : (opponents.filterMap Seat.hole).Pairwise (fun a b => a.cards.Apart b.cards)) :
    Outcome.Within (fun e => e = .defect (.unknownHole hero.player) ∧ hero.hole = none)
      (fun c => c.Fair ∧ c.pot = pot ∧ hero.hole.map Hole.cards = some c.hole ∧ c.board = board ∧
        c.opponents = opponents.map (fun seat => seat.hole.map Hole.cards))
      (Contest.between pot hero opponents board) := by
  unfold between
  cases held : hero.hole with
  | none => exact ⟨rfl, rfl⟩
  | some hole =>
    have mine := own hole held
    have listed := filterMap_holes opponents
    refine (Outcome.within_join mine.symm).bind ?_
    rintro seen rfl
    rw [listed]
    have fresh : ∀ h ∈ (opponents.filterMap Seat.hole).map Hole.cards,
        (hole.cards.union board.cards).Apart h := by
      refine List.forall_mem_map.2 (fun other mem => ?_)
      exact Hand.apart_union.2 ⟨(theirs other mem).2 hole held, (theirs other mem).1⟩
    refine (Outcome.within_foldlM_join fresh (List.pairwise_map.2 apart)).bind
      (fun known spec => ?_)
    have opponent : ∀ h, some h ∈ opponents.map (fun seat => seat.hole.map Hole.cards) ↔
        h ∈ (opponents.filterMap Seat.hole).map Hole.cards := by
      intro h
      rw [← listed, List.mem_filterMap]
      simp
    refine ⟨?_, rfl, rfl, rfl, rfl⟩
    exact {
      hole_board := mine.symm
      opponent_board := by
        intro h mem
        obtain ⟨other, inHoles, rfl⟩ := List.mem_map.1 ((opponent h).1 mem)
        exact (theirs other inHoles).1.symm
      hole_opponent := by
        intro h mem
        obtain ⟨other, inHoles, rfl⟩ := List.mem_map.1 ((opponent h).1 mem)
        exact (theirs other inHoles).2 hole held
      opponents_apart := listed ▸ List.pairwise_map.2 apart
      opponent_size := by
        intro h mem
        obtain ⟨other, _, rfl⟩ := List.mem_map.1 ((opponent h).1 mem)
        exact other.two
      mem_known := by
        intro card
        simp only [spec.1, Hand.mem_union, opponent, or_assoc]
      size_known := by
        rw [spec.2, Hand.size_union mine.symm, listed]
        rfl }

/-! ## Dealing -/

/-- The cards that some unknown holes need: two for each if they come from one deck, and otherwise
no more than one of them needs. -/
def Showdown.need (s : Showdown) (unknown : Nat) : Nat :=
  if s.exclusive then 2 * unknown else if 0 < unknown then 2 else 0

/-- A hole fills a place at the showdown if it is the one that is known, or two cards of the
deck. -/
def Fills (d : Deck) : Option Hand → Hand → Prop
  | some known, hole => hole = known
  | none, hole => hole.size = 2 ∧ ∀ c ∈ hole, c ∈ d.cards

/-- A place that is filled from part of a deck is filled from the deck. -/
theorem Fills.mono {d next : Deck} {place : Option Hand} {hole : Hand}
    (part : ∀ c ∈ next.cards, c ∈ d.cards) (fills : Fills next place hole) :
    Fills d place hole := by
  cases place with
  | some known => exact fills
  | none => exact ⟨fills.1, fun c held => part c (fills.2 c held)⟩

/-- Whoever shares no card with the known holes and the deck shares none with the holes dealt. -/
theorem apart_of_fills {d : Deck} {opponents : List (Option Hand)} {holes : List Hand} {own : Hand}
    (fills : List.Forall₂ (Fills d) opponents holes)
    (known : ∀ hole, some hole ∈ opponents → own.Apart hole) (deck : own.Apart d.cards) :
    ∀ hole ∈ holes, own.Apart hole := by
  intro hole mem
  obtain ⟨place, inPlaces, filled⟩ := exists_left_of_forall₂ fills mem
  cases place with
  | some h =>
    obtain rfl : hole = h := filled
    exact known hole inPlaces
  | none => exact fun c held inHole => deck c held (filled.2 c inHole)

namespace Showdown

variable {σ : Type} [WordSource σ] (s : Showdown)

/-- One more unknown hole takes two cards that the others need as well or leave. -/
theorem need_succ (n : Nat) :
    (s.exclusive = true ∧ s.need (n + 1) = s.need n + 2) ∨
      (s.exclusive = false ∧ s.need (n + 1) = 2 ∧ s.need n ≤ 2) := by
  unfold need
  cases s.exclusive with
  | true => exact Or.inl ⟨rfl, rfl⟩
  | false =>
    refine Or.inr ⟨rfl, rfl, ?_⟩
    rw [if_neg Bool.false_ne_true]
    split
    · exact Nat.le_refl 2
    · exact Nat.zero_le 2

/-- Cards are dealt off the deck unless there are too few. -/
theorem within_deal (n : Nat) (d : Deck) :
    Random.Within (fun e => e.IsExhaustion ∧ d.size < n)
      (fun dealt : Hand × Deck => dealt.1.size = n ∧ d.Splits dealt.1 dealt.2)
      (deal n d : Random σ (Hand × Deck)) := by
  unfold deal
  refine (Deck.within_deal n d).bind (fun dealt spec => ?_)
  obtain ⟨hand, rest⟩ := dealt
  cases hand with
  | none => exact fun _ => ⟨⟨n, d.size, rfl⟩, spec⟩
  | some hand => exact Random.within_pure spec

/-- Every place is filled unless the deck has too few cards. Holes that come from one deck share no
card, if the known ones share none with each other or the deck. -/
theorem within_dealHoles {opponents : List (Option Hand)} {d : Deck}
    (known : ∀ hole, some hole ∈ opponents → hole.Apart d.cards)
    (apart : (opponents.filterMap id).Pairwise Hand.Apart) :
    Random.Within (fun e => e.IsExhaustion ∧ d.size < s.need (opponents.countP Option.isNone))
      (fun holes : List Hand => s.need (opponents.countP Option.isNone) ≤ d.size ∧
        List.Forall₂ (Fills d) opponents holes ∧ (s.exclusive = true → holes.Pairwise Hand.Apart))
      (s.dealHoles opponents d : Random σ (List Hand)) := by
  induction opponents generalizing d with
  | nil => exact Random.within_pure ⟨by simp [need], .nil, fun _ => .nil⟩
  | cons first others ih =>
    have knownLater := fun hole mem => known hole (List.mem_cons_of_mem first mem)
    cases first with
    | some hole =>
      simp only [List.filterMap_cons, id, List.pairwise_cons] at apart
      rw [dealHoles, List.countP_cons_of_neg (by simp)]
      refine (ih knownLater apart.2).bind ?_
      rintro holes ⟨enough, fills, single⟩
      refine Random.within_pure ⟨enough, .cons rfl fills, fun exclusive => ?_⟩
      refine List.pairwise_cons.2 ⟨apart_of_fills fills ?_ (known hole List.mem_cons_self),
        single exclusive⟩
      exact fun other mem => apart.1 other (List.mem_filterMap.2 ⟨some other, mem, rfl⟩)
    | none =>
      simp only [List.filterMap_cons, id] at apart
      rw [dealHoles, List.countP_cons_of_pos rfl]
      have more := s.need_succ (others.countP Option.isNone)
      have first : Random.Within
          (fun e => e.IsExhaustion ∧ d.size < s.need (others.countP Option.isNone + 1))
          (fun dealt : Hand × Deck => dealt.1.size = 2 ∧ d.Splits dealt.1 dealt.2)
          (deal 2 d : Random σ (Hand × Deck)) :=
        (within_deal 2 d).mono (fun e ends => ⟨ends.1, ends.2.trans_le (by lia)⟩) (fun _ => id)
      refine first.bind ?_
      rintro ⟨hole, rest⟩ ⟨two, split⟩
      have size := split.size
      dsimp only at two size ⊢
      -- the others are dealt from a part of this deck, which is large enough if this one is
      obtain ⟨next, isNext⟩ : ∃ next, next = if s.exclusive then rest else d := ⟨_, rfl⟩
      have part : ∀ c ∈ next.cards, c ∈ d.cards := by
        rw [isNext]
        split
        · exact fun c => split.mem_rest
        · exact fun c => id
      have enough_iff : s.need (others.countP Option.isNone) ≤ next.size ↔
          s.need (others.countP Option.isNone + 1) ≤ d.size := by
        rw [isNext]
        rcases more with ⟨yes, more⟩ | ⟨no, more, few⟩
        · rw [if_pos yes]
          lia
        · rw [no, if_neg Bool.false_ne_true]
          lia
      rw [← isNext]
      have later := ih (d := next)
        (fun other mem c held left => knownLater other mem c held (part c left)) apart
      refine (later.mono (fun e ends => ⟨ends.1, by lia⟩) (fun _ => id)).bind ?_
      rintro holes ⟨enough, fills, single⟩
      refine Random.within_pure ⟨enough_iff.1 enough,
        .cons ⟨two, fun c => split.mem⟩ (fills.imp (fun _ _ => Fills.mono part)), ?_⟩
      intro exclusive
      rw [if_pos exclusive] at isNext
      subst isNext
      refine List.pairwise_cons.2 ⟨apart_of_fills fills ?_ split.apart, single exclusive⟩
      exact fun other mem c held known' => knownLater other mem c known' (split.mem held)

end Showdown

/-- The cards of a trial complete a contest: five on the board, those that lay open among them, and
two for every opponent, the known ones where they are known. No card is in two of the player's hole,
the board and an opponent's hole, a dealt hole shares none with a known one, and holes that come
from one deck share none with each other. -/
structure Deal.Completes (d : Deal) (c : Contest) (exclusive : Bool) : Prop where
  board_size : d.board.size = 5
  board_mem : ∀ card ∈ c.board.cards, card ∈ d.board
  holes : List.Forall₂ (fun known hole => hole.size = 2 ∧ ∀ own ∈ known, hole = own)
    c.opponents d.holes
  hole_board : c.hole.Apart d.board
  holes_board : ∀ hole ∈ d.holes, hole.Apart d.board
  hole_holes : ∀ hole ∈ d.holes, c.hole.Apart hole
  dealt_known : List.Forall₂
    (fun known hole => known = none → ∀ other, some other ∈ c.opponents → hole.Apart other)
    c.opponents d.holes
  exclusive : exclusive = true → (c.hole :: d.holes).Pairwise Hand.Apart

/-- Cards that are dealt off the cards that nobody is known to hold complete a fair contest. -/
theorem Contest.Fair.completes {c : Contest} {opened : Hand} {deck : Deck} {holes : List Hand}
    {exclusive : Bool} (fair : c.Fair) (count : opened.size = c.board.missing)
    (split : (Deck.without c.known).Splits opened deck)
    (fills : List.Forall₂ (Fills deck) c.opponents holes)
    (single : exclusive = true → holes.Pairwise Hand.Apart) :
    Deal.Completes ⟨c.board.cards.union opened, holes⟩ c exclusive := by
  have boardAway := Deck.apart_of_splits_without split (fun _ => fair.board_known)
  have holeAway := Deck.apart_of_splits_without split (fun _ => fair.hole_known)
  have theirAway := fun (own : Hand) (mem : some own ∈ c.opponents) =>
    Deck.apart_of_splits_without split (fun _ => fair.opponent_known mem)
  have boardDeck : (c.board.cards.union opened).Apart deck.cards :=
    Hand.apart_union.2 ⟨boardAway.2, split.apart⟩
  have boardTheirs : ∀ own, some own ∈ c.opponents → (c.board.cards.union opened).Apart own :=
    fun own mem => Hand.apart_union.2 ⟨(fair.opponent_board own mem).symm,
      (theirAway own mem).1.symm⟩
  have others := apart_of_fills fills fair.hole_opponent holeAway.2
  have sized : ∀ known ∈ c.opponents, ∀ own ∈ known, own.size = 2 := by
    rintro _ mem own rfl
    exact fair.opponent_size own mem
  exact {
    board_size := by
      have most := c.board.atMostFive
      rw [Hand.size_union boardAway.1, count, Board.missing, Board.size]
      lia
    board_mem := fun card mem => Hand.mem_union.2 (.inl mem)
    holes := by
      refine ((List.forall₂_and_left _ _).2 ⟨sized, fills⟩).imp (fun known hole spec => ?_)
      obtain ⟨size, filled⟩ := spec
      cases known with
      | none => exact ⟨filled.1, nofun⟩
      | some own =>
        obtain rfl : hole = own := filled
        exact ⟨size hole rfl, fun _ same => Option.some.inj same⟩
    hole_board := (Hand.apart_union.2 ⟨fair.hole_board.symm, holeAway.1.symm⟩).symm
    holes_board := fun hole mem => (apart_of_fills fills boardTheirs boardDeck hole mem).symm
    hole_holes := others
    dealt_known := by
      refine fills.imp (fun known hole filled dealt other mem card held inOther => ?_)
      subst dealt
      exact (theirAway other mem).2 card inOther (filled.2 card held)
    exclusive := fun exclusive => List.pairwise_cons.2 ⟨others, single exclusive⟩ }

namespace Showdown

variable {σ : Type} [WordSource σ] (s : Showdown)

/-- What the board and the unknown holes of a contest need is left over from what is known. -/
def Enough (c : Contest) : Prop :=
  c.board.missing + s.need (c.opponents.countP Option.isNone) ≤ 52 - c.known.size

/-- A trial's cards are dealt, and complete the contest, unless there are too few. -/
theorem within_dealOut {c : Contest} (fair : c.Fair) :
    Random.Within (fun e => e.IsExhaustion ∧ ¬ s.Enough c)
      (fun d : Deal => s.Enough c ∧ d.Completes c s.exclusive) (s.dealOut c : Random σ Deal) := by
  have size := Deck.size_without c.known
  unfold dealOut
  have opens := (within_deal (σ := σ) c.board.missing (Deck.without c.known)).mono
    (G := fun e => e.IsExhaustion ∧ ¬ s.Enough c)
    (fun e ends => ⟨ends.1, by have few := ends.2; rw [Enough]; lia⟩) (fun _ => id)
  refine opens.bind ?_
  rintro ⟨opened, deck⟩ ⟨count, split⟩
  have sum := split.size
  dsimp only at count sum ⊢
  have board := (Deck.apart_of_splits_without split (fun _ => fair.board_known)).1
  refine (Random.within_lift (Outcome.within_join board)).bind ?_
  rintro full rfl
  have theirs := fun (own : Hand) (mem : some own ∈ c.opponents) =>
    (Deck.apart_of_splits_without split (fun _ => fair.opponent_known mem)).2
  have fill := (s.within_dealHoles (σ := σ) theirs fair.opponents_apart).mono
    (G := fun e => e.IsExhaustion ∧ ¬ s.Enough c)
    (fun e ends => ⟨ends.1, by have few := ends.2; rw [Enough]; lia⟩) (fun _ => id)
  refine fill.bind ?_
  rintro holes ⟨enough, fills, single⟩
  exact Random.within_pure ⟨by rw [Enough]; lia, fair.completes count split fills single⟩

end Showdown

/-! ## What a trial pays -/

namespace Showdown

variable {σ : Type} [WordSource σ] (s : Showdown)

/-- The player is paid the pot, a share of it, or nothing. -/
theorem within_payout {F : Failure → Prop} {pot : Chips} {hero : Strength} {board : Hand}
    {ties : Nat} {holes : List Hand} (apart : ∀ hole ∈ holes, hole.Apart board) :
    Outcome.Within F (fun payout => payout ≤ pot) (s.payout pot hero board ties holes) := by
  induction holes generalizing ties with
  | nil =>
    cases ties with
    | zero => exact Nat.le_refl pot
    | succ ties =>
      show (if s.splitPots then pot / (ties + 2) else 0) ≤ pot
      split
      · exact Nat.div_le_self pot _
      · exact Nat.zero_le pot
  | cons hole holes ih =>
    have rest := fun ties => @ih ties (fun h mem => apart h (List.mem_cons_of_mem hole mem))
    -- the order of strengths stays closed: its numbers are too large to compute with here
    obtain ⟨order, same⟩ : ∃ order, Strength.compare = order := ⟨_, rfl⟩
    rw [payout, same]
    refine (Outcome.within_join (apart hole List.mem_cons_self)).bind (fun joined _ => ?_)
    split
    · exact Nat.zero_le pot
    · split
      · exact Nat.zero_le pot
      · exact rest _
      · exact rest _

/-- A trial of a fair contest fails only if there are too few cards, and pays no more than the
pot. -/
theorem within_trial {c : Contest} (fair : c.Fair) :
    Random.Within (fun e => e.IsExhaustion ∧ ¬ s.Enough c)
      (fun payout => s.Enough c ∧ payout ≤ c.pot)
      (s.trial c : Random σ Chips) := by
  unfold trial
  refine (s.within_dealOut fair).bind ?_
  rintro d ⟨enough, completes⟩
  have award : Outcome.Within (fun e => e.IsExhaustion ∧ ¬ s.Enough c)
      (fun payout => payout ≤ c.pot) (s.award c d) := by
    unfold Showdown.award
    refine (Outcome.within_join completes.hole_board).bind (fun joined _ => ?_)
    split
    · exact Nat.zero_le c.pot
    · exact s.within_payout completes.holes_board
  exact Random.within_lift (award.mono (fun _ => id) (fun payout fits => ⟨enough, fits⟩))

omit [WordSource σ] in
/-- What bounds the payouts of all trials bounds their bag, which holds one for each trial. -/
theorem within_runTrials {F : Failure → Prop} {P : Prop} {limit : Chips} {trial : Random σ Chips}
    (ends : Random.Within F (fun payout => P ∧ payout ≤ limit) trial) (n : Nat) {bag : Payouts}
    (before : bag.AtMost limit) :
    Random.Within F (fun bag' => bag'.AtMost limit ∧ bag'.size = bag.size + n ∧ (0 < n → P))
      (runTrials trial n bag : Random σ Payouts) := by
  induction n generalizing bag with
  | zero => exact Random.within_pure ⟨before, rfl, fun some => absurd some (Nat.lt_irrefl 0)⟩
  | succ n ih =>
    refine ends.bind (fun payout spec => ?_)
    refine (ih (before.add spec.2)).mono (fun _ => id) (fun bag' later => ?_)
    refine ⟨later.1, ?_, fun _ => spec.1⟩
    rw [later.2.1, Payouts.size_add]
    lia

end Showdown

end Holdem
