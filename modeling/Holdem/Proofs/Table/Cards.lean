import Holdem.Proofs.Flat.Seats
import Holdem.Proofs.Showdown
import Holdem.Proofs.Table.Plays

/-!
# No card in two places

The check of a snapshot sees to it that the board and the known holes share no card. A run leaves
the holes as they are and adds to the board what its rounds reveal, and a round is compared with the
board but not with the holes. So no card is in two places exactly as long as no round reveals a card
that is known to be in a hole. Then neither the unseen cards nor the trials of a showdown find one
card in two hands.
-/

set_option autoImplicit false

namespace Holdem

/-- The cards of a board and of some holes are all different. -/
structure NoCardTwice (board : Board) (holes : List Hole) : Prop where
  board : ∀ hole ∈ holes, board.cards.Apart hole.cards
  holes : holes.Pairwise (fun a b => a.cards.Apart b.cards)

/-- Where no card is twice, a contest between a seat and some others is fair. -/
theorem NoCardTwice.within_between (pot : Chips) {board : Board} {seats opponents : List Seat}
    {hero : Seat} (apart : NoCardTwice board (seats.filterMap Seat.hole)) (mem : hero ∈ seats)
    (sub : opponents.Sublist seats) (other : ∀ seat ∈ opponents, seat ≠ hero) :
    Outcome.Within (fun e => e = .defect (.unknownHole hero.player) ∧ hero.hole = none)
      (fun c => c.Fair ∧ c.pot = pot ∧ hero.hole.map Hole.cards = some c.hole ∧ c.board = board ∧
        c.opponents = opponents.map (fun seat => seat.hole.map Hole.cards))
      (Contest.between pot hero opponents board) := by
  have symm : Std.Symm (fun a b : Seat => ∀ hole, a.hole = some hole →
      ∀ hole', b.hole = some hole' → hole.cards.Apart hole'.cards) :=
    ⟨fun a b apart hole held hole' held' => (apart hole' held' hole held).symm⟩
  have pairs := (List.pairwise_filterMap.1 apart.holes).forall
  apply Contest.within_between
  · intro hole held
    exact apart.board hole (List.mem_filterMap.2 ⟨hero, mem, held⟩)
  · intro hole inHoles
    obtain ⟨seat, inOpponents, held⟩ := List.mem_filterMap.1 inHoles
    have seated := sub.subset inOpponents
    refine ⟨apart.board hole (List.mem_filterMap.2 ⟨seat, seated, held⟩), ?_⟩
    intro mine own
    exact pairs mem seated (other seat inOpponents).symm mine own hole held
  · exact apart.holes.sublist (sub.filterMap Seat.hole)

/-! ## The start -/

/-- The hole cards are checked to share no card with each other or with what was seen before. -/
theorem Snapshot.checkDealtOnce_eq_ok_iff {holes : List Hole} {seen : Hand} :
    checkDealtOnce seen holes = .ok () ↔
      (∀ hole ∈ holes, seen.Apart hole.cards) ∧
        holes.Pairwise (fun a b => a.cards.Apart b.cards) := by
  -- the cards seen so far grow, so the statement is about every hand of them
  induction holes generalizing seen with
  | nil => simp [checkDealtOnce]
  | cons hole holes ih =>
    unfold checkDealtOnce
    by_cases meets : seen.overlaps hole.cards = true
    · rw [if_pos meets]
      constructor
      · intro ended
        cases ended
      · rintro ⟨apart, _⟩
        have clear := Hand.overlaps_eq_false_iff.2 (apart hole List.mem_cons_self)
        rw [clear] at meets
        cases meets
    rw [if_neg meets, ih, List.forall_mem_cons, List.pairwise_cons]
    have first : seen.Apart hole.cards :=
      Hand.overlaps_eq_false_iff.1 (Bool.eq_false_iff.2 meets)
    constructor
    · rintro ⟨later, apart⟩
      have split := fun other mem => Hand.apart_union.1 (later other mem)
      exact ⟨⟨first, fun other mem => (split other mem).1⟩, fun other mem => (split other mem).2,
        apart⟩
    · rintro ⟨⟨_, seen⟩, own, apart⟩
      exact ⟨fun other mem => Hand.apart_union.2 ⟨seen other mem, own other mem⟩, apart⟩

/-- In a snapshot that passes its check no card occurs twice. -/
theorem Snapshot.noCardTwice_of_check {s : Snapshot} (h : s.check = .ok ()) :
    NoCardTwice s.board (s.seats.filterMap Seat.hole) := by
  obtain ⟨_, _, _, _, _, _, _, dealt⟩ := check_eq_ok_iff.1 h
  obtain ⟨board, holes⟩ := checkDealtOnce_eq_ok_iff.1 dealt
  exact ⟨board, holes⟩

/-- The snapshot a table is built from passes its check. -/
theorem Table.check_of_ofSnapshot {s : Snapshot} {t : Table} (start : Table.ofSnapshot s = .ok t) :
    s.check = .ok () := by
  obtain ⟨_, checked, _⟩ := bind_eq_ok.1 start
  cases check : s.check with
  | error e =>
    rw [check] at checked
    cases checked
  | ok _ => rfl

/-! ## Runs -/

/-- The board's cards are those it had and those revealed. -/
theorem Board.cards_reveal {b b' : Board} {cards : Hand} (shown : b.reveal cards = .ok b') :
    b'.cards = b.cards.union cards := by
  unfold reveal at shown
  split at shown
  · cases shown
  · split at shown
    · obtain rfl := Except.ok.inj shown
      rfl
    · cases shown

namespace Flat

variable {f f' : Flat}

/-- The board gains what a round reveals, and keeps what it has. -/
theorem mem_board_apply {e : Event} (applied : f.apply e = some f') (c : Card) :
    c ∈ f'.board.cards ↔
      c ∈ f.board.cards ∨ ∃ street cards, e = .round street cards ∧ c ∈ cards := by
  cases e with
  | move p m => simp [board_applyMove applied]
  | turn p =>
    obtain ⟨_, _, _, rfl⟩ := applyTurn_cases applied
    simp [turnTo]
  | round street cards =>
    obtain ⟨_, _, board, shown, _, rfl⟩ := applyRound_cases applied
    show c ∈ board.cards ↔ _
    rw [Board.cards_reveal shown, Hand.mem_union]
    simp

/-- The cards on the board after a run are those of the start and those its rounds revealed. -/
theorem mem_board_run {events : List Event} (ran : f.run events = some f') (c : Card) :
    c ∈ f'.board.cards ↔
      c ∈ f.board.cards ∨ ∃ street cards, Event.round street cards ∈ events ∧ c ∈ cards := by
  induction events generalizing f with
  | nil =>
    obtain rfl := Option.some.inj ran
    simp
  | cons e events ih =>
    rw [run, List.foldlM_cons] at ran
    obtain ⟨g, applied, rest⟩ := Option.bind_eq_some_iff.1 ran
    rw [ih rest, mem_board_apply applied]
    simp only [List.mem_cons, or_assoc, eq_comm (a := e), or_and_right, exists_or]

/-- Along a run the cards stay apart exactly if no round reveals a card of a hole. -/
theorem noCardTwice_run_iff {events : List Event} (sound : f.Sound)
    (apart : NoCardTwice f.board (f.seats.filterMap Seat.hole)) (ran : f.run events = some f') :
    NoCardTwice f'.board (f'.seats.filterMap Seat.hole) ↔
      ∀ street cards, Event.round street cards ∈ events →
        ∀ hole ∈ f.seats.filterMap Seat.hole, cards.Apart hole.cards := by
  rw [(seatsFollow_run sound ran).holes_eq]
  constructor
  · intro after street cards mem hole inHoles c revealed
    exact after.board hole inHoles c ((mem_board_run ran c).2 (.inr ⟨street, cards, mem, revealed⟩))
  · intro fresh
    refine ⟨fun hole inHoles c lies => ?_, apart.holes⟩
    rcases (mem_board_run ran c).1 lies with before | ⟨street, cards, mem, revealed⟩
    · exact apart.board hole inHoles c before
    · exact fresh street cards mem hole inHoles c revealed

/-- A run that reveals nothing keeps the cards apart. -/
theorem noCardTwice_of_blind {events : List Event} (sound : f.Sound)
    (apart : NoCardTwice f.board (f.seats.filterMap Seat.hole)) (ran : f.run events = some f')
    (blind : Blind events) : NoCardTwice f'.board (f'.seats.filterMap Seat.hole) := by
  refine (noCardTwice_run_iff sound apart ran).2 ?_
  intro street cards mem hole _ c revealed
  rw [blind street cards mem] at revealed
  exact absurd revealed (Hand.not_mem_empty c)

end Flat

namespace Table

variable {t : Table} {f : Flat}

/-- The board of a table and the holes of its seats share no card. -/
def CardsApart (t : Table) : Prop :=
  ∃ seats, t.seats = .ok seats ∧ NoCardTwice t.board (seats.filterMap Seat.hole)

/-- The cards of a sound table are apart exactly when none occurs twice. -/
theorem Shows.cardsApart_iff (h : t.Shows f) (sound : f.Sound) :
    t.CardsApart ↔ NoCardTwice f.board (f.seats.filterMap Seat.hole) := by
  have answers := h.answers sound
  constructor
  · rintro ⟨seats, found, apart⟩
    obtain rfl := Except.ok.inj (answers.seats.symm.trans found)
    rwa [← answers.board]
  · intro apart
    exact ⟨f.seats, answers.seats, answers.board.symm ▸ apart⟩

/-- No card is in two places after a run that reveals no card of a known hole. -/
theorem exists_shows_of_run {s : Snapshot} {t₀ : Table} {events : List Event}
    (start : Table.ofSnapshot s = .ok t₀) (ran : t₀.run events = .ok t)
    (fresh : ∀ street cards, Event.round street cards ∈ events → ∀ seat ∈ s.seats, ∀ hole,
      seat.hole = some hole → cards.overlaps hole.cards = false) :
    ∃ f, t.Shows f ∧ f.Sound ∧ NoCardTwice f.board (f.seats.filterMap Seat.hole) := by
  obtain ⟨f, flatRan, h, sound⟩ := exists_flat_of_run start ran
  have sound₀ := (ofSnapshot_shows start).2
  have dealt := Snapshot.noCardTwice_of_check (check_of_ofSnapshot start)
  refine ⟨f, h, sound, (Flat.noCardTwice_run_iff sound₀ dealt flatRan).2 ?_⟩
  intro street cards mem hole inHoles
  obtain ⟨seat, inSeats, held⟩ := List.mem_filterMap.1 inHoles
  exact Hand.overlaps_eq_false_iff.1 (fresh street cards mem seat inSeats hole held)

/-- Where play leads no card is in two places. -/
theorem exists_shows_of_playAll {s : Snapshot} {t₀ : Table} {actions : List Action}
    (start : Table.ofSnapshot s = .ok t₀) (reached : t₀.playAll actions = .ok t) :
    ∃ f, t.Shows f ∧ f.Sound ∧ NoCardTwice f.board (f.seats.filterMap Seat.hole) := by
  obtain ⟨events, ran, blind⟩ := exists_run_of_playAll reached
  refine exists_shows_of_run start ran (fun street cards mem _ _ hole _ => ?_)
  rw [blind street cards mem]
  exact Hand.overlaps_eq_false_iff.2 (fun c inEmpty => absurd inEmpty (Hand.not_mem_empty c))

/-! ## What asks for the cards -/

/-- The seat of a player is found in the flat account, or the player is unknown. -/
theorem Shows.within_seat (h : t.Shows f) (p : Player) :
    Outcome.Within (fun e => e = .defect (.unknownPlayer p) ∧ f.seat? p = none)
      (fun seat => f.seat? p = some seat) (t.seat p) := by
  cases found : f.seat? p with
  | none =>
    rw [h.seat_stranger found]
    exact ⟨rfl, rfl⟩
  | some seat => exact Outcome.within_of_ok (h.seat_eq found) rfl

/-- Where no card occurs twice the unseen cards of a player are found. -/
theorem Shows.clean_unseen (h : t.Shows f)
    (apart : NoCardTwice f.board (f.seats.filterMap Seat.hole)) (sound : f.Sound) (p : Player) :
    Outcome.Within Failure.NoOverlap (fun _ => True) (t.unseen p) := by
  have seat := (h.within_seat p).mono (G := Failure.NoOverlap)
    (by rintro _ ⟨rfl, _⟩ h k ⟨⟩) (fun _ => id)
  refine seat.bind (fun seat found => ?_)
  split
  · rename_i hole held
    have mem : hole ∈ f.seats.filterMap Seat.hole :=
      List.mem_filterMap.2 ⟨seat, (Flat.mem_of_seat? found).1, held⟩
    rw [(h.answers sound).board]
    exact (Outcome.within_join (apart.board hole mem)).bind (fun _ _ => trivial)
  · trivial

/-- The opponents of a player are seats of the others, in their order. -/
theorem Shows.within_opponents {F : Failure → Prop} (h : t.Shows f) (sound : f.Sound)
    (p : Player) : Outcome.Within F
      (fun others => others.Sublist f.seats ∧ ∀ seat ∈ others, seat.player ≠ p)
      (t.opponents p) := by
  rw [opponents, (h.answers sound).seats]
  refine ⟨List.filter_sublist, fun seat mem => ?_⟩
  have kept := (List.mem_filter.1 mem).2
  rw [Bool.and_eq_true, bne_iff_ne] at kept
  exact kept.1

/-- At a table whose cards are apart a showdown is estimated unless cards are wanting, the pot does
not fit or the player has no seat. No payout is above the pot. -/
theorem Shows.within_estimate (h : t.Shows f)
    (apart : NoCardTwice f.board (f.seats.filterMap Seat.hole)) (sound : f.Sound) {σ : Type}
    [WordSource σ] (showdown : Showdown) (p : Player) :
    Random.Within (fun e => WantOfCards p e ∨
        (e = .fault .addOverflow ∧ chipLimit ≤ f.carried + f.staked) ∨
        (e = .defect (.unknownPlayer p) ∧ f.seat? p = none))
      (fun bag => bag.AtMost (f.carried + f.staked))
      (showdown.estimate p t : Random σ Payouts) := by
  have pot : Outcome.Within (fun e => e = .fault .addOverflow ∧ chipLimit ≤ f.carried + f.staked)
      (fun pot => pot = f.carried + f.staked) t.pot := by
    rw [(h.answers sound).pot]
    exact Outcome.within_addChips _ _
  unfold Showdown.estimate
  refine (Random.within_lift (pot.mono (fun e => .inr ∘ .inl) (fun _ => id))).bind ?_
  rintro pot rfl
  refine (Random.within_lift ((h.within_seat p).mono (fun e => .inr ∘ .inr) (fun _ => id))).bind
    (fun hero found => ?_)
  split
  · exact Random.within_pure (Payouts.atMost_ofList_singleton (Nat.zero_le _))
  refine (Random.within_lift (h.within_opponents sound p)).bind (fun others spec => ?_)
  split
  · exact Random.within_pure (Payouts.atMost_ofList_singleton (Nat.le_refl _))
  obtain ⟨mem, rfl⟩ := Flat.mem_of_seat? found
  have fair := apart.within_between (f.carried + f.staked) mem spec.1 (fun seat inOthers same =>
    spec.2 seat inOthers (same ▸ rfl))
  rw [(h.answers sound).board]
  refine (Random.within_lift (fair.mono (fun e ends => .inl (ends.1 ▸ .hole)) (fun _ => id))).bind
    ?_
  rintro contest ⟨fair, pot, -⟩
  refine (Showdown.within_runTrials (showdown.within_trial fair) showdown.trials
    Payouts.atMost_empty).mono (fun e ends => .inl (ends.1.want _)) (fun bag spec => pot ▸ spec.1)

/-- A showdown finds no card in two hands at a table whose cards are apart. -/
theorem Shows.clean_estimate (h : t.Shows f)
    (apart : NoCardTwice f.board (f.seats.filterMap Seat.hole)) (sound : f.Sound) {σ : Type}
    [WordSource σ] (showdown : Showdown) (p : Player) :
    Random.Within Failure.NoOverlap (fun _ => True) (showdown.estimate p t : Random σ Payouts) := by
  refine (h.within_estimate apart sound showdown p).mono ?_ (fun _ _ => trivial)
  rintro e (want | ⟨rfl, _⟩ | ⟨rfl, _⟩)
  · exact want.noOverlap
  · rintro h k ⟨⟩
  · rintro h k ⟨⟩

/-- The unseen cards can be told at every table of a run whose cards are apart. -/
theorem unseen_ne_overlap {s : Snapshot} {t₀ : Table} {events : List Event}
    (start : Table.ofSnapshot s = .ok t₀) (ran : t₀.run events = .ok t) (cards : t.CardsApart)
    (p : Player) (h k : Hand) : t.unseen p ≠ .error (.fault (.overlap h k)) := by
  obtain ⟨shows₀, sound₀⟩ := ofSnapshot_shows start
  obtain ⟨f, _, shown, sound⟩ := (shows₀.run_agrees sound₀ events).exists_some ran
  exact (shown.clean_unseen ((shown.cardsApart_iff sound).1 cards) sound p).ne_overlap h k

/-- Along a run from an accepted snapshot the cards stay apart exactly if no round reveals a card of
a known hole, and they do so along all plays. Where they are apart, neither the unseen cards nor any
estimate of a showdown finds a card in two hands. -/
theorem cards_apart_iff {s : Snapshot} {t₀ t : Table} {events : List Event}
    (start : Table.ofSnapshot s = .ok t₀) (ran : t₀.run events = .ok t) :
    (t.CardsApart ↔ ∀ street cards, Event.round street cards ∈ events →
      ∀ seat ∈ s.seats, ∀ hole, seat.hole = some hole → cards.overlaps hole.cards = false) ∧
    (t.CardsApart →
      (∀ p h k, t.unseen p ≠ .error (.fault (.overlap h k))) ∧
      ∀ (σ : Type) [WordSource σ] (showdown : Showdown) (p : Player) (g : σ) (h k : Hand),
        showdown.estimate p t g ≠ .error (.fault (.overlap h k))) ∧
    ∀ actions u, t₀.playAll actions = .ok u → u.CardsApart := by
  obtain ⟨shows₀, sound₀⟩ := ofSnapshot_shows start
  have dealt := Snapshot.noCardTwice_of_check (check_of_ofSnapshot start)
  have reached : ∀ {events : List Event} {u : Table}, t₀.run events = .ok u →
      ∃ f, u.Shows f ∧ f.Sound ∧ (u.CardsApart ↔ ∀ street cards, Event.round street cards ∈ events →
        ∀ hole ∈ s.seats.filterMap Seat.hole, cards.Apart hole.cards) := by
    intro events u ran
    obtain ⟨f, flatRan, h, sound⟩ := (shows₀.run_agrees sound₀ events).exists_some ran
    exact ⟨f, h, sound, (h.cardsApart_iff sound).trans
      (Flat.noCardTwice_run_iff sound₀ dealt flatRan)⟩
  obtain ⟨f, h, sound, apart_iff⟩ := reached ran
  refine ⟨?_, ?_, ?_⟩
  · rw [apart_iff]
    refine forall₃_congr (fun street cards _ => ?_)
    simp only [Hand.overlaps_eq_false_iff, List.mem_filterMap]
    exact ⟨fun fresh seat mem hole held => fresh hole ⟨seat, mem, held⟩,
      fun fresh hole ⟨seat, mem, held⟩ => fresh seat mem hole held⟩
  · intro cards
    have apart := (h.cardsApart_iff sound).1 cards
    refine ⟨unseen_ne_overlap start ran cards, ?_⟩
    intro σ _ showdown p g
    exact (h.clean_estimate apart sound showdown p g).ne_overlap
  · intro actions u played
    obtain ⟨events, ran, blind⟩ := exists_run_of_playAll played
    obtain ⟨_, _, _, apart_iff⟩ := reached ran
    refine apart_iff.2 (fun street cards mem hole _ c revealed => ?_)
    rw [blind street cards mem] at revealed
    exact absurd revealed (Hand.not_mem_empty c)

/-- Two players before the flop, one of whom holds two aces. -/
def aces : Snapshot where
  seats := [
    { player := ⟨0⟩, stack := 10, hole := some ⟨Hand.ofCards [⟨.ace, .hearts⟩, ⟨.ace, .spades⟩],
      by decide⟩ },
    { player := ⟨1⟩, stack := 8 }]
  dealer := ⟨1⟩
  next := some ⟨0⟩

/-- A flop without an ace. -/
theorem cards_apart_aces : ∃ t₀ t, Table.ofSnapshot aces = .ok t₀ ∧
    t₀.run [.round .flop (Hand.ofCards [⟨.queen, .clubs⟩, ⟨.king, .diamonds⟩, ⟨.two, .hearts⟩])] =
      .ok t ∧ t.CardsApart ∧ ∀ h k, t.unseen ⟨0⟩ ≠ .error (.fault (.overlap h k)) := by
  have dealt : ∃ t₀ t, Table.ofSnapshot aces = .ok t₀ ∧ t₀.run [.round .flop
      (Hand.ofCards [⟨.queen, .clubs⟩, ⟨.king, .diamonds⟩, ⟨.two, .hearts⟩])] = .ok t :=
    ⟨_, _, rfl, rfl⟩
  obtain ⟨t₀, t, start, ran⟩ := dealt
  obtain ⟨apart_iff, clean, -⟩ := cards_apart_iff start ran
  have apart : t.CardsApart := by
    refine apart_iff.2 (fun street cards mem seat seated hole held => ?_)
    obtain ⟨-, rfl⟩ := Event.round.inj (List.mem_singleton.1 mem)
    rcases List.mem_cons.1 seated with rfl | second
    · obtain rfl := Option.some.inj held
      decide
    · obtain rfl := List.mem_singleton.1 second
      cases held
  exact ⟨t₀, t, start, ran, apart, (clean apart).1 ⟨0⟩⟩

/-- A flop with an ace of the hole is accepted, and then the unseen cards cannot be told. -/
theorem ace_in_two_places : ∃ t₀ t, Table.ofSnapshot aces = .ok t₀ ∧
    t₀.run [.round .flop (Hand.ofCards [⟨.queen, .clubs⟩, ⟨.king, .diamonds⟩, ⟨.ace, .spades⟩])] =
      .ok t ∧ ¬ t.CardsApart ∧ ∃ h k, t.unseen ⟨0⟩ = .error (.fault (.overlap h k)) := by
  have dealt : ∃ t₀ t, Table.ofSnapshot aces = .ok t₀ ∧ t₀.run [.round .flop
      (Hand.ofCards [⟨.queen, .clubs⟩, ⟨.king, .diamonds⟩, ⟨.ace, .spades⟩])] = .ok t ∧
      ∃ h k, t.unseen ⟨0⟩ = .error (.fault (.overlap h k)) :=
    ⟨_, _, rfl, rfl, _, _, rfl⟩
  obtain ⟨t₀, t, start, ran, h, k, fault⟩ := dealt
  exact ⟨t₀, t, start, ran, fun cards => unseen_ne_overlap start ran cards ⟨0⟩ h k fault,
    h, k, fault⟩

end Table

end Holdem
