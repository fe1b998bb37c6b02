import Holdem.Proofs.Flat.Raises
import Holdem.Proofs.Table.Flattening

/-!
# What a play leaves in the history

A played action is recorded as a move, and then either the turn passes once or streets begin on
which no card is revealed. Which streets begin is decided by how many players compete and how many
can decide: none if only one competes, the next one if there is betting on it, and all that are left
otherwise. A move that raises the largest bet is always answered, so it never closes a round.
-/

set_option autoImplicit false

namespace Holdem

namespace Street

/-- The streets that follow, in order. -/
def following (s : Street) : List Street := all.drop (s.index + 1)

/-- After a street come the next one and those after that. -/
theorem following_next {s t : Street} (next : s.next? = some t) :
    s.following = t :: t.following := by
  cases s <;> simp [next?] at next <;> subst next <;> rfl

/-- The streets that begin when a round is closed while some players compete and some of them can
decide. -/
def opened (s : Street) (active live : Nat) : List Street :=
  if active ≤ 1 then []
  else if 2 ≤ live ∧ s ≠ .river then s.next?.toList
  else s.following

/-- If there is no more betting, no street begins. -/
theorem opened_of_done {s : Street} {active live : Nat} (done : active ≤ 1 ∨ s = .showdown) :
    s.opened active live = [] := by
  rw [opened]
  rcases done with few | rfl
  · rw [if_pos few]
  · split
    · rfl
    · split
      · rfl
      · rfl

/-- If two players can decide, the next street is the only one that begins. -/
theorem opened_of_live {s t : Street} {active live : Nat} (next : s.next? = some t)
    (several : ¬ active ≤ 1) (two : 2 ≤ live) : s.opened active live = [t] := by
  rw [opened, if_neg several]
  cases s with
  | river =>
    obtain rfl := Option.some.inj next
    exact (if_neg (fun both => both.2 rfl)).trans rfl
  | showdown => cases next
  | _ => rw [if_pos ⟨two, nofun⟩, next, Option.toList_some]

/-- If at most one player can decide, all streets that are left begin. -/
theorem opened_of_idle {s : Street} {active live : Nat} (several : ¬ active ≤ 1)
    (one : ¬ 2 ≤ live) : s.opened active live = s.following := by
  rw [opened, if_neg several, if_neg (fun both => one both.1)]

end Street

/-- Whether an action puts more into the pot than its player lacks. -/
def Action.outbids (a : Action) (lack : Chips) : Bool :=
  match a with
  | .bet _ | .raise _ => true
  | .shove n => lack < n
  | .fold | .check | .call _ => false

namespace Table

variable {t u : Table} {f f' : Flat} {a : Action} {p : Player} {e : Event}

/-! ## Every accepted event is recorded -/

/-- However the computation ends, the table it ends in records one more event. -/
def Records (t : Table) (e : Event) (x : Outcome Table) : Prop :=
  ∀ u, x = .ok u → u.history = t.history ++ [e]

/-- Extending a table records the event. -/
theorem records_extend (t : Table) (e : Event) (change : Change) (ledger : Ledger) :
    t.Records e (.ok (t.extend e change ledger)) := by
  rintro _ ⟨⟩
  simp [history, extend]

/-- An event out of place ends in no table. -/
theorem records_outOfPlace : t.Records e (t.outOfPlace e) := fun _ ended =>
  absurd ended (outOfPlace_ne_ok e _)

/-- A computation records the event if whatever follows its first part does. -/
theorem Records.bind {α : Type} {x : Outcome α} {next : α → Outcome Table}
    (rest : ∀ a, t.Records e (next a)) : t.Records e (x >>= next) := by
  intro u ended
  obtain ⟨a, _, ends⟩ := bind_eq_ok.1 ended
  exact rest a u ends

/-- A choice records the event if both branches do. -/
theorem Records.ite {c : Prop} [Decidable c] {x y : Outcome Table} (yes : t.Records e x)
    (no : t.Records e y) : t.Records e (if c then x else y) := by
  split
  · exact yes
  · exact no

/-- A wager is recorded. -/
theorem records_wager (seat : Seat) (n : Chips) : t.Records e (t.wager e seat n) :=
  .bind (fun _ => t.records_extend e _ _)

/-- A move is recorded. -/
theorem records_applyMove (m : Move) : t.Records (.move p m) (t.applyMove p m) := by
  refine .bind (fun seat => ?_)
  cases m with
  | check => exact .ite records_outOfPlace (t.records_extend _ _ _)
  | call => exact records_wager seat _
  | bet n => exact .ite records_outOfPlace (records_wager seat _)
  | raise n => exact .bind (fun _ => .ite records_outOfPlace (records_wager seat _))
  | allIn => exact .ite records_outOfPlace (records_wager seat _)
  | fold => exact t.records_extend _ _ _

/-- An accepted event is recorded. -/
theorem records_apply : t.Records e (t.apply e) := by
  cases e with
  | move p m => exact records_applyMove m
  | turn p =>
    show t.Records (.turn p) (t.applyTurn p)
    unfold applyTurn
    split
    · exact nofun
    · exact .ite (t.records_extend _ _ _) records_outOfPlace
  | round street cards =>
    show t.Records (.round street cards) (t.applyRound street cards)
    refine .ite records_outOfPlace ?_
    split
    · exact nofun
    · refine .ite records_outOfPlace (.bind (fun seats => .bind (fun ledger => ?_)))
      exact t.records_extend _ _ _

/-- A run of events is recorded event by event. -/
theorem history_run {events : List Event} (ran : t.run events = .ok u) :
    u.history = t.history ++ events := by
  induction events generalizing t with
  | nil =>
    obtain rfl := Except.ok.inj ran
    exact (List.append_nil _).symm
  | cons e events ih =>
    rw [run, List.foldlM_cons] at ran
    obtain ⟨t', applied, rest⟩ := bind_eq_ok.1 ran
    rw [ih rest, records_apply t' applied, List.append_assoc, List.singleton_append]

/-! ## Closing a round -/

/-- The streets that begin when a round is closed are told by the players who are left. -/
theorem Shows.run_of_close (h : t.Shows f) (sound : f.Sound) (ended : f.isRoundOver = true)
    (closed : t.close = .ok u) :
    t.run ((f.street.opened f.activeCount f.liveCount).map (Event.round · Hand.empty)) = .ok u := by
  induction t using wellFounded_closing.induction generalizing f with
  | _ t ih =>
    have answers := h.answers sound
    cases loop : t.isHandOver || !t.isRoundOver with
    | true =>
      rw [close_of_stop loop] at closed
      rw [answers.isHandOver, answers.isRoundOver, ended, Flat.isHandOver] at loop
      have done : f.activeCount ≤ 1 ∨ f.street = .showdown := by simpa using loop
      rw [Street.opened_of_done done]
      exact closed
    | false =>
      obtain ⟨street, next, goes, steps⟩ := close_of_running loop
      rw [goes] at closed
      obtain ⟨t', applied, closed⟩ := bind_eq_ok.1 closed
      have step := steps t' applied
      obtain ⟨street', next', running, begun, soundBegun⟩ := h.closing_cases sound step
      rw [answers.street] at next
      obtain rfl := Option.some.inj (next.symm.trans next')
      have first : t.run [.round street Hand.empty] = .ok t' := run_single applied
      have several : ¬ f.activeCount ≤ 1 := by
        intro few
        simp [Flat.isHandOver, few] at running
      by_cases two : 2 ≤ f.liveCount
      · have stop : (t'.isHandOver || !t'.isRoundOver) = true := by
          have open? : ¬ f.liveCount ≤ 1 := by lia
          rw [(begun.answers soundBegun).isRoundOver, Flat.isRoundOver_begin,
            decide_eq_false several, decide_eq_false open?]
          exact Bool.or_true _
        rw [close_of_stop stop] at closed
        rw [Street.opened_of_live next several two]
        exact run_append first closed
      · rw [Street.opened_of_idle several two, Street.following_next next]
        have idle : (f.begin street f.board).isRoundOver = true := by
          rw [Flat.isRoundOver_begin]
          simp only [Bool.or_eq_true, decide_eq_true_eq]
          lia
        have later := ih t' step begun soundBegun idle closed
        rw [Flat.activeCount_begin, Flat.liveCount_begin,
          Street.opened_of_idle several two] at later
        exact run_append first later

/-- Closing a round begins the streets that are left to the players, and changes neither them nor
the board; no bet is raised. -/
theorem Shows.close_spec (h : t.Shows f) (sound : f.Sound) (ended : t.isRoundOver = true)
    (closed : t.close = .ok u) :
    t.run ((t.street.opened u.activeCount u.actionableCount).map (Event.round · Hand.empty)) =
      .ok u ∧
      u.board = t.board ∧ u.activeCount = t.activeCount ∧ u.largestBet ≤ t.largestBet := by
  have answers := h.answers sound
  obtain ⟨g, shown, sound', active, live, board, largest⟩ :=
    h.closings_invariant (P := fun g => g.activeCount = f.activeCount ∧ g.liveCount = f.liveCount ∧
        g.board = f.board ∧ g.largest ≤ f.largest)
      (fun g street kept => ⟨(g.activeCount_begin street g.board).trans kept.1,
        (g.liveCount_begin street g.board).trans kept.2.1, kept.2.2.1, Nat.zero_le _⟩)
      sound ⟨rfl, rfl, rfl, Nat.le_refl _⟩ (closings_of_close closed).1
  have now := shown.answers sound'
  refine ⟨?_, ?_, ?_, ?_⟩
  · rw [answers.street, now.activeCount, now.actionableCount, active, live]
    exact h.run_of_close sound (answers.isRoundOver ▸ ended) closed
  · rw [now.board, board, answers.board]
  · rw [now.activeCount, active, answers.activeCount]
  · rw [now.largestBet, answers.largestBet]
    exact largest

/-- Passing the turn changes nothing else. -/
theorem Shows.turn_spec {q : Player} (h : t.Shows f) (sound : f.Sound)
    (passed : t.apply (.turn q) = .ok u) :
    u.board = t.board ∧ u.activeCount = t.activeCount ∧ u.largestBet = t.largestBet ∧
      ∀ seat ∈ f.seats, u.isActionable seat.player = seat.isActionable ∧
        u.deficit seat.player = f.lack seat := by
  obtain ⟨g, turned, shown⟩ := (h.apply_agrees sound (.turn q)).exists_some passed
  have sound' : g.Sound := sound.apply turned
  obtain ⟨_, _, _, rfl⟩ := Flat.applyTurn_cases turned
  have answers := h.answers sound
  have now := shown.answers sound'
  exact ⟨now.board.trans answers.board.symm, now.activeCount.trans answers.activeCount.symm,
    now.largestBet.trans answers.largestBet.symm,
    fun seat mem => ⟨now.isActionable seat mem, now.deficit seat mem⟩⟩

/-- Somebody competes after a move: whoever folds lacks something, and so is not the player who has
bet the most. -/
theorem activeCount_pos_of_move {m : Move} (sound : f.Sound) (held : f.Held)
    (applied : f.applyMove p m = some f')
    (owes : ∀ seat, f.seat? p = some seat → m = .fold → 0 < f.lack seat) : 0 < f'.activeCount := by
  obtain ⟨seat, due, _, _⟩ := Flat.applyMove_cases applied
  obtain ⟨found, live, _⟩ := Flat.due?_eq_some_iff.1 due
  have competes := Flat.competes_apply (e := .move p m) sound applied
  by_cases folds : m = .fold
  · have lacks := owes seat found folds
    rw [Flat.lack] at lacks
    rcases held with zero | ⟨most, mem, active, stake⟩
    · lia
    have other : p ≠ most.player := by
      rintro rfl
      obtain rfl := Option.some.inj (found.symm.trans (Flat.seat?_of_mem sound.distinct mem))
      lia
    refine Flat.activeCount_pos (p := most.player) ?_
    rw [competes, Flat.competes, Flat.seat?_of_mem sound.distinct mem]
    simp [active, other]
  · refine Flat.activeCount_pos (p := p) ?_
    rw [competes, Flat.competes, found]
    simp [Seat.isActive_of_isActionable live, folds]

/-! ## Raising the largest bet -/

/-- Of the actions that are allowed, those that outbid what lacks raise the largest bet. -/
theorem Shows.largest_lt_iff (h : t.Shows f) (sound : f.Sound) (due : f.next = some p)
    (allowed : t.isAllowed a = .ok true) (applied : f.applyMove p a.move = some f') :
    f.largest < f'.largest ↔ a.outbids (t.deficit p) = true := by
  obtain ⟨seat, found, _⟩ := sound.next_actionable p due
  have fits := (h.fits_of_isAllowed sound due found allowed).1
  rw [Flat.largest_lt_applyMove_iff sound found applied, h.deficit_eq found]
  cases a with
  | fold | check => exact iff_of_false (Nat.not_lt_zero _) Bool.false_ne_true
  | call n => exact iff_of_false (Nat.not_lt.2 (Nat.min_le_left _ _)) Bool.false_ne_true
  | bet n =>
    simp only [Action.move, Flat.permits, Bool.and_eq_true, decide_eq_true_eq] at fits
    refine iff_of_true ?_ rfl
    show f.largest - seat.stake < n
    lia
  | raise n =>
    simp only [Action.move, Flat.permits, Bool.and_eq_true, decide_eq_true_eq] at fits
    refine iff_of_true ?_ rfl
    show f.lack seat < f.lack seat + n
    lia
  | shove n =>
    rw [isAllowed, h.actor_eq sound due found] at allowed
    have all := Except.ok.inj allowed
    simp only [Bool.and_eq_true, decide_eq_true_eq] at all
    rw [all.1.1]
    exact decide_eq_true_iff.symm

/-- Whoever outbids what lacks may raise. -/
theorem mayRaise_of_outbids {seat : Seat} (acts : t.actor? = some seat)
    (allowed : t.isAllowed a = .ok true) (outbids : a.outbids (t.deficit seat.player) = true) :
    t.mayRaise = true := by
  unfold isAllowed at allowed
  rw [acts] at allowed
  cases a with
  | fold | check | call n => cases outbids
  | bet n =>
    have opens := Except.ok.inj allowed
    simp only [Bool.and_eq_true] at opens
    exact opens.1.1.2
  | raise n =>
    dsimp only at allowed
    by_cases guard : (0 < t.largestBet && t.mayRaise && t.minimum ≤ n) = true
    · rw [Bool.and_eq_true, Bool.and_eq_true] at guard
      exact guard.1.2
    · rw [if_neg guard] at allowed
      cases allowed
  | shove n =>
    have all := Except.ok.inj allowed
    have more : t.deficit seat.player < n := of_decide_eq_true outbids
    simp only [Bool.and_eq_true, Bool.or_eq_true, decide_eq_true_eq] at all
    exact all.2.resolve_left (by lia)

/-- Whoever may raise is not alone in deciding. -/
theorem Shows.exists_other (h : t.Shows f) (sound : f.Sound) {seat : Seat} (mem : seat ∈ f.seats)
    (acts : t.actor? = some seat) (raises : t.mayRaise = true) :
    ∃ s ∈ f.seats, s.player ≠ seat.player ∧ s.isActionable = true := by
  rw [mayRaise, acts, Option.any_some, mayRaiseFrom, Bool.and_eq_true,
    (h.answers sound).nextAfter seat mem, Option.any_eq_true] at raises
  obtain ⟨q, after, other⟩ := raises.2
  obtain ⟨s, found, rfl⟩ := Option.map_eq_some_iff.1 after
  have inSeats := (f.clockwise_perm seat.player).mem_iff.1
    (List.mem_of_mem_tail (List.mem_of_find?_eq_some found))
  exact ⟨s, inSeats, bne_iff_ne.1 other, List.find?_some found⟩

/-- After an allowed action that raises the largest bet the round stays open, and another player who
can decide has to answer. -/
theorem Shows.answered_of_raise (h : t.Shows f) (sound : f.Sound) (due : f.next = some p)
    (allowed : t.isAllowed a = .ok true) (applied : f.applyMove p a.move = some f')
    (raised : f.largest < f'.largest) :
    f'.isRoundOver = false ∧ ∃ next, f'.seat? next.player = some next ∧ next.player ≠ p ∧
      next.isActionable = true ∧ 0 < f'.lack next ∧ f'.nextAfter p = some next.player := by
  obtain ⟨seat, found, _⟩ := sound.next_actionable p due
  obtain ⟨mem, rfl⟩ := Flat.mem_of_seat? found
  have acts := h.actor_eq sound due found
  have outbids := (h.largest_lt_iff sound due allowed applied).1 raised
  have other := h.exists_other sound mem acts (mayRaise_of_outbids acts allowed outbids)
  exact Flat.answered_of_raise sound applied raised other

/-! ## One play -/

/-- An allowed move leaves the street and the board, and somebody to compete. If it raises the
largest bet, the round stays open and the turn passes to another player, who can decide and lacks
some of it. -/
theorem Shows.move_spec {moved : Table} (h : t.Shows f) (sound : f.Sound) (held : f.Held)
    (due : f.next = some p) (allowed : t.isAllowed a = .ok true)
    (accepted : t.apply (a.event p) = .ok moved) :
    ∃ f', moved.Shows f' ∧ f'.Sound ∧ moved.street = t.street ∧ moved.board = t.board ∧
      0 < moved.activeCount ∧ (t.largestBet < moved.largestBet ↔ a.outbids (t.deficit p) = true) ∧
      (t.largestBet < moved.largestBet → moved.isRoundOver = false ∧ ∃ next ∈ f'.seats,
        moved.nextAfter p = some next.player ∧ next.player ≠ p ∧ next.isActionable = true ∧
        0 < f'.lack next) := by
  obtain ⟨f', applied, shown⟩ := (h.apply_agrees sound (a.event p)).exists_some accepted
  have sound' : f'.Sound := sound.apply applied
  have answers := h.answers sound
  have now := shown.answers sound'
  obtain ⟨_, street, own, memOwn, samePlayer, _⟩ := Flat.settled_applyMove applied
  have board : f'.board = f.board := Flat.board_applyMove applied
  refine ⟨f', shown, sound', ?_, ?_, ?_, ?_, ?_⟩
  · rw [now.street, street, answers.street]
  · rw [now.board, board, answers.board]
  · rw [now.activeCount]
    exact activeCount_pos_of_move sound held applied
      (fun seat found => (h.fits_of_isAllowed sound due found allowed).2.1)
  · rw [now.largestBet, answers.largestBet]
    exact h.largest_lt_iff sound due allowed applied
  · intro raised
    rw [now.largestBet, answers.largestBet] at raised
    obtain ⟨running, next, found, other, live, lacks, passes⟩ :=
      h.answered_of_raise sound due allowed applied raised
    have after := now.nextAfter own memOwn
    rw [samePlayer, passes] at after
    exact ⟨now.isRoundOver.trans running, next, (Flat.mem_of_seat? found).1, after, other, live,
      lacks⟩

/-- What a play leaves in the history: the move, and then one turn if the round is still open after
it, or the streets that begin when the round is closed, on which no card is revealed. Somebody still
competes. The largest bet has grown exactly after a bet, a raise, or a shove of more than is
lacking; then the turn passes to another player, who can decide and lacks some of it. -/
theorem play_leaves_trace {s : Snapshot} {t₀ : Table} {actions : List Action}
    (start : Table.ofSnapshot s = .ok t₀) (reached : t₀.playAll actions = .ok t)
    (due : t.nextToAct = some p) (played : t.play a = .ok u) :
    ∃ moved rest, t.apply (a.event p) = .ok moved ∧
      u.history = t.history ++ a.event p :: rest ∧ t.run (a.event p :: rest) = .ok u ∧
      u.board = t.board ∧ 0 < u.activeCount ∧
      ((moved.isRoundOver = false ∧ ∃ q, moved.nextAfter p = some q ∧ rest = [.turn q]) ∨
        (moved.isRoundOver = true ∧ rest =
          (t.street.opened u.activeCount u.actionableCount).map (Event.round · Hand.empty))) ∧
      (t.largestBet < u.largestBet ↔ a.outbids (t.deficit p) = true) ∧
      (t.largestBet < u.largestBet → ∃ q, rest = [.turn q] ∧ q ≠ p ∧
        u.isActionable q = true ∧ 0 < u.deficit q) := by
  obtain ⟨shows₀, sound₀⟩ := ofSnapshot_shows start
  obtain ⟨f, h, sound, presentable⟩ := shows₀.playAll_invariant
    (fun h sound presentable played => h.presentable_play sound presentable played) sound₀
    (presentable_ofSnapshot start) reached
  obtain ⟨p', moved, due', allowed, accepted, rest⟩ := play_eq_ok.1 played
  obtain rfl : p = p' := Option.some.inj (due.symm.trans due')
  have next : f.next = some p := (h.answers sound).nextToAct.symm.trans due
  obtain ⟨f', shown, sound', street, board, competing, outbids, answered⟩ :=
    h.move_spec sound presentable.held next allowed accepted
  have first := run_single accepted
  rcases rest with ⟨ended, closed⟩ | ⟨running, q, after, passed⟩
  · obtain ⟨ran, board', active, noMore⟩ := shown.close_spec sound' ended closed
    have whole := run_append first ran
    rw [street] at whole
    -- a move that raises the largest bet is answered, so this one has not raised it
    have quiet : ¬ t.largestBet < moved.largestBet := by
      intro raised
      rw [(answered raised).1] at ended
      cases ended
    have kept : ¬ t.largestBet < u.largestBet := fun more => quiet (more.trans_le noMore)
    exact ⟨moved, _, accepted, history_run whole, whole, board'.trans board, active ▸ competing,
      Or.inr ⟨ended, rfl⟩, iff_of_false kept (fun more => quiet (outbids.2 more)),
      fun more => absurd more kept⟩
  · obtain ⟨board', active, same, seats⟩ := shown.turn_spec sound' passed
    have whole := run_append first (run_single passed)
    refine ⟨moved, _, accepted, history_run whole, whole, board'.trans board, active ▸ competing,
      Or.inl ⟨running, q, after, rfl⟩, same ▸ outbids, fun raised => ?_⟩
    obtain ⟨_, other, mem, passes, notSelf, live, lacks⟩ := answered (same ▸ raised)
    obtain rfl := Option.some.inj (after.symm.trans passes)
    obtain ⟨actionable, deficit⟩ := seats other mem
    exact ⟨other.player, rfl, notSelf, actionable.trans live, deficit ▸ lacks⟩

/-- One player goes all in and the other answers with all that is left: the streets run out. -/
theorem play_leaves_trace_headsUp : ∃ t₀ t u, Table.ofSnapshot (.headsUp 5) = .ok t₀ ∧
    t₀.playAll [.shove 9] = .ok t ∧ t.nextToAct = some ⟨1⟩ ∧ t.play (.shove 8) = .ok u ∧
    u.history = t.history ++ .move ⟨1⟩ .allIn ::
      [.flop, .turn, .river, .showdown].map (Event.round · Hand.empty) ∧
    ¬ t.largestBet < u.largestBet := by
  have dealt : ∃ t₀ t moved u, Table.ofSnapshot (.headsUp 5) = .ok t₀ ∧
      t₀.playAll [.shove 9] = .ok t ∧ t.nextToAct = some ⟨1⟩ ∧ t.play (.shove 8) = .ok u ∧
      t.apply ((Action.shove 8).event ⟨1⟩) = .ok moved ∧ moved.isRoundOver = true ∧
      t.street = .preflop ∧ u.activeCount = 2 ∧ u.actionableCount = 0 ∧ t.deficit ⟨1⟩ = 8 :=
    ⟨_, _, _, _, rfl, rfl, rfl, rfl, rfl, rfl, rfl, rfl, rfl, rfl⟩
  obtain ⟨t₀, t, moved, u, start, reached, due, played, applied, ended, street, active, live,
    lacks⟩ := dealt
  obtain ⟨moved', rest, applied', history, _, _, _, follows, outbids, _⟩ :=
    play_leaves_trace start reached due played
  obtain rfl := Except.ok.inj (applied.symm.trans applied')
  have rounds := (follows.resolve_left (fun turn => by simp [ended] at turn)).2
  rw [street, active, live] at rounds
  refine ⟨t₀, t, u, start, reached, due, played, ?_, ?_⟩
  · rw [history, rounds]
    rfl
  · rw [outbids, lacks]
    decide

end Table

end Holdem
