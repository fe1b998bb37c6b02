import Holdem.Proofs.Table.Trace

/-!
# What the history says of the betting

How often the largest bet was raised, by whom last and by how much, and who has acted since: the
ledger carries this along and changes a little of it at each event. It can be read off the history
instead. Only the events since the last round began matter, and among them those at which the
largest bet grew. One event adds itself to this reading as the ledger adds it to what it carries, so
by induction the two agree after every run.
-/

set_option autoImplicit false

namespace Holdem

/-- What the betting of a round starts from. -/
structure Betting where
  raises : Nat
  bettor : Option Player
  minRaise : Chips
  acted : List Player

/-- The betting as the snapshot has it. -/
def Snapshot.betting (s : Snapshot) : Betting where
  raises := s.raises
  bettor := s.bettor
  minRaise := s.minRaise.getD (max (s.topStakes.1 - s.topStakes.2) s.bigBlind)
  acted := s.acted

/-- What the betting starts from after some events: a round that has begun wipes out what the
snapshot says, and its smallest raise is the big blind. -/
def Snapshot.bettingAfter (s : Snapshot) (events : List Event) : Betting :=
  if events.any Event.isRound then ⟨0, none, s.bigBlind, []⟩ else s.betting

/-- An event, with the table before it and the table after it. -/
structure Step where
  event : Event
  before : Table
  after : Table

namespace Step

/-- Whether the largest bet grew. -/
def isIncrease (step : Step) : Bool := step.before.largestBet < step.after.largestBet

/-- By how much the largest bet grew. -/
def increment (step : Step) : Chips := step.after.largestBet - step.before.largestBet

/-- The last step at which the largest bet grew. -/
def lastIncrease? (steps : List Step) : Option Step := steps.reverse.find? isIncrease

/-- The last step at which the largest bet grew and those after it, or all steps if there is
none. -/
def sinceIncrease (steps : List Step) : List Step :=
  (lastIncrease? steps).toList ++ steps.rtakeWhile (fun step => !step.isIncrease)

/-- The steps since the last round began. -/
def sinceRound (steps : List Step) : List Step :=
  steps.rtakeWhile (fun step => !step.event.isRound)

/-- The last increase is the last step if that increases the stakes, and otherwise the one before
it. -/
theorem lastIncrease?_concat (steps : List Step) (step : Step) : lastIncrease? (steps ++ [step]) =
    if step.isIncrease then some step else lastIncrease? steps := by
  rw [lastIncrease?, List.reverse_concat, List.find?_cons]
  cases step.isIncrease <;> rfl

/-- What happened since the last increase starts anew with an increase. -/
theorem sinceIncrease_concat (steps : List Step) (step : Step) : sinceIncrease (steps ++ [step]) =
    if step.isIncrease then [step] else sinceIncrease steps ++ [step] := by
  rw [sinceIncrease, lastIncrease?_concat, List.rtakeWhile_concat]
  cases step.isIncrease with
  | true => rfl
  | false => exact (List.append_assoc ..).symm

/-- What happened since the last round starts anew with a round. -/
theorem sinceRound_concat (steps : List Step) (step : Step) : sinceRound (steps ++ [step]) =
    if step.event.isRound then [] else sinceRound steps ++ [step] := by
  rw [sinceRound, List.rtakeWhile_concat]
  cases step.event.isRound <;> rfl

end Step

namespace Table

variable {t u : Table} {e : Event} {events : List Event}

/-- The steps of a run of events, up to the first that is refused. -/
def steps (t : Table) : List Event → List Step
  | [] => []
  | e :: events =>
    match t.apply e with
    | .ok u => ⟨e, t, u⟩ :: u.steps events
    | .error _ => []

/-- The table says of the betting what some steps make of what the round starts from. -/
structure Recounts (t : Table) (base : Betting) (steps : List Step) : Prop where
  raises : t.raises = base.raises + steps.countP Step.isIncrease
  lastBettor : t.lastBettor =
    (Step.lastIncrease? steps).elim base.bettor (fun step => step.event.actor)
  minRaise : t.minRaise =
    ((steps.filter Step.isIncrease).map Step.increment).foldl max base.minRaise
  /-- Who has acted since the last increase, or is known to have acted if there is none. -/
  hasActed : ∀ p, t.hasActed p = true ↔
    (∃ step ∈ Step.sinceIncrease steps, step.event.actor = some p) ∨
      (Step.lastIncrease? steps = none ∧ p ∈ base.acted)

/-! ## Runs event by event -/

/-- A run of events ends with the last of them applied where the others led. -/
theorem run_concat : t.run (events ++ [e]) = .ok u ↔
    ∃ v, t.run events = .ok v ∧ v.apply e = .ok u := by
  rw [run, List.foldlM_append, bind_eq_ok]
  refine exists_congr (fun v => and_congr_right (fun _ => ?_))
  rw [List.foldlM_cons, bind_eq_ok]
  constructor
  · rintro ⟨w, applied, same⟩
    obtain rfl := Except.ok.inj same
    exact applied
  · exact fun applied => ⟨u, applied, rfl⟩

/-- The steps of a run end with that of its last event. -/
theorem steps_concat {v : Table} (ran : t.run events = .ok v) (applied : v.apply e = .ok u) :
    t.steps (events ++ [e]) = t.steps events ++ [⟨e, v, u⟩] := by
  induction events generalizing t with
  | nil =>
    obtain rfl := Except.ok.inj ran
    simp [steps, applied]
  | cons first events ih =>
    rw [run, List.foldlM_cons] at ran
    obtain ⟨t', applied', rest⟩ := bind_eq_ok.1 ran
    simp only [List.cons_append, steps, applied']
    rw [ih rest]

/-- The steps of a run are those of its events. -/
theorem map_event_steps (ran : t.run events = .ok u) :
    (t.steps events).map Step.event = events := by
  induction events generalizing t with
  | nil => rfl
  | cons first events ih =>
    rw [run, List.foldlM_cons] at ran
    obtain ⟨t', applied, rest⟩ := bind_eq_ok.1 ran
    simp only [steps, applied, List.map_cons, ih rest]

/-! ## One event -/

variable {t₀ : Table} {f : Flat} {base : Betting} {past : List Step} {p : Player}

/-- A step that raises the largest bet starts the count of those who have acted anew. -/
theorem Recounts.increase (h : t.Recounts base past) (grown : t.largestBet < u.largestBet)
    (actor : e.actor = some p) (raises : u.raises = t.raises + 1) (bettor : u.lastBettor = some p)
    (least : u.minRaise = max t.minRaise (u.largestBet - t.largestBet))
    (acted : ∀ q, u.hasActed q = true ↔ q = p) : u.Recounts base (past ++ [⟨e, t, u⟩]) := by
  have increases : Step.isIncrease ⟨e, t, u⟩ = true := decide_eq_true grown
  have last : Step.lastIncrease? (past ++ [⟨e, t, u⟩]) = some ⟨e, t, u⟩ := by
    rw [Step.lastIncrease?_concat, if_pos increases]
  refine ⟨?_, ?_, ?_, fun q => ?_⟩
  · rw [raises, h.raises, List.countP_append, List.countP_cons_of_pos increases, List.countP_nil,
      Nat.zero_add, Nat.add_assoc]
  · rw [last, bettor]
    exact actor.symm
  · rw [least, h.minRaise, List.filter_append, List.filter_cons_of_pos increases, List.map_append,
      List.foldl_append]
    rfl
  · rw [acted, last, Step.sinceIncrease_concat, if_pos increases]
    simp [actor, eq_comm]

/-- Any other step adds its actor, if it has one, to those who have acted. -/
theorem Recounts.quiet (h : t.Recounts base past) (same : u.largestBet = t.largestBet)
    (raises : u.raises = t.raises) (bettor : u.lastBettor = t.lastBettor)
    (least : u.minRaise = t.minRaise)
    (acted : ∀ q, u.hasActed q = true ↔ e.actor = some q ∨ t.hasActed q = true) :
    u.Recounts base (past ++ [⟨e, t, u⟩]) := by
  have stays : ¬ Step.isIncrease ⟨e, t, u⟩ = true := by simp [Step.isIncrease, same]
  have last : Step.lastIncrease? (past ++ [⟨e, t, u⟩]) = Step.lastIncrease? past := by
    rw [Step.lastIncrease?_concat, if_neg stays]
  refine ⟨?_, ?_, ?_, fun q => ?_⟩
  · rw [raises, h.raises, List.countP_append, List.countP_cons_of_neg stays, List.countP_nil,
      Nat.add_zero]
  · rw [last, bettor, h.lastBettor]
  · rw [least, h.minRaise, List.filter_append, List.filter_cons_of_neg stays, List.filter_nil,
      List.append_nil]
  · rw [acted, h.hasActed, last, Step.sinceIncrease_concat, if_neg stays]
    simp only [List.mem_append, List.mem_singleton, or_and_right, exists_or, exists_eq_left]
    rw [or_comm, or_right_comm]

/-- An event that begins no round extends the reading of the steps before it by its own. -/
theorem Recounts.apply (h : t.Recounts base past) (shows : t.Shows f) (sound : f.Sound)
    (applied : t.apply e = .ok u) (goesOn : e.isRound = false) :
    u.Recounts base (past ++ [⟨e, t, u⟩]) := by
  obtain ⟨g, applied', shown⟩ := (shows.apply_agrees sound e).exists_some applied
  have answers := shows.answers sound
  have now := shown.answers (sound.apply applied')
  cases e with
  | round street cards => cases goesOn
  | move p m =>
    rcases Flat.betting_applyMove applied' with ⟨grown, raises, bettor, least, acted⟩ |
      ⟨same, raises, bettor, least, acted⟩
    · refine h.increase (p := p) ?_ rfl ?_ ?_ ?_ (fun q => ?_)
      · rwa [now.largestBet, answers.largestBet]
      · rw [now.raises, answers.raises, raises]
      · rw [now.lastBettor, bettor]
      · rw [now.minRaise, now.largestBet, answers.minRaise, answers.largestBet, least]
      · rw [now.hasActed, acted, decide_eq_true_eq, Finset.mem_singleton]
    · refine h.quiet ?_ ?_ ?_ ?_ (fun q => ?_)
      · rw [now.largestBet, answers.largestBet, same]
      · rw [now.raises, answers.raises, raises]
      · rw [now.lastBettor, answers.lastBettor, bettor]
      · rw [now.minRaise, answers.minRaise, least]
      · rw [now.hasActed, answers.hasActed, acted, decide_eq_true_eq, decide_eq_true_eq,
          Finset.mem_insert, Event.actor, Option.some.injEq, eq_comm]
  | turn p =>
    obtain ⟨_, _, _, rfl⟩ := Flat.applyTurn_cases applied'
    refine h.quiet ?_ ?_ ?_ ?_ (fun q => ?_)
    · exact now.largestBet.trans answers.largestBet.symm
    · exact now.raises.trans answers.raises.symm
    · exact now.lastBettor.trans answers.lastBettor.symm
    · exact now.minRaise.trans answers.minRaise.symm
    · rw [now.hasActed, answers.hasActed]
      exact (or_iff_right (Option.some_ne_none q ·.symm)).symm

/-- When a round begins nothing is known but the big blind. -/
theorem Shows.recounts_round {street : Street} {cards : Hand} (shows : t.Shows f) (sound : f.Sound)
    (applied : t.apply (.round street cards) = .ok u) :
    u.Recounts ⟨0, none, t.bigBlind, []⟩ [] := by
  obtain ⟨g, applied', shown⟩ := (shows.apply_agrees sound _).exists_some applied
  have now := shown.answers (sound.apply applied')
  obtain ⟨_, _, board, _, _, rfl⟩ := Flat.applyRound_cases applied'
  refine ⟨now.raises, now.lastBettor, ?_, fun q => ?_⟩
  · rw [now.minRaise, shows.bigBlind]
    rfl
  · rw [now.hasActed]
    simp [Flat.begin, Step.sinceIncrease, Step.lastIncrease?]

/-! ## Runs -/

/-- A table built from a snapshot recounts the snapshot's betting, before any step. -/
theorem recounts_ofSnapshot {s : Snapshot} (start : Table.ofSnapshot s = .ok t) :
    t.Recounts s.betting [] := by
  obtain ⟨shows, sound⟩ := ofSnapshot_shows start
  have answers := shows.answers sound
  refine ⟨answers.raises, answers.lastBettor, answers.minRaise, fun q => ?_⟩
  rw [answers.hasActed]
  simp [Flat.ofSnapshot, Snapshot.betting, Step.sinceIncrease, Step.lastIncrease?]

/-- The events of a run are read one after the other. -/
theorem recounts_steps {s : Snapshot} (start : Table.ofSnapshot s = .ok t₀)
    (ran : t₀.run events = .ok t) :
    t.Recounts (s.bettingAfter events) (Step.sinceRound (t₀.steps events)) := by
  -- the last event is added to the reading of those before it, unless it begins a round
  induction events using List.reverseRecOn generalizing t with
  | nil =>
    obtain rfl := Except.ok.inj ran
    exact recounts_ofSnapshot start
  | append_singleton events e ih =>
    obtain ⟨v, before, applied⟩ := run_concat.1 ran
    obtain ⟨f, flatRan, shows, sound⟩ := exists_flat_of_run start before
    rw [steps_concat before applied, Step.sinceRound_concat, Snapshot.bettingAfter, List.any_append]
    cases begins : e.isRound with
    | false =>
      rw [List.any_cons, begins]
      simpa [Snapshot.bettingAfter] using (ih before).apply shows sound applied begins
    | true =>
      obtain ⟨street, cards, rfl⟩ : ∃ street cards, e = .round street cards := by
        cases e with
        | round street cards => exact ⟨street, cards, rfl⟩
        | move p m => cases begins
        | turn p => cases begins
      have blind : v.bigBlind = s.bigBlind :=
        shows.bigBlind.trans (Flat.bigBlind_run (ofSnapshot_shows start).2 flatRan)
      simpa [begins, blind] using shows.recounts_round sound applied

/-- At every table of a run from an accepted snapshot the history tells what the ledger carries
along. Let the steps be those since the last round began. There are as many raises as steps at which
the largest bet grew, on top of those that the round started with; the last bettor is the actor of
the last of them; the smallest raise is the largest of their increments and of what it was; and
those have acted who made a move at the last of them or since, or, if there is none, who made a move
or were known to have acted. -/
theorem history_tells_betting {s : Snapshot} (start : Table.ofSnapshot s = .ok t₀)
    (ran : t₀.run events = .ok t) :
    t.history = events ∧ (t₀.steps t.history).map Step.event = t.history ∧
      t.Recounts (s.bettingAfter t.history) (Step.sinceRound (t₀.steps t.history)) := by
  have fresh : t₀.history = [] := by
    obtain ⟨_, _, opened⟩ := bind_eq_ok.1 start
    obtain ⟨_, _, table⟩ := bind_eq_ok.1 opened
    cases table
    rfl
  have history : t.history = events := by rw [history_run ran, fresh, List.nil_append]
  rw [history]
  exact ⟨rfl, map_event_steps ran, recounts_steps start ran⟩

/-- On the flop one player bets and the other raises by more: two steps raise the largest bet, and
only the second player has acted since the last of them. -/
theorem history_tells_betting_headsUp : ∃ t₀ t, Table.ofSnapshot (.headsUp 5) = .ok t₀ ∧
    t₀.run [.move ⟨0⟩ .call, .turn ⟨1⟩, .move ⟨1⟩ .check, .round .flop Hand.empty,
      .move ⟨1⟩ (.bet 2), .turn ⟨0⟩, .move ⟨0⟩ (.raise 3)] = .ok t ∧
    t.raises = 2 ∧ t.lastBettor = some ⟨0⟩ ∧ t.minRaise = 3 ∧ t.hasActed ⟨0⟩ = true ∧
    ¬ t.hasActed ⟨1⟩ = true := by
  have dealt : ∃ t₀ t past, Table.ofSnapshot (.headsUp 5) = .ok t₀ ∧
      t₀.run [.move ⟨0⟩ .call, .turn ⟨1⟩, .move ⟨1⟩ .check, .round .flop Hand.empty,
        .move ⟨1⟩ (.bet 2), .turn ⟨0⟩, .move ⟨0⟩ (.raise 3)] = .ok t ∧
      Step.sinceRound (t₀.steps [.move ⟨0⟩ .call, .turn ⟨1⟩, .move ⟨1⟩ .check,
        .round .flop Hand.empty, .move ⟨1⟩ (.bet 2), .turn ⟨0⟩, .move ⟨0⟩ (.raise 3)]) = past ∧
      past.countP Step.isIncrease = 2 ∧
      (Step.lastIncrease? past).map (fun step => step.event.actor) = some (some ⟨0⟩) ∧
      ((past.filter Step.isIncrease).map Step.increment) = [2, 3] ∧
      (Step.sinceIncrease past).map (fun step => step.event.actor) = [some ⟨0⟩] :=
    ⟨_, _, _, rfl, rfl, rfl, rfl, rfl, rfl, rfl⟩
  obtain ⟨t₀, t, past, start, ran, round, count, last, increments, actors⟩ := dealt
  obtain ⟨history, -, recounts⟩ := history_tells_betting start ran
  rw [history, round] at recounts
  obtain ⟨raise, found, actor⟩ := Option.map_eq_some_iff.1 last
  have acted : ∀ p, t.hasActed p = true ↔ some p ∈ [some (⟨0⟩ : Player)] := by
    intro p
    rw [recounts.hasActed, found, ← actors, List.mem_map]
    simp
  refine ⟨t₀, t, start, ran, ?_, ?_, ?_, (acted _).2 (by decide), fun idle => ?_⟩
  · rw [recounts.raises, count]
    rfl
  · rw [recounts.lastBettor, found]
    exact actor
  · rw [recounts.minRaise, increments]
    rfl
  · exact absurd ((acted _).1 idle) (by decide)

end Table

end Holdem
