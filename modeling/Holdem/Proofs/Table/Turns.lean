import Holdem.Proofs.Flat.Turns
import Holdem.Proofs.Table.Plays

/-!
# Nobody acts twice without a raise in between

Once a street has begun at a table, plays keep the turns in order, on that street and on all that
follow: the player due has not acted since the last bet or raise, and those who have acted owe
nothing. So a player who has acted is due again in the same round only after the largest bet has
grown.
-/

set_option autoImplicit false

namespace Holdem

namespace Flat

variable {f g : Flat} {p : Player} {n : Chips} {street : Street}

/-- In the round of a street, a player has acted while the largest bet was a given one, or it has
grown since; the round may also be over. -/
def ActedAt (f : Flat) (p : Player) (n : Chips) (street : Street) : Prop :=
  f.street.left < street.left ∨
    (f.street = street ∧ (n < f.largest ∨ (f.largest = n ∧ p ∈ f.acted)))

/-- One played action as far as turns are concerned: a later street begins, or its player has acted,
and everybody who had acted before unless the largest bet has grown. -/
def Onward (f : Flat) (p : Player) (g : Flat) : Prop :=
  g.street.left < f.street.left ∨
    (g.street = f.street ∧ ((g.acted = insert p f.acted ∧ g.largest = f.largest) ∨
      (g.acted = {p} ∧ f.largest < g.largest)))

/-- A player who plays has acted at the largest bet that results. -/
theorem Onward.actedAt (onward : f.Onward p g) : g.ActedAt p g.largest f.street := by
  rcases onward with later | ⟨same, ⟨acted, _⟩ | ⟨acted, _⟩⟩
  · exact Or.inl later
  · exact Or.inr ⟨same, Or.inr ⟨rfl, by rw [acted]; exact Finset.mem_insert_self _ _⟩⟩
  · exact Or.inr ⟨same, Or.inr ⟨rfl, by rw [acted]; exact Finset.mem_singleton_self _⟩⟩

/-- That a player has acted at some bet outlasts the actions of others. -/
theorem ActedAt.onward {q : Player} (since : f.ActedAt p n street) (onward : f.Onward q g) :
    g.ActedAt p n street := by
  rcases since with past | ⟨rfl, bet⟩
  · rcases onward with later | ⟨same, _⟩
    · exact Or.inl (later.trans past)
    · exact Or.inl (same ▸ past)
  · rcases onward with later | ⟨same, ⟨acted, kept⟩ | ⟨_, grown⟩⟩
    · exact Or.inl later
    · refine Or.inr ⟨same, ?_⟩
      rw [kept, acted]
      exact bet.imp id (And.imp id Finset.mem_insert_of_mem)
    · refine Or.inr ⟨same, Or.inl ?_⟩
      rcases bet with more | ⟨rfl, _⟩
      · exact more.trans grown
      · exact grown

end Flat

namespace Table

variable {t t' u : Table} {f : Flat} {a : Action}

/-- The loop that closes a round ends where it starts, or where a later street begins. -/
theorem Shows.closings_cases (h : t.Shows f) (sound : f.Sound)
    (steps : Relation.ReflTransGen Closing t t') :
    t' = t ∨ ∃ (g : Flat) (street : Street) (board : Board), t'.Shows (g.begin street board) ∧
      (g.begin street board).Sound ∧ street.left < f.street.left := by
  rcases steps.cases_tail with same | ⟨u, before, step⟩
  · exact Or.inl same
  · obtain ⟨g, shown, sound', _, _, ends⟩ := h.closings sound before
    obtain ⟨street, next, _, begun, soundBegun⟩ := shown.closing_cases sound' step
    refine Or.inr ⟨g, street, g.board, begun, soundBegun, ?_⟩
    have fewer := Street.left_next next
    rcases ends with rfl | later
    · lia
    · lia

/-- A played action keeps the order of the turns. -/
theorem Shows.orderly_play (h : t.Shows f) (sound : f.Sound) (order : f.Orderly)
    (played : t.play a = .ok t') :
    ∃ p g, t.nextToAct = some p ∧ t'.Shows g ∧ g.Sound ∧ g.Orderly ∧ f.Onward p g := by
  obtain ⟨p, moved, f', due, _, applied, shown, sound', rest⟩ := h.play_cases sound played
  have next : t.nextToAct = some p := (h.answers sound).nextToAct.trans due
  obtain ⟨idle, street, _⟩ := Flat.settled_applyMove applied
  have acted := Flat.acted_applyMove applied
  rcases rest with ⟨_, closed⟩ | ⟨running, q, after, shows', soundTurn⟩
  · rcases shown.closings_cases sound' (closings_of_close closed).1 with rfl | ⟨g, later, board,
      begun, soundBegun, less⟩
    · -- no street began: nobody is due, and nothing but that changed
      refine ⟨p, f', next, shown, sound', ⟨(order.applyMove sound due applied).1, ?_, ?_⟩,
        Or.inr ⟨street, acted⟩⟩
      · rw [idle]
        exact fun _ nobody => nomatch nobody
      · rw [idle]
        exact fun _ nobody => nomatch nobody
    · exact ⟨p, _, next, begun, soundBegun, Flat.orderly_begin g later board,
        Or.inl (street ▸ less)⟩
  · exact ⟨p, f'.turnTo q, next, shows', soundTurn, order.turnTo sound due applied running after,
      Or.inr ⟨street, acted⟩⟩

/-- Turns are in order after any actions. -/
theorem Shows.orderly_playAll (h : t.Shows f) (sound : f.Sound) (order : f.Orderly)
    {actions : List Action} (played : t.playAll actions = .ok t') :
    ∃ g, t'.Shows g ∧ g.Sound ∧ g.Orderly := by
  refine h.playAll_invariant (fun h sound order played => ?_) sound order played
  obtain ⟨_, g, _, shown, sound', order', _⟩ := h.orderly_play sound order played
  exact ⟨g, shown, sound', order'⟩

/-- A player who has acted in the round of a street is due again in it only after the largest bet
has grown. -/
theorem Shows.largest_lt_of_due_again (h : t.Shows f) (sound : f.Sound) (order : f.Orderly)
    {p : Player} (due : t.nextToAct = some p) (played : t.play a = .ok t') {later : List Action}
    (playedOn : t'.playAll later = .ok u) (same : u.street = t.street)
    (again : u.nextToAct = some p) : t'.largestBet < u.largestBet := by
  obtain ⟨q, g, due', shown, sound', order', onward⟩ := h.orderly_play sound order played
  obtain rfl : p = q := Option.some.inj (due.symm.trans due')
  have kept : ∃ e, u.Shows e ∧ e.Sound ∧ e.Orderly ∧ e.ActedAt p g.largest f.street := by
    refine shown.playAll_invariant (fun h sound both played => ?_) sound'
      ⟨order', onward.actedAt⟩ playedOn
    obtain ⟨_, e, _, shows', soundE, orderE, onwardE⟩ := h.orderly_play sound both.1 played
    exact ⟨e, shows', soundE, orderE, both.2.onward onwardE⟩
  obtain ⟨e, showsE, soundE, orderE, since⟩ := kept
  have answers := showsE.answers soundE
  rw [answers.nextToAct] at again
  rw [answers.street, (h.answers sound).street] at same
  rw [answers.largestBet, (shown.answers sound').largestBet]
  rcases since with past | ⟨_, grown | ⟨_, acted⟩⟩
  · rw [same] at past
    exact absurd past (Nat.lt_irrefl _)
  · exact grown
  · exact absurd acted (orderE.due_idle p again)

/-- After a round has begun at a table that a run from an accepted snapshot reaches, and after any
plays from there: the player due has not acted since the last bet or raise, and whoever can still
decide and has acted owes nothing. So if the player due acts, the same player is due again in the
same round only after the largest bet has grown beyond what it was after that action. -/
theorem nobody_acts_twice {s : Snapshot} {t₀ : Table} {events : List Event} {street : Street}
    {cards : Hand} {actions : List Action} (start : Table.ofSnapshot s = .ok t₀)
    (ran : t₀.run (events ++ [.round street cards]) = .ok t) (played : t.playAll actions = .ok u) :
    (∀ p, u.nextToAct = some p → u.hasActed p = false) ∧
      (∀ p, u.isActionable p = true → u.hasActed p = true → u.deficit p = 0) ∧
      ∀ p a u' later v, u.nextToAct = some p → u.play a = .ok u' → u'.playAll later = .ok v →
        v.street = u.street → v.nextToAct = some p → u'.largestBet < v.largestBet := by
  obtain ⟨shows₀, sound₀⟩ := ofSnapshot_shows start
  obtain ⟨f, flatRan, h, sound⟩ :=
    (shows₀.run_agrees sound₀ (events ++ [.round street cards])).exists_some ran
  have begun : f.Orderly := by
    rw [Flat.run, List.foldlM_append] at flatRan
    obtain ⟨e, _, last⟩ := Option.bind_eq_some_iff.1 flatRan
    rw [List.foldlM_cons] at last
    obtain ⟨_, applied, same⟩ := Option.bind_eq_some_iff.1 last
    obtain rfl := Option.some.inj same
    obtain ⟨_, _, board, _, _, rfl⟩ := Flat.applyRound_cases applied
    exact Flat.orderly_begin e street board
  obtain ⟨g, shown, sound', order⟩ := h.orderly_playAll sound begun played
  have answers := shown.answers sound'
  refine ⟨fun p due => ?_, fun p live acted => ?_, fun p a u' later v due first rest same again =>
    shown.largest_lt_of_due_again sound' order due first rest same again⟩
  · rw [answers.nextToAct] at due
    rw [answers.hasActed]
    exact decide_eq_false (order.due_idle p due)
  · rw [answers.hasActed, decide_eq_true_eq] at acted
    obtain ⟨seat, mem, rfl⟩ := List.mem_map.1 (sound'.acted_seated p acted)
    rw [answers.isActionable seat mem] at live
    rw [answers.deficit seat mem]
    exact Nat.sub_eq_zero_of_le (order.matched seat mem live acted)

/-- On the flop one player bets and the other raises; only then is the first due again. -/
theorem nobody_acts_twice_headsUp : ∃ t₀ t u v w, Table.ofSnapshot (.headsUp 5) = .ok t₀ ∧
    t₀.run ([.move ⟨0⟩ .call, .turn ⟨1⟩, .move ⟨1⟩ .check] ++ [.round .flop Hand.empty]) = .ok t ∧
    t.playAll [.check] = .ok u ∧ u.nextToAct = some ⟨0⟩ ∧ u.hasActed ⟨0⟩ = false ∧
    u.play (.bet 2) = .ok v ∧ v.playAll [.raise 2] = .ok w ∧ w.nextToAct = some ⟨0⟩ ∧
    v.largestBet < w.largestBet := by
  have dealt : ∃ t₀ t u v w, Table.ofSnapshot (.headsUp 5) = .ok t₀ ∧
      t₀.run ([.move ⟨0⟩ .call, .turn ⟨1⟩, .move ⟨1⟩ .check] ++ [.round .flop Hand.empty]) = .ok t ∧
      t.playAll [.check] = .ok u ∧ u.nextToAct = some ⟨0⟩ ∧ u.play (.bet 2) = .ok v ∧
      v.playAll [.raise 2] = .ok w ∧ w.street = u.street ∧ w.nextToAct = some ⟨0⟩ :=
    ⟨_, _, _, _, _, rfl, rfl, rfl, rfl, rfl, rfl, rfl, rfl⟩
  obtain ⟨t₀, t, u, v, w, start, ran, played, due, first, rest, same, again⟩ := dealt
  obtain ⟨idle, _, grows⟩ := nobody_acts_twice start ran played
  exact ⟨t₀, t, u, v, w, start, ran, played, due, idle _ due, first, rest, again,
    grows _ _ _ _ _ due first rest same again⟩

end Table

end Holdem
