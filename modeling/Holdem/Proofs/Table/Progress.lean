import Holdem.Proofs.Table.Playing

/-!
# Playing never gets stuck

As long as the chips at the table are far from overflowing, an action is played exactly if it is
allowed. Afterwards either the hand is over, or somebody who can decide is due in a round that is
not over.
-/

set_option autoImplicit false

namespace Holdem

/-- What a move costs lies behind, so the pot of the round stays below the chips of the table. -/
theorem Flat.room_of_permits {f : Flat} {seat : Seat} {m : Move} (mem : seat ∈ f.seats)
    (fits : f.permits seat m = true) (few : f.total < chipLimit) :
    f.staked + f.price seat m < chipLimit := by
  have price := price_le_stack fits
  have stack : seat.stack ≤ f.behind := List.le_sum_of_mem (List.mem_map_of_mem mem)
  unfold total at few
  lia

/-- Where all chips together fit their range, so does the pot. -/
theorem Flat.pot_lt_of_total {f : Flat} (few : f.total < chipLimit) :
    f.carried + f.staked < chipLimit := by
  unfold total at few
  lia

namespace Table

variable {t t' : Table} {f f' : Flat} {a : Action} {p : Player} {seat : Seat}

/-- The hand is over and nobody is due. -/
def IsDone (t : Table) : Prop := t.isHandOver = true ∧ t.nextToAct = none

/-- A street with betting, a round that is not over, and somebody due who can decide. -/
def IsOpen (t : Table) : Prop :=
  t.street.isBetting = true ∧ t.isRoundOver = false ∧
    ∃ p seat, t.nextToAct = some p ∧ t.seat p = .ok seat ∧ seat.isActive = true ∧
      seat.status ≠ .allIn ∧ seat.sitting = true

/-! ## Where an action leads -/

/-- A betting street, a round that is not over and somebody due make a table open. -/
theorem Shows.isOpen (h : t.Shows f) (sound : f.Sound) (betting : f.street.isBetting = true)
    (running : f.isRoundOver = false) (due : f.next = some p) : t.IsOpen := by
  have answers := h.answers sound
  obtain ⟨seat, found, live⟩ := sound.next_actionable p due
  have standing : seat.sitting = true ∧ seat.status = .betting := by
    simpa [Seat.isActionable] using live
  refine ⟨?_, ?_, p, seat, ?_, h.seat_eq found, Seat.isActive_of_isActionable live, ?_,
    standing.1⟩
  · rw [answers.street, betting]
  · rw [answers.isRoundOver, running]
  · rw [answers.nextToAct, due]
  · rw [standing.2]
    decide

/-- A street at whose beginning the loop stops is the showdown, or somebody opens its betting. -/
theorem Shows.done_or_open_of_begin {street : Street} {board : Board}
    (h : t.Shows (f.begin street board)) (sound : (f.begin street board).Sound)
    (running : f.isHandOver = false) (stop : (t.isHandOver || !t.isRoundOver) = true) :
    t.IsDone ∨ t.IsOpen := by
  have answers := h.answers sound
  cases betting : street.isBetting with
  | false =>
    left
    have shown : street = .showdown := by simpa [Street.isBetting] using betting
    refine ⟨?_, ?_⟩
    · rw [answers.isHandOver, shown]
      simp [Flat.isHandOver, Flat.begin]
    · rw [answers.nextToAct]
      show (if street.isBetting then f.opener else none) = none
      rw [betting]
      rfl
  | true =>
    right
    have notOver : (f.begin street board).isHandOver = false := by
      have several : ¬ f.activeCount ≤ 1 := by
        intro few
        simp [Flat.isHandOver, few] at running
      have notShown : street ≠ .showdown := by simpa [Street.isBetting] using betting
      rw [Flat.isHandOver, Flat.activeCount_begin]
      simp [several, Flat.begin, notShown]
    have betOn : (f.begin street board).isRoundOver = false := by
      rw [answers.isHandOver, answers.isRoundOver, notOver] at stop
      simpa using stop
    -- a round with nobody to decide would be over, so somebody is found after the dealer
    have somebody : f.liveCount ≠ 0 := by
      intro nobody
      rw [← Flat.liveCount_begin f street board] at nobody
      simp [Flat.isRoundOver, nobody] at betOn
    obtain ⟨q, opens⟩ := Flat.exists_opener somebody
    have due : (f.begin street board).next = some q := by
      show (if street.isBetting then f.opener else none) = some q
      rw [betting]
      exact opens
    exact h.isOpen sound betting betOn due

/-- Closing a round while nobody is due ends the hand or finds somebody to decide. -/
theorem Shows.done_or_open_of_close (h : t.Shows f) (sound : f.Sound) (idle : f.next = none)
    (ended : f.isRoundOver = true) (closed : t.close = .ok t') : t'.IsDone ∨ t'.IsOpen := by
  obtain ⟨steps, stop⟩ := closings_of_close closed
  -- the last street that begins decides who is due
  rcases steps.cases_tail with same | ⟨u, before, step⟩
  · rw [same] at stop ⊢
    have roundOver : t.isRoundOver = true := (h.answers sound).isRoundOver.trans ended
    have nobody : t.nextToAct = none := (h.answers sound).nextToAct.trans idle
    exact Or.inl ⟨by simpa [roundOver] using stop, nobody⟩
  · obtain ⟨g, shown, sound', _⟩ := h.closings sound before
    obtain ⟨street, _, running, begun, soundBegun⟩ := shown.closing_cases sound' step
    exact begun.done_or_open_of_begin soundBegun running stop

/-- The turn passes on to somebody who can decide. -/
theorem Shows.exists_turn (h : t.Shows f) (sound : f.Sound) (running : f.isRoundOver = false)
    (mem : seat ∈ f.seats) (settled : f.unsettled seat = false) :
    ∃ next t', t.nextAfter seat.player = some next ∧ t.apply (.turn next) = .ok t' := by
  obtain ⟨xs, next, ys, _, _, found, live, after⟩ := Flat.exists_next sound running mem settled
  have passed : f.apply (.turn next.player) = some (f.turnTo next.player) :=
    if_pos (by rw [found]; exact live)
  obtain ⟨t', applied, _⟩ := (h.apply_agrees sound (.turn next.player)).exists_ok passed
  exact ⟨next.player, t', ((h.answers sound).nextAfter seat mem).trans after, applied⟩

/-! ## Refusing an action -/

/-- A table whose pot fits its range can be printed. -/
theorem Shows.text_eq (h : t.Shows f) (sound : f.Sound) (fits : f.carried + f.staked < chipLimit) :
    ∃ text, t.text = .ok text := by
  have pot : t.pot = .ok (f.carried + f.staked) :=
    (h.answers sound).pot.trans (addChips_eq_ok_iff.2 ⟨rfl, fits⟩)
  rw [Table.text, pot, h.seats_eq sound]
  exact ⟨_, rfl⟩

/-- An action that is not allowed is refused by name, with the table printed. -/
theorem play_of_not_allowed {text : String} (due : t.nextToAct = some p)
    (refused : t.isAllowed a = .ok false) (written : t.text = .ok text) :
    t.play a = Outcome.illegal (.notAllowed a p text) := by
  rw [play, due]
  show (t.isAllowed a >>= _) = _
  rw [refused]
  show (t.text >>= _) = _
  rw [written]
  rfl

/-! ## Playing an action -/

/-- An allowed action is played, as long as the amounts stay within their bounds. -/
theorem Shows.exists_play (h : t.Shows f) (sound : f.Sound) (due : f.next = some p)
    (few : f.total < chipLimit) (counted : f.raises + 1 < countLimit)
    (allowed : t.isAllowed a = .ok true) : ∃ t', t.play a = .ok t' := by
  have next : t.nextToAct = some p := (h.answers sound).nextToAct.trans due
  obtain ⟨seat, found, live⟩ := sound.next_actionable p due
  have own : f.due? p = some seat :=
    Flat.due?_eq_some_iff.2 ⟨found, live, by rw [due]; simp [eq_comm]⟩
  have fits := (h.fits_of_isAllowed sound due found allowed).1
  have room := Flat.room_of_permits (Flat.mem_of_seat? found).1 fits few
  obtain ⟨f', applied⟩ := Flat.exists_applyMove own fits room counted
  have kept : f'.total = f.total := Flat.total_apply (e := a.event p) sound applied
  have sound' : f'.Sound := sound.apply (e := a.event p) applied
  obtain ⟨moved, accepted, shown⟩ := (h.apply_agrees sound (a.event p)).exists_ok applied
  have ended : moved.isRoundOver = f'.isRoundOver := (shown.answers sound').isRoundOver
  cases open? : f'.isRoundOver with
  | true =>
    obtain ⟨t', closed⟩ := shown.exists_close sound' (Flat.pot_lt_of_total (kept ▸ few))
    exact ⟨t', play_eq_ok.2 ⟨p, moved, next, allowed, accepted, Or.inl ⟨ended.trans open?, closed⟩⟩⟩
  | false =>
    obtain ⟨_, _, own', mem, rfl, settled⟩ := Flat.settled_applyMove applied
    obtain ⟨q, t', after, passed⟩ := shown.exists_turn sound' open? mem settled
    exact ⟨t', play_eq_ok.2
      ⟨_, moved, next, allowed, accepted, Or.inr ⟨ended.trans open?, q, after, passed⟩⟩⟩

/-- If allowed actions are played, no action finds nobody to answer it: one that is not allowed is
refused before anybody is looked for. -/
theorem Shows.play_ne_noNextActor {b : Bool} (h : t.Shows f) (sound : f.Sound)
    (due : t.nextToAct = some p) (fits : f.carried + f.staked < chipLimit)
    (decision : t.isAllowed a = .ok b) (plays : t.isAllowed a = .ok true → ∃ t', t.play a = .ok t')
    (q : Player) : t.play a ≠ .error (.defect (.noNextActor q)) := by
  cases b with
  | true =>
    obtain ⟨t', played⟩ := plays decision
    rw [played]
    simp
  | false =>
    obtain ⟨text, written⟩ := h.text_eq sound fits
    rw [play_of_not_allowed due decision written]
    simp [Outcome.illegal]

/-- Whatever is played leads to the end of the hand or to somebody who can decide. -/
theorem Shows.done_or_open_of_play (h : t.Shows f) (sound : f.Sound)
    (betting : f.street.isBetting = true) (played : t.play a = .ok t') : t'.IsDone ∨ t'.IsOpen := by
  obtain ⟨p, moved, f', _, _, applied, shown, sound', rest⟩ := h.play_cases sound played
  obtain ⟨idle, street, _⟩ := Flat.settled_applyMove applied
  rcases rest with ⟨ended, closed⟩ | ⟨running, q, _, shows', turned⟩
  · exact shown.done_or_open_of_close sound' idle ended closed
  · have betting' : (f'.turnTo q).street.isBetting = true := by
      show f'.street.isBetting = true
      rw [street, betting]
    exact Or.inr (shows'.isOpen turned betting' running rfl)

/-- Unless the hand is over, somebody is due after a play, on whatever street it was played. -/
theorem Shows.due_of_play (h : t.Shows f) (sound : f.Sound) (played : t.play a = .ok t')
    (running : t'.isHandOver = false) : ∃ p, t'.nextToAct = some p := by
  cases betting : f.street.isBetting with
  | true =>
    rcases h.done_or_open_of_play sound betting played with ⟨ended, _⟩ | ⟨_, _, p, _, due, _⟩
    · rw [running] at ended
      cases ended
    · exact ⟨p, due⟩
  | false =>
    -- after the showdown no street is left, so the round that was closed stays
    have shown : f.street = .showdown := by simpa [Street.isBetting] using betting
    obtain ⟨_, moved, f', _, _, applied, shows', sound', rest⟩ := h.play_cases sound played
    obtain ⟨_, street, _⟩ := Flat.settled_applyMove applied
    rcases rest with ⟨_, closed⟩ | ⟨_, q, _, turned, soundTurn⟩
    · obtain ⟨g, shownG, soundG, _, _, ends⟩ :=
        shows'.closings sound' (closings_of_close closed).1
      have ended : g.street = .showdown := by
        rcases ends with rfl | less
        · exact street.trans shown
        · rw [street, shown] at less
          exact absurd less (Nat.not_lt_zero _)
      rw [(shownG.answers soundG).isHandOver, Flat.isHandOver, ended] at running
      simp at running
    · exact ⟨q, (turned.answers soundTurn).nextToAct⟩

/-- Amounts of chips have 32 bits. -/
theorem chipLimit_eq : chipLimit = 2 ^ 32 := rfl

/-- Counters have 64 bits. -/
theorem countLimit_eq : countLimit = 2 ^ 64 := rfl

/-- For every table of a run from an accepted snapshot at which somebody is due in a betting round,
with few enough chips and raises, and every action of a modest amount: it is decided whether the
action is allowed; it is played exactly if it is; no player is ever missing to answer it; and after
it the hand is over with nobody due, or somebody who can decide is due in a round that is not
over. -/
theorem play_progress {s : Snapshot} {t₀ t : Table} {events : List Event} {p : Player} {a : Action}
    (start : Table.ofSnapshot s = .ok t₀) (ran : t₀.run events = .ok t)
    (due : t.nextToAct = some p) (betting : t.street.isBetting = true)
    (few : t.previousPot + t.roundPot + t.chipsBehind < 2 ^ 31) (counted : s.raises < 2 ^ 63)
    (modest : a.amount < 2 ^ 31) :
    (∃ b, t.isAllowed a = .ok b) ∧
      ((∃ t', t.play a = .ok t') ↔ t.isAllowed a = .ok true) ∧
      (∀ q, t.play a ≠ .error (.defect (.noNextActor q))) ∧
      ∀ t', t.play a = .ok t' → t'.IsDone ∨ t'.IsOpen := by
  obtain ⟨shows₀, sound₀⟩ := ofSnapshot_shows start
  obtain ⟨f, flatRan, h, sound⟩ := (shows₀.run_agrees sound₀ events).exists_some ran
  have answers := h.answers sound
  have next : f.next = some p := answers.nextToAct.symm.trans due
  have chips : f.total < 2 ^ 31 := by
    rw [answers.previousPot, answers.roundPot, answers.chipsBehind_eq] at few
    exact few
  have largest : t.largestBet ≤ f.staked := answers.largestBet ▸ sound.largest_le
  -- every raise since the start brought a chip, so there are at most as many as chips
  have raises : f.raises < 2 ^ 63 + 2 ^ 31 := by
    have before : (Flat.ofSnapshot s).raises < 2 ^ 63 := counted
    have grown := Flat.raises_run sound₀ flatRan
    unfold Flat.total at chips
    lia
  have decided : ∃ b, t.isAllowed a = .ok b := by
    apply exists_isAllowed
    unfold Flat.total at chips
    rw [chipLimit_eq]
    lia
  have plays : t.isAllowed a = .ok true → ∃ t', t.play a = .ok t' := by
    apply h.exists_play sound next
    · rw [chipLimit_eq]
      lia
    · rw [countLimit_eq]
      lia
  refine ⟨decided, ⟨?_, plays⟩, ?_, ?_⟩
  · rintro ⟨t', played⟩
    obtain ⟨_, _, _, allowed, _⟩ := play_eq_ok.1 played
    exact allowed
  · obtain ⟨b, decision⟩ := decided
    have fits : f.carried + f.staked < chipLimit := by
      unfold Flat.total at chips
      rw [chipLimit_eq]
      lia
    exact h.play_ne_noNextActor sound due fits decision plays
  · intro t' played
    have betting' : f.street.isBetting = true := answers.street ▸ betting
    exact h.done_or_open_of_play sound betting' played

/-- A call before the flop, after which the second player is due. -/
theorem play_progress_headsUp : ∃ t₀ t', Table.ofSnapshot (.headsUp 5) = .ok t₀ ∧
    t₀.play (.call 1) = .ok t' ∧ (t'.IsDone ∨ t'.IsOpen) := by
  have dealt : ∃ t₀ t', Table.ofSnapshot (.headsUp 5) = .ok t₀ ∧ t₀.run [] = .ok t₀ ∧
      t₀.nextToAct = some ⟨0⟩ ∧ t₀.street.isBetting = true ∧
      t₀.previousPot + t₀.roundPot + t₀.chipsBehind < 2 ^ 31 ∧ t₀.play (.call 1) = .ok t' :=
    ⟨_, _, rfl, rfl, rfl, rfl, by decide, rfl⟩
  obtain ⟨t₀, t', start, ran, due, betting, few, played⟩ := dealt
  obtain ⟨_, _, _, leads⟩ :=
    play_progress start ran due betting few (by decide) (a := .call 1) (by decide)
  exact ⟨t₀, t', start, played, leads t' played⟩

end Table

end Holdem
