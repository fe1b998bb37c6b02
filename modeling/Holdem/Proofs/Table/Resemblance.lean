import Holdem.Proofs.Ledger.Rotation
import Holdem.Proofs.Table.InStep
import Holdem.Proofs.Table.Simulation

/-!
# Tables that resemble each other

Two tables resemble each other if their seats look the same, though one may list them from another
seat on and the two may differ in hole cards that are not looked at: at most those of players who
have nothing left to decide. The betting stands alike at such tables, and they resemble each other
again after any event; so they stay in step.
-/

set_option autoImplicit false

namespace Holdem

namespace Seat

variable {v : Seat → Seat} {s s' : Seat}

/-- A way to look at seats. It shows everything but hole cards, and the hole cards of everybody who
can still make decisions. -/
structure View (v : Seat → Seat) : Prop where
  bare : ∀ s, ∃ hole, v s = { s with hole }
  actionable : ∀ s, s.isActionable = true → v s = s
  clearStake : ∀ s, v s.clearStake = (v s).clearStake

/-- Looking at the whole seat is a view. -/
theorem view_id : View id := ⟨fun s => ⟨s.hole, rfl⟩, fun _ _ => rfl, fun _ => rfl⟩

/-- A view shows the player. -/
theorem View.player (view : View v) (s : Seat) : (v s).player = s.player := by
  obtain ⟨hole, look⟩ := view.bare s
  rw [look]

/-- A view shows the stack. -/
theorem View.stack (view : View v) (s : Seat) : (v s).stack = s.stack := by
  obtain ⟨hole, look⟩ := view.bare s
  rw [look]

/-- A view shows the stake. -/
theorem View.stake (view : View v) (s : Seat) : (v s).stake = s.stake := by
  obtain ⟨hole, look⟩ := view.bare s
  rw [look]

/-- A view shows the status. -/
theorem View.status (view : View v) (s : Seat) : (v s).status = s.status := by
  obtain ⟨hole, look⟩ := view.bare s
  rw [look]

/-- A view shows whether the player competes. -/
theorem View.isActive (view : View v) (s : Seat) : (v s).isActive = s.isActive := by
  obtain ⟨hole, look⟩ := view.bare s
  rw [look]
  rfl

/-- A view shows whether the player can act. -/
theorem View.isActionable (view : View v) (s : Seat) : (v s).isActionable = s.isActionable := by
  obtain ⟨hole, look⟩ := view.bare s
  rw [look]
  rfl

/-- Seats that look the same are the same if their player can make decisions. -/
theorem View.eq_of_actionable (view : View v) (same : v s' = v s) (live : s.isActionable = true) :
    s' = s := by
  have live' : s'.isActionable = true := by
    rw [← view.isActionable s', same, view.isActionable, live]
  rw [← view.actionable s' live', same, view.actionable s live]

/-- A player's seat is found among the viewed seats exactly as among the seats. -/
theorem View.seatAmong (view : View v) (p : Player) (seats : List Seat) :
    Table.seatAmong p (seats.map v) = (Table.seatAmong p seats).map v := by
  rw [Table.seatAmong, Table.seatAmong, List.find?_map]
  congr 2
  funext s
  exact congrArg (· == p) (view.player s)

/-- The players of the viewed seats are those of the seats. -/
theorem View.map_player (view : View v) (seats : List Seat) :
    (seats.map v).map Seat.player = seats.map Seat.player := by
  rw [List.map_map]
  exact List.map_congr_left (fun s _ => view.player s)

end Seat

/-! ## Snapshots with other seats -/

namespace Snapshot

variable {v : Seat → Seat} {n : Nat} {s : Snapshot} {seats : List Seat}

/-- The snapshot with other seats. -/
def reseat (s : Snapshot) (seats : List Seat) : Snapshot := { s with seats }

/-- The largest stakes do not depend on the order of the seats. -/
theorem topStakes_reseat (view : Seat.View v) (perm : (seats.map v).Perm (s.seats.map v)) :
    (s.reseat seats).topStakes = s.topStakes := by
  have commutes : RightCommutative (fun (top : Nat × Nat) (stake : Nat) =>
      if top.1 < stake then (stake, top.1)
      else if top.2 < stake then (top.1, stake) else (top.1, top.2)) := by
    refine ⟨fun top a b => ?_⟩
    obtain ⟨most, second⟩ := top
    dsimp only
    split_ifs <;> simp <;> omega
  have stakes : ∀ l : List Seat, (l.filter Seat.isActive).map Seat.stake =
      ((l.map v).filter Seat.isActive).map Seat.stake := by
    intro l
    have same : Seat.isActive ∘ v = Seat.isActive := funext view.isActive
    rw [List.filter_map, List.map_map, same]
    exact List.map_congr_left (fun s _ => (view.stake s).symm)
  have moved : ((seats.filter Seat.isActive).map Seat.stake).Perm
      ((s.seats.filter Seat.isActive).map Seat.stake) := by
    rw [stakes, stakes s.seats]
    exact (perm.filter _).map _
  exact moved.foldl_eq (0, 0)

/-- Seats that look like a rearrangement of others hold the same stakes together. -/
theorem sum_stake_reseat (view : Seat.View v) (perm : (seats.map v).Perm (s.seats.map v)) :
    (seats.map Seat.stake).sum = (s.seats.map Seat.stake).sum := by
  have stakes : ∀ l : List Seat, l.map Seat.stake = (l.map v).map Seat.stake := by
    intro l
    rw [List.map_map]
    exact List.map_congr_left (fun s _ => (view.stake s).symm)
  rw [stakes, stakes s.seats]
  exact (perm.map _).sum_eq

end Snapshot

namespace Table

variable {v : Seat → Seat} {n : Nat} {t u : Table}

/-- A table that shows a flat table whose invariant holds. -/
def IsSound (t : Table) : Prop := ∃ f, t.Shows f ∧ f.Sound

/-- Soundness is kept by every accepted event. -/
theorem IsSound.apply (sound : t.IsSound) {e : Event} {t' : Table} (applied : t.apply e = .ok t') :
    t'.IsSound := by
  obtain ⟨f, shown, sound⟩ := sound
  obtain ⟨f', moved, shown'⟩ := (shown.apply_agrees sound e).exists_some applied
  exact ⟨f', shown', sound.apply moved⟩

/-- A sound table has one row for each player. -/
theorem IsSound.distinct (sound : t.IsSound) : (t.ledger.rows.map Row.player).Nodup := by
  obtain ⟨f, shown, sound⟩ := sound
  rw [shown.ledger, Flat.ledger, List.map_map]
  exact sound.distinct

/-- The seats of the second table look like those of the first, listed from another one on. -/
structure Looks (v : Seat → Seat) (n : Nat) (t u : Table) : Prop where
  ledger : u.ledger = t.ledger.turned n
  walk : ∀ p, (seatAlong p u.seated u.links).map v = (seatAlong p t.seated t.links).map v
  dealer : u.dealer = t.dealer
  bigBlind : u.bigBlind = t.bigBlind

/-- Sound tables that look alike, the seats of one listed from another on. -/
structure Resembles (v : Seat → Seat) (n : Nat) (t u : Table) : Prop extends Looks v n t u where
  sound : t.IsSound
  sound' : u.IsSound

/-- The same link on both chains. -/
theorem Looks.extend (h : Looks v n t u) (e : Event) (change : Change) (ledger : Ledger) :
    Looks v n (t.extend e change ledger) (u.extend e change (ledger.turned n)) where
  ledger := rfl
  walk := by
    intro p
    show (seatAlong p u.seated (⟨e, change, _⟩ :: u.links)).map v =
      (seatAlong p t.seated (⟨e, change, ledger⟩ :: t.links)).map v
    cases change with
    | none => exact h.walk p
    | one seat =>
      simp only [seatAlong]
      split
      · rfl
      · exact h.walk p
    | all seats => rfl
  dealer := h.dealer
  bigBlind := h.bigBlind

namespace Resembles

/-! ## Seats -/

/-- Both tables seat a player, and the seats look the same, or neither does. -/
theorem seat_cases (h : Resembles v n t u) (p : Player) :
    (∃ e, t.seat p = .error e ∧ u.seat p = .error e) ∨
      ∃ s s', t.seat p = .ok s ∧ u.seat p = .ok s' ∧ v s' = v s := by
  have walk := h.walk p
  rw [Table.seat, Table.seat]
  cases found : seatAlong p t.seated t.links with
  | none =>
    rw [found] at walk
    rw [Option.map_eq_none_iff.1 walk]
    exact Or.inl ⟨_, rfl, rfl⟩
  | some s =>
    rw [found] at walk
    obtain ⟨s', found', same⟩ := Option.map_eq_some_iff.1 walk
    rw [found']
    exact Or.inr ⟨s, s', rfl, rfl, same⟩

/-- The seats of both tables, listed clockwise. -/
theorem seats_turned (h : Resembles v n t u) : ∃ l m, t.seats = .ok l ∧ u.seats = .ok m ∧
    m.map v = (l.map v).rotate n ∧ (l.map Seat.player).Nodup := by
  obtain ⟨f, shown, sound⟩ := h.sound
  obtain ⟨g, shown', sound'⟩ := h.sound'
  refine ⟨f.seats, g.seats, shown.seats_eq sound, shown'.seats_eq sound', ?_, sound.distinct⟩
  have players : g.seats.map Seat.player = (f.seats.map Seat.player).rotate n := by
    have rows : g.ledger.rows = f.ledger.rows.rotate n := by
      rw [← shown'.ledger, h.ledger, shown.ledger]
      rfl
    simpa [Flat.ledger, List.map_rotate, Function.comp_def, Flat.row] using
      congrArg (List.map Row.player) rows
  have walk : ∀ p, (g.seat? p).map v = (f.seat? p).map v := by
    intro p
    rw [← shown.walk, ← shown'.walk, h.walk]
  -- at either table a seat is found by its player, so its look depends on the player alone
  have looks : ∀ k : Flat, k.Sound → (k.seats.map v).map some =
      (k.seats.map Seat.player).map (fun p => (k.seat? p).map v) := by
    intro k sound
    rw [List.map_map, List.map_map]
    refine List.map_congr_left (fun s mem => ?_)
    simp [Flat.seat?_of_mem sound.distinct mem]
  apply List.map_injective_iff.2 (Option.some_injective _)
  rw [looks g sound', players, List.map_rotate, List.map_rotate, looks f sound]
  simp only [walk]

/-! ## Answers -/

/-- Tables that resemble each other wait for the same player. -/
theorem nextToAct (h : Resembles v n t u) : u.nextToAct = t.nextToAct := by
  rw [Table.nextToAct, h.ledger]
  rfl

/-- Tables that resemble each other are on the same street. -/
theorem street (h : Resembles v n t u) : u.street = t.street := by
  rw [Table.street, h.ledger]
  rfl

/-- Tables that resemble each other have the same board. -/
theorem board (h : Resembles v n t u) : u.board = t.board := by
  rw [Table.board, h.ledger]
  rfl

/-- Tables that resemble each other carry the same pot from earlier rounds. -/
theorem previousPot (h : Resembles v n t u) : u.previousPot = t.previousPot := by
  rw [Table.previousPot, h.ledger]
  rfl

/-- Tables that resemble each other have the same pot in the round. -/
theorem roundPot (h : Resembles v n t u) : u.roundPot = t.roundPot := by
  rw [Table.roundPot, h.ledger]
  rfl

/-- Tables that resemble each other have the same pot. -/
theorem pot (h : Resembles v n t u) : u.pot = t.pot := by
  rw [Table.pot, h.previousPot, h.roundPot]
  rfl

/-- Tables that resemble each other have the same largest bet. -/
theorem largestBet (h : Resembles v n t u) : u.largestBet = t.largestBet := by
  rw [Table.largestBet, h.ledger]
  rfl

/-- Tables that resemble each other have the same minimum raise. -/
theorem minRaise (h : Resembles v n t u) : u.minRaise = t.minRaise := by
  rw [Table.minRaise, h.ledger]
  rfl

/-- Tables that resemble each other have the same least amount to bet or raise to. -/
theorem minimum (h : Resembles v n t u) : u.minimum = t.minimum := by
  rw [Table.minimum, h.minRaise]
  rfl

/-- Tables that resemble each other have seen the same number of raises. -/
theorem raises (h : Resembles v n t u) : u.raises = t.raises := by
  rw [Table.raises, h.ledger]
  rfl

/-- Tables that resemble each other have the same row for each player. -/
theorem row? (h : Resembles v n t u) (p : Player) : u.ledger.row? p = t.ledger.row? p := by
  rw [h.ledger, Ledger.row?_turned h.sound.distinct]

/-- Tables that resemble each other have the same deficits. -/
theorem deficit (h : Resembles v n t u) : u.deficit = t.deficit := by
  funext p
  rw [Table.deficit, h.ledger, Ledger.deficit_turned h.sound.distinct]
  rfl

/-- Tables that resemble each other have the same order of play. -/
theorem nextAfter (h : Resembles v n t u) : u.nextAfter = t.nextAfter := by
  funext p
  rw [Table.nextAfter, h.ledger, Ledger.nextAfter_turned h.sound.distinct]
  rfl

/-- Whoever is due can make decisions, so nothing of the seat is hidden. -/
theorem actor (view : Seat.View v) (h : Resembles v n t u) : u.actor = t.actor := by
  rw [Table.actor, Table.actor, h.nextToAct]
  cases due : t.nextToAct with
  | none => rfl
  | some p =>
    obtain ⟨f, shown, sound⟩ := h.sound
    have next : f.next = some p := by rw [← due, Table.nextToAct, shown.ledger, Flat.ledger]
    obtain ⟨seat, seated, live⟩ := sound.next_actionable p next
    show u.seat p = t.seat p
    rcases h.seat_cases p with ⟨e, missing, missing'⟩ | ⟨s, s', found, found', looks⟩
    · rw [missing, missing']
    · obtain rfl := Except.ok.inj (found.symm.trans (shown.seat_eq seated))
      rw [found, found', view.eq_of_actionable looks live]

/-- Tables that resemble each other ask for the same amount to call. -/
theorem toCall (h : Resembles v n t u) : u.toCall = t.toCall := by
  rw [Table.toCall, h.nextToAct, h.deficit]
  rfl

/-- Tables that resemble each other leave the same room to raise. -/
theorem mayRaise (view : Seat.View v) (h : Resembles v n t u) : u.mayRaise = t.mayRaise := by
  have same : u.mayRaiseFrom = t.mayRaiseFrom := by
    funext s
    rw [mayRaiseFrom, h.deficit, h.nextAfter]
    rfl
  rw [Table.mayRaise, actor?, h.actor view, same]
  rfl

/-- The betting stands alike at tables that resemble each other. -/
theorem sameBetting (view : Seat.View v) (h : Resembles v n t u) : t.SameBetting u where
  dealer := h.dealer
  bigBlind := h.bigBlind
  street := h.street
  board := h.board
  previousPot := h.previousPot
  roundPot := h.roundPot
  pot := h.pot
  largestBet := h.largestBet
  minRaise := h.minRaise
  raises := h.raises
  nextToAct := h.nextToAct
  lastBettor := by rw [lastBettor, h.ledger]; rfl
  activeCount := by rw [activeCount, h.ledger, Ledger.activeCount_turned]; rfl
  actionableCount := by rw [actionableCount, h.ledger, Ledger.liveCount_turned]; rfl
  deficit := h.deficit
  stake := by funext p; rw [stake, h.row?]; rfl
  isActive := by funext p; rw [isActive, h.row?]; rfl
  isActionable := by funext p; rw [isActionable, h.row?]; rfl
  hasActed := by funext p; rw [hasActed, h.row?]; rfl
  nextAfter := h.nextAfter
  isRoundOver := by rw [isRoundOver, h.ledger, Ledger.isRoundOver_turned]; rfl
  isHandOver := by rw [isHandOver, h.ledger, Ledger.isHandOver_turned]; rfl
  actor := h.actor view
  toCall := h.toCall
  mayRaise := h.mayRaise view
  passive := by rw [passive, h.toCall]; rfl
  legal := by
    rw [legal, actor?, h.actor view, h.deficit, h.mayRaise view, h.largestBet, h.minimum]
    rfl
  isAllowed := by
    funext a
    rw [isAllowed, actor?, h.actor view, h.deficit, h.mayRaise view, h.largestBet, h.minimum]
    rfl
  candidates := by
    intro sizing
    rw [Sizing.candidates, actor?, h.actor view, h.deficit, h.mayRaise view, h.raises, h.pot,
      h.minimum, h.largestBet]
    rfl

/-! ## Events -/

/-- Tables that resemble each other refuse an event out of place with the same words. -/
theorem outOfPlace (h : Resembles v n t u) (e : Event) :
    Outcome.Matches (Looks v n) (t.outOfPlace e) (u.outOfPlace e) := by
  rw [Table.outOfPlace, Table.outOfPlace, h.pot, h.street]
  cases t.pot <;> rfl

/-- Tables that resemble each other ask the same of a player who would move. -/
theorem due (view : Seat.View v) (h : Resembles v n t u) (p : Player) : u.due p = t.due p := by
  rw [Table.due, Table.due, h.nextToAct]
  rcases h.seat_cases p with ⟨e, missing, missing'⟩ | ⟨s, s', found, found', looks⟩
  · rw [missing, missing']
  · rw [found, found']
    by_cases live : s.isActionable = true
    · rw [view.eq_of_actionable looks live]
    · -- the seats may differ, but only in what the refusal does not mention
      have idle : s.isActionable = false := by simpa using live
      have idle' : s'.isActionable = false := by
        rw [← view.isActionable s', looks, view.isActionable, idle]
      have status : s'.status = s.status := by rw [← view.status s', looks, view.status]
      cases t.nextToAct with
      | none => simp [idle, idle', status, Outcome.illegal, bind, Except.bind]
      | some q =>
        by_cases own : q = p
        · simp [own, idle, idle', status, Outcome.illegal, bind, Except.bind]
        · simp [own, Outcome.illegal, bind, Except.bind]

/-- What is refused at one table is refused at the other for the same reason. -/
theorem guarded (h : Resembles v n t u) (e : Event) {guard : Prop} [Decidable guard]
    {x y : Outcome Table} (accepted : Outcome.Matches (Looks v n) x y) :
    Outcome.Matches (Looks v n) (if guard then t.outOfPlace e else x)
      (if guard then u.outOfPlace e else y) := by
  by_cases refused : guard
  · rw [if_pos refused, if_pos refused]
    exact h.outOfPlace e
  · rwa [if_neg refused, if_neg refused]

/-- A wager leads from tables that resemble each other to tables that look alike. -/
theorem wager (h : Resembles v n t u) (e : Event) (seat : Seat) (k : Chips) :
    Outcome.Matches (Looks v n) (t.wager e seat k) (u.wager e seat k) := by
  rw [Table.wager, Table.wager, h.ledger, Ledger.wager_turned]
  cases t.ledger.wager seat k with
  | error _ => rfl
  | ok after => exact h.extend e (.one after.2) after.1

/-- A move leads from tables that resemble each other to tables that look alike. -/
theorem applyMove (view : Seat.View v) (h : Resembles v n t u) (p : Player) (m : Move) :
    Outcome.Matches (Looks v n) (t.applyMove p m) (u.applyMove p m) := by
  rw [Table.applyMove, Table.applyMove, h.due view, h.deficit, h.largestBet, h.minRaise]
  refine (Outcome.matches_refl (fun _ => rfl) _).bind ?_
  rintro seat _ rfl
  cases m with
  | check =>
    rw [h.ledger, Ledger.closeTurn_turned]
    exact h.guarded _ (h.extend _ .none _)
  | call => exact h.wager _ seat _
  | bet k => exact h.guarded _ (h.wager _ seat k)
  | raise k =>
    refine (Outcome.matches_refl (fun _ => rfl) _).bind ?_
    rintro sum _ rfl
    exact h.guarded _ (h.wager _ seat sum)
  | allIn => exact h.guarded _ (h.wager _ seat _)
  | fold =>
    rw [h.ledger, Ledger.fold_turned]
    exact h.extend _ (.one seat.fold) _

/-- Passing the turn leads from tables that resemble each other to tables that look alike. -/
theorem applyTurn (h : Resembles v n t u) (p : Player) :
    Outcome.Matches (Looks v n) (t.applyTurn p) (u.applyTurn p) := by
  rw [Table.applyTurn, Table.applyTurn, h.row?, h.ledger]
  cases t.ledger.row? p with
  | none => rfl
  | some row =>
    by_cases live : row.live = true
    · simp only [if_pos live]
      exact h.extend (.turn p) .none { t.ledger with next := some p }
    · simp only [if_neg live]
      exact h.outOfPlace (.turn p)

/-- The seats at the start of a street look alike if they did before it. -/
theorem clearStakes (view : Seat.View v) {l m : List Seat} (turned : m.map v = (l.map v).rotate n)
    (distinct : (l.map Seat.player).Nodup) (p : Player) :
    (seatAmong p (m.map Seat.clearStake)).map v = (seatAmong p (l.map Seat.clearStake)).map v := by
  have look : ∀ seats : List Seat,
      (seats.map Seat.clearStake).map v = (seats.map v).map Seat.clearStake := by
    intro seats
    simp only [List.map_map]
    exact List.map_congr_left (fun s _ => view.clearStake s)
  have perm : ((l.map v).map Seat.clearStake).Perm ((m.map v).map Seat.clearStake) := by
    rw [turned]
    exact ((List.rotate_perm _ _).symm).map _
  have apart : (((l.map v).map Seat.clearStake).map Seat.player).Nodup := by
    rw [List.map_map]
    exact (view.map_player l).symm ▸ distinct
  rw [← view.seatAmong, ← view.seatAmong, look, look]
  exact find?_key_perm perm apart p

/-- A new round leads from tables that resemble each other to tables that look alike. -/
theorem applyRound (view : Seat.View v) (h : Resembles v n t u) (street : Street) (cards : Hand) :
    Outcome.Matches (Looks v n) (t.applyRound street cards) (u.applyRound street cards) := by
  obtain ⟨l, m, seats, seats', turned, distinct⟩ := h.seats_turned
  rw [Table.applyRound, Table.applyRound, h.street, h.board, seats, seats', h.dealer, h.bigBlind]
  refine h.guarded _ ?_
  cases t.board.reveal cards with
  | error cause => rfl
  | ok board =>
    refine h.guarded _ ?_
    show Outcome.Matches (Looks v n) (t.ledger.newRound street board t.dealer t.bigBlind >>= _)
      (u.ledger.newRound street board t.dealer t.bigBlind >>= _)
    rw [h.ledger, Ledger.newRound_turned h.sound.distinct]
    cases t.ledger.newRound street board t.dealer t.bigBlind with
    | error _ => rfl
    | ok ledger =>
      exact ⟨rfl, clearStakes view turned distinct, h.dealer, h.bigBlind⟩

/-- One event at tables that resemble each other. -/
theorem apply (view : Seat.View v) (h : Resembles v n t u) (e : Event) :
    Outcome.Matches (Resembles v n) (t.apply e) (u.apply e) := by
  have looks : Outcome.Matches (Looks v n) (t.apply e) (u.apply e) := by
    cases e with
    | move p m => exact h.applyMove view p m
    | turn p => exact h.applyTurn p
    | round street cards => exact h.applyRound view street cards
  refine Outcome.concurs_eq_iff.1 ((Outcome.concurs_eq_iff.2 looks).mono (fun _ _ _ _ => id) ?_)
  exact fun t' u' applied applied' looks => ⟨looks, h.sound.apply applied, h.sound'.apply applied'⟩

/-! ## The start -/

/-- Snapshots whose seats look the same but for where they begin start tables that resemble each
other. -/
theorem ofSnapshot (view : Seat.View v) {s : Snapshot} {seats : List Seat}
    (looks : seats.map v = (s.seats.map v).rotate n) (start : Table.ofSnapshot s = .ok t)
    (start' : Table.ofSnapshot (s.reseat seats) = .ok u) : Resembles v n t u := by
  obtain ⟨shown, sound⟩ := ofSnapshot_shows start
  obtain ⟨shown', sound'⟩ := ofSnapshot_shows start'
  have perm : (seats.map v).Perm (s.seats.map v) := looks ▸ List.rotate_perm _ _
  have rows : seats.map (Flat.ofSnapshot s).row =
      (s.seats.map (Flat.ofSnapshot s).row).rotate n := by
    have same : (Flat.ofSnapshot s).row ∘ v = (Flat.ofSnapshot s).row := by
      funext seat
      simp [Flat.row, view.player, view.stake, view.isActive, view.isActionable]
    rw [← same, ← List.map_map, ← List.map_map, looks, List.map_rotate]
  refine ⟨⟨?_, ?_, ?_, ?_⟩, ⟨_, shown, sound⟩, ⟨_, shown', sound'⟩⟩
  · have stakes := Snapshot.topStakes_reseat view perm
    have round : (Flat.ofSnapshot (s.reseat seats)).staked = (Flat.ofSnapshot s).staked :=
      Snapshot.sum_stake_reseat view perm
    rw [shown'.ledger, shown.ledger, Flat.ledger, round]
    show ({
      street := s.street
      board := s.board
      carried := s.pot
      round := (Flat.ofSnapshot s).staked
      largest := (s.reseat seats).topStakes.1
      minRaise := s.minRaise.getD
        (max ((s.reseat seats).topStakes.1 - (s.reseat seats).topStakes.2) s.bigBlind)
      raises := s.raises
      next := s.next
      bettor := s.bettor
      rows := seats.map (Flat.ofSnapshot s).row } : Ledger) = _
    rw [stakes, rows]
    rfl
  · intro p
    rw [shown'.walk, shown.walk]
    show (seatAmong p seats).map v = (seatAmong p s.seats).map v
    rw [← view.seatAmong, ← view.seatAmong]
    have distinct : ((s.seats.map v).map Seat.player).Nodup :=
      view.map_player s.seats ▸ sound.distinct
    exact find?_key_perm perm.symm distinct p
  · exact shown'.dealer.trans shown.dealer.symm
  · exact shown'.bigBlind.trans shown.bigBlind.symm

/-- Tables that resemble each other stay in step. -/
theorem inStep (view : Seat.View v) (n : Nat) : InStep Failure.Reworded (Resembles v n) where
  refl := .same
  quoted := by
    intro t u h
    obtain ⟨l, m, seats, seats', _⟩ := h.seats_turned
    rw [Table.text, Table.text, h.pot, seats, seats']
    cases t.pot with
    | error e => exact .same e
    | ok pot => exact fun a p => .notAllowed a p _ _
  turns := fun _ _ h => (h.sameBetting view).toSameTurns
  event := fun _ _ e h => (Outcome.concurs_eq_iff.2 (h.apply view e)).mono
    (fun e _ _ _ same => same ▸ .same e) (fun _ _ _ _ => id)

end Resembles

end Table

end Holdem
