import Holdem.Proofs.Search.Children
import Holdem.Proofs.Search.Expansion
import Holdem.Proofs.Table.Termination

/-!
# The nodes of a search

Every node that a search comes to is at a table that play leads to from its root. At each of its
choices somebody is due, and every play uses up some of the actions that can still be played: so the
bound on the choices above one another is never reached. Expanding a node ends well, or in something
that goes wrong at one of these tables.
-/

set_option autoImplicit false

namespace Holdem

/-! ## Where a search comes -/

/-- The table shows a flat table at which a player has a seat and no card is in two places. -/
structure Table.Hosts (t : Table) (p : Player) (f : Flat) : Prop where
  shows : t.Shows f
  sound : f.Sound
  apart : NoCardTwice f.board (f.seats.filterMap Seat.hole)
  seated : ∃ seat, f.seat? p = some seat

namespace Table

variable {t u : Table} {p : Player} {f : Flat}

/-- Play keeps what a search relies on, and all chips. -/
theorem Hosts.leadsTo (host : t.Hosts p f) (leads : t.LeadsTo u) :
    ∃ g, u.Hosts p g ∧ g.total = f.total := by
  obtain ⟨events, g, ran, blind, shown, sound⟩ := host.shows.leadsTo host.sound leads
  obtain ⟨seat, found⟩ := host.seated
  obtain ⟨seat', found', _⟩ := (Flat.seatsFollow_run host.sound ran).exists_seat?_after found
  have apart := Flat.noCardTwice_of_blind host.sound host.apart ran blind
  exact ⟨g, ⟨shown, sound, apart, seat', found'⟩, Flat.total_run host.sound ran⟩

/-- A played table hosts the player who is due. -/
theorem Played.hosts (played : t.Played) (due : t.nextToAct = some p) : ∃ f, t.Hosts p f := by
  obtain ⟨s, t₀, actions, start, reached⟩ := played
  obtain ⟨f, shown, sound, apart⟩ := exists_shows_of_playAll start reached
  obtain ⟨seat, found, _⟩ := sound.next_actionable p ((shown.answers sound).nextToAct ▸ due)
  exact ⟨f, shown, sound, apart, seat, found⟩

end Table

section

variable {σ α : Type}

namespace Node

/-- A node that a search from a table comes to, before it is expanded: play leads to its table,
fewer than `depth` actions can be played from it, and at a choice somebody is due. -/
structure Ready (ctx : Context σ α) (t : Table) (budget depth : Nat) (n : Node α) : Prop where
  value : n.value = none
  children : n.children = []
  leads : t.LeadsTo n.table
  weight : ∃ f, n.table.Shows f ∧ f.Sound ∧ f.weight < depth
  choice : ∀ c children, n = .choice c children → c.tokens ≤ budget ∧
    ∃ p, c.table.nextToAct = some p ∧ (c.turn = .decision ↔ p = ctx.bot)

variable {ctx : Context σ α} {t : Table} {budget depth : Nat}

/-- A table is no leaf if the player competes with somebody in a hand that goes on, and there are
tokens left. -/
theorem endingAt_eq_none_iff {bot : Player} {tokens : Nat} : endingAt bot t tokens = none ↔
    t.isActive bot = true ∧ 1 < t.activeCount ∧ t.isHandOver = false ∧ tokens ≠ 0 := by
  unfold endingAt
  split_ifs <;> simp_all

/-- The turn is a decision exactly when the player who is due is the bot. -/
theorem turn_eq_decision_iff {bot p : Player} (due : t.nextToAct = some p) :
    (if t.nextToAct = some bot then Turn.decision else .chance) = .decision ↔ p = bot := by
  simp only [due, Option.some.injEq]
  split <;> simp [*]

/-- The node of a table that an action leads to from a choice. -/
theorem Ready.child {c : Choice α} {children : List (Child α)}
    (ready : Ready ctx t budget (depth + 1) (.choice c children)) {a : Action} {u : Table}
    (played : c.table.play a = .ok u) {tokens : Nat} (fits : tokens ≤ c.tokens) (seed : UInt64) :
    Ready ctx t budget depth (ofTable ctx.bot u tokens seed) := by
  obtain ⟨f, shown, sound, less⟩ := ready.weight
  obtain ⟨f', shown', sound', lower⟩ := shown.weight_play_lt sound played
  have leads : t.LeadsTo u := ready.leads.play played
  have weight : ∃ f, u.Shows f ∧ f.Sound ∧ f.weight < depth :=
    ⟨f', shown', sound', by lia⟩
  unfold ofTable
  cases ends : endingAt ctx.bot u tokens with
  | some ending => exact ⟨rfl, rfl, leads, weight, by rintro c' children' ⟨⟩⟩
  | none =>
    refine ⟨rfl, rfl, leads, weight, ?_⟩
    rintro c' children' ⟨⟩
    have running := (endingAt_eq_none_iff.1 ends).2.2.1
    obtain ⟨p, due⟩ := shown.due_of_play sound played running
    exact ⟨fits.trans (ready.choice c _ rfl).1, p, due, turn_eq_decision_iff due⟩

/-- The root of a search is ready to be expanded where the bot is due. -/
theorem ready_root {p : Player} {f : Flat} (host : t.Hosts p f) (due : t.nextToAct = some ctx.bot)
    (seed : UInt64) : Ready ctx t budget (t.playsLeft + 1) (root t budget seed) where
  value := rfl
  children := rfl
  leads := .refl t
  weight := ⟨f, host.shows, host.sound,
    Nat.lt_succ_of_lt (host.shows.weight_lt_playsLeft host.sound)⟩
  choice := by
    rintro c children ⟨⟩
    exact ⟨Nat.le_refl _, ctx.bot, due, by simp⟩

end Node

end

variable {σ α : Type} [Scalar α]

/-- A choice with children has a value. -/
theorem Choice.exists_combine {Q : Node α → α → Node α → Prop} {c : Choice α}
    {fresh grown : List (Child α)} {values : List α} (some : fresh ≠ [])
    (grows : Node.Grown Q fresh values grown) : ∃ value, c.combine grown values = .ok value := by
  unfold combine
  cases c.turn with
  | chance => exact ⟨_, rfl⟩
  | decision =>
    cases values with
    | nil =>
      have none := grows.length_values
      exact absurd (List.length_eq_zero_iff.1 none.symm) some
    | cons value values => exact ⟨_, rfl⟩

namespace Node

variable {ctx : Context σ α} {t : Table} {budget depth : Nat}

/-- What a search shows of a node, its value and the expanded node, for each sort of node: at tables
with as many chips in all, it holds of leaves, of choices that are cut for want of time, and of
choices whose children have it. -/
structure Hereditary (ctx : Context σ α) (total : Chips) (Q : Node α → α → Node α → Prop) :
    Prop where
  leaf : ∀ l g hero value, l.table.Hosts ctx.bot g → g.total = total →
    g.seat? ctx.bot = some hero →
    (value = Scalar.ofNat hero.stack ∨
      value = Scalar.ofNat hero.stack + Scalar.ofNat (g.carried + g.staked) ∨
      ∃ bag : Payouts, bag.AtMost (g.carried + g.staked) ∧
        value = Scalar.ofNat hero.stack + bag.mean?.getD (Scalar.ofNat 0)) →
    Q (.leaf l) value (.leaf { l with value := some value })
  cut : ∀ c g hero value, c.table.Hosts ctx.bot g → g.total = total →
    g.seat? ctx.bot = some hero →
    value = Scalar.ofNat hero.stack + Scalar.ratio (g.carried + g.staked) (max g.activeCount 1) →
    Q (.choice c []) value (.choice { c with value := some value, expired := true } [])
  split : ∀ c g p fresh values grown value, c.table.Hosts ctx.bot g →
    g.total = total → g.next = some p → (c.turn = .decision ↔ p = ctx.bot) →
    c.Splits ctx fresh → Grown Q fresh values grown → c.combine grown values = .ok value →
    Q (.choice c []) value (.choice { c with value := some value } grown)

/-- What is hereditary holds of the whole tree of a search; and if expanding fails, something went
wrong at one of its tables. -/
theorem Ready.within_expandWithin [SeededSource σ] {f : Flat} (host : t.Hosts ctx.bot f)
    {Q : Node α → α → Node α → Prop} (hereditary : Hereditary ctx f.total Q)
    {n : Node α} (ready : Ready ctx t budget depth n) :
    Outcome.Within (fun e => ∃ u, t.LeadsTo u ∧ ctx.Mishap budget u e)
      (fun value => Q n value (n.expandWithin ctx depth).2) (n.expandWithin ctx depth).1 := by
  refine Node.within_expandWithin (I := Ready ctx t budget) (fun _ _ ready => ready.value)
    ?deep ?leaf ?cut ?split ready
  case deep =>
    -- fewer than no actions can be played from such a table
    intro c children ready
    obtain ⟨_, _, _, less⟩ := ready.weight
    exact absurd less (Nat.not_lt_zero _)
  case leaf =>
    intro depth l ready
    obtain ⟨g, here, total⟩ := host.leadsTo ready.leads
    obtain ⟨hero, found⟩ := here.seated
    refine (here.shows.within_resolve here.sound here.apart found).mono
      (fun e wrong => ⟨l.table, ready.leads, wrong⟩) ?_
    exact fun value is => hereditary.leaf l g hero value here total found is
  case cut =>
    intro depth c children ready _
    obtain rfl : children = [] := ready.children
    obtain ⟨g, here, total⟩ := host.leadsTo ready.leads
    obtain ⟨hero, found⟩ := here.seated
    refine (here.shows.within_neutral here.sound found).mono
      (fun e wrong => ⟨c.table, ready.leads, wrong⟩) ?_
    exact fun value is => hereditary.cut c g hero value here total found is
  case split =>
    intro depth c children ready _
    obtain rfl : children = [] := ready.children
    obtain ⟨g, here, total⟩ := host.leadsTo ready.leads
    obtain ⟨fits, p, due, turn⟩ := ready.choice c [] rfl
    have next : g.next = some p := (here.shows.answers here.sound).nextToAct.symm.trans due
    refine ((here.shows.risks here.sound next turn fits).within_freshChildren).mono
      (fun e wrong => ⟨c.table, ready.leads, wrong⟩) (fun fresh splits => ⟨?_, ?_⟩)
    · intro child mem
      obtain ⟨u, seed, played, node⟩ := splits.plays child mem
      rw [node]
      exact ready.child played (splits.tokens_le child mem) seed
    · intro values grown grows
      obtain ⟨value, combined⟩ := c.exists_combine splits.some grows
      refine Outcome.within_of_ok combined ?_
      exact hereditary.split c g p fresh values grown value here total next turn splits grows
        combined

end Node

end Holdem
