import Holdem.Chance.Xoshiro
import Holdem.Proofs.Search.Decision

/-!
# What a decision can fault on

At modest tables, whatever the settings, the tokens and the book, a search faults for one of three
reasons only. A size of the grid, which is cut to an amount of chips after it is multiplied, does
not fit beside what is owed; shares of the tokens are in proportion to counts, and the tokens times
the draws are no number of sixty-four bits; or a model ends in a fault of its own. The first is no
matter of luck: where a size does not fit at the table itself, there is neither a ranking nor a
decision.
-/

set_option autoImplicit false

namespace Holdem

/-- The player may bet or raise, and a size of the grid does not fit beside what is owed. -/
def Sizing.Spills (s : Sizing) (t : Table) (p : Player) : Prop :=
  s.isOpen t = true ∧ ∃ size ∈ s.grid,
    chipLimit ≤ t.deficit p + size.of (t.previousPot + t.roundPot + t.deficit p)

/-- At a modest table only a size of the grid can fail to fit. -/
theorem Table.Shows.fits_iff {t : Table} {f : Flat} (h : t.Shows f) (sound : f.Sound)
    (chips : f.total ≤ 2 ^ 28) (least : f.minRaise ≤ 2 ^ 28) {sizing : Sizing} {p : Player} :
    sizing.Fits t p ↔ ¬ sizing.Spills t p := by
  obtain ⟨pot, minimum, owes⟩ := h.modest_amounts sound chips least p
  constructor
  · rintro fits ⟨opened, size, mem, large⟩
    have bound := (fits opened).2 size mem
    have part := Nat.le_max_left (size.of (t.previousPot + t.roundPot + t.deficit p)) t.minimum
    lia
  · intro none opened
    refine ⟨by rw [Table.chipLimit_eq]; lia, fun size mem => ?_⟩
    have small : t.deficit p + size.of (t.previousPot + t.roundPot + t.deficit p) < chipLimit := by
      by_contra large
      exact none ⟨opened, size, mem, Nat.le_of_not_lt large⟩
    rcases max_choice (size.of (t.previousPot + t.roundPot + t.deficit p)) t.minimum with
      same | same
    · rwa [same]
    · rw [same, Table.chipLimit_eq]
      lia

variable {σ α : Type} [Scalar α]

namespace Search

/-- What a search from a table can fault on, where all chips are modest. -/
inductive Hazard (s : Search σ α) (t : Table) (tokens : Nat) : Fault → Prop
  | size {u : Table} {p : Player} (leads : t.LeadsTo u) (due : u.nextToAct = some p)
      (spills : s.settings.sizing.Spills u p) : s.Hazard t tokens .addOverflow
  | shares (split : s.settings.split = .proportional)
      (large : countLimit ≤ tokens * s.settings.samples) : s.Hazard t tokens .mulOverflow
  | model {u : Table} {p : Player} {a : Action} {actions : List Action} {cause : Fault}
      (leads : t.LeadsTo u)
      (ends : (s.book.model p).probability p a u actions = .error (.fault cause)) :
      s.Hazard t tokens cause

variable {s : Search σ α} {t u : Table} {f : Flat} {tokens : Nat}

/-- At a modest table, a mishap that is a fault is one of the hazards. -/
theorem hazard_of_mishap {cause : Fault} (h : u.Shows f) (sound : f.Sound) (leads : t.LeadsTo u)
    (chips : f.total ≤ 2 ^ 28) (least : f.minRaise ≤ 2 ^ 28) (raises : f.raises + 1 < countLimit)
    (accepted : s.settings.check = .ok ())
    (wrong : s.context.Mishap tokens u (.fault cause)) : s.Hazard t tokens cause := by
  have answers := h.answers sound
  cases wrong with
  | cards want => cases want
  | chips spill =>
    rw [answers.total_eq, Table.chipLimit_eq] at spill
    lia
  | raises spill =>
    rw [answers.raises] at spill
    lia
  | sizes due spill =>
    have spills := not_not.1 ((h.fits_iff sound chips least).not.1 spill)
    exact .size leads due spills
  | tokens split spill =>
    have most : max s.context.sampling.samples 1 = s.settings.samples :=
      max_eq_left (Settings.samples_pos accepted)
    exact .shares split (most ▸ spill)
  | model _ _ _ _ ends => exact .model leads ends

variable [SeededSource σ]

/-- Where the candidates cannot be listed, there is neither a ranking nor a decision. -/
theorem faults_of_candidates {failure : Failure} (due : t.nextToAct = some s.bot)
    (failed : s.settings.sizing.candidates t = .error failure) :
    s.decide t tokens = .error failure ∧
      (s.late t = false → s.ranking t tokens = .error failure) := by
  constructor
  · unfold decide
    rw [if_neg (not_not.2 due), failed]
    rfl
  · -- the root is a choice with time, whose children are made from its candidates first
    intro time
    have options : (⟨.decision, t, tokens, s.seed, none, false⟩ : Choice α).options s.context =
        .error failure := by
      unfold Choice.options
      rw [show s.context.sizing.candidates t = .error failure from failed]
      rfl
    have fresh : (⟨.decision, t, tokens, s.seed, none, false⟩ : Choice α).freshChildren s.context =
        .error failure := by
      unfold Choice.freshChildren Choice.decisions
      rw [options]
      rfl
    have root : ((Node.root t tokens s.seed).expand s.context).1 = .error failure := by
      unfold Node.expand Node.expandWithin Node.root
      dsimp only
      rw [if_neg (by rw [show s.context.late t = false from time]; decide), fresh]
    unfold ranking tree
    rw [if_neg (not_not.2 due)]
    generalize (Node.root t tokens s.seed).expand s.context = grown at root ⊢
    obtain ⟨value, node⟩ := grown
    obtain rfl : value = .error failure := root
    rfl

/-- At every table that is reached by playing from an accepted snapshot and at which the player is
due, with few enough chips and raises, whatever the accepted settings, the tokens and the book:
ranking faults only for one of the hazards, and deciding fails only by such a fault. If a size
spills at the table itself, both are sure to fault, unless there is no time to rank. -/
theorem faults_are_hazards {snapshot : Snapshot} {t₀ : Table} {actions : List Action}
    (start : Table.ofSnapshot snapshot = .ok t₀) (played : t₀.playAll actions = .ok t)
    (due : t.nextToAct = some s.bot) (accepted : s.settings.check = .ok ())
    (chips : t.previousPot + t.roundPot + t.chipsBehind ≤ 2 ^ 28) (blind : t.bigBlind ≤ 2 ^ 28)
    (least : t.minRaise ≤ 2 ^ 28) (raises : t.raises < 2 ^ 63) :
    (∀ cause, s.ranking t tokens = .error (.fault cause) → s.Hazard t tokens cause) ∧
      ((∃ a, s.decide t tokens = .ok a) ∨
        ∃ cause, s.decide t tokens = .error (.fault cause) ∧ s.Hazard t tokens cause) ∧
      (s.settings.sizing.Spills t s.bot → s.decide t tokens = .error (.fault .addOverflow) ∧
        (s.late t = false → s.ranking t tokens = .error (.fault .addOverflow))) := by
  obtain ⟨f, host⟩ := Table.Played.hosts ⟨snapshot, t₀, actions, start, played⟩ due
  have answers := host.shows.answers host.sound
  have next : f.next = some s.bot := answers.nextToAct.symm.trans due
  rw [answers.total_eq] at chips
  rw [host.shows.bigBlind] at blind
  rw [answers.minRaise] at least
  rw [answers.raises] at raises
  have hazard : ∀ {u cause}, t.LeadsTo u → s.context.Mishap tokens u (.fault cause) →
      s.Hazard t tokens cause := by
    intro u cause leads wrong
    obtain ⟨g, shown, sound, few, small, counted⟩ :=
      host.shows.modest_of_leadsTo host.sound leads chips blind least raises
    exact hazard_of_mishap shown sound leads few small counted accepted wrong
  refine ⟨fun cause faulted => ?_, ?_, fun spills => ?_⟩
  · rcases (within_ranking host due).error faulted with unexpanded | ⟨u, leads, wrong⟩
    · cases unexpanded
    · exact hazard leads wrong
  · have decided : Outcome.Within (s.Faults t tokens) _ (s.decide t tokens) :=
      within_decide host.shows host.sound next (fun _ => host)
    cases ended : s.decide t tokens with
    | ok a => exact Or.inl ⟨a, rfl⟩
    | error e =>
      obtain ⟨cause, rfl, u, leads, wrong⟩ := decided.error ended
      exact Or.inr ⟨cause, rfl, hazard leads wrong⟩
  · obtain ⟨seat, acts, own⟩ := host.shows.exists_actor host.sound next
    have spill : ¬ s.settings.sizing.Fits t seat.player := fun fits =>
      (host.shows.fits_iff host.sound chips least).1 fits (own ▸ spills)
    cases listed : s.settings.sizing.candidates t with
    | ok actions => exact absurd ((Sizing.exists_candidates_iff acts).1 ⟨actions, listed⟩) spill
    | error failure =>
      obtain ⟨rfl, _⟩ := Sizing.candidates_eq_error acts listed
      exact faults_of_candidates due listed

/-- Two aces and more tokens than can be multiplied by two, which both draws make a share of. -/
theorem faults_are_hazards_aces : ∃ t, Table.ofSnapshot Table.aces = .ok t ∧
    t.playAll [] = .ok t ∧ ∃ cause,
    (ofSettings ⟨0⟩ { trials := 1, samples := 2, decisions := .sampled } Judge.standard {} 1 :
      Search Xoshiro ℚ).decide t (2 ^ 64 - 1) = .error (.fault cause) ∧
    (ofSettings ⟨0⟩ { trials := 1, samples := 2, decisions := .sampled } Judge.standard {} 1 :
      Search Xoshiro ℚ).Hazard t (2 ^ 64 - 1) cause := by
  have dealt : ∃ t, Table.ofSnapshot Table.aces = .ok t ∧ t.playAll [] = .ok t ∧
      t.nextToAct = some ⟨0⟩ ∧ t.previousPot + t.roundPot + t.chipsBehind ≤ 2 ^ 28 ∧
      t.bigBlind ≤ 2 ^ 28 ∧ t.minRaise ≤ 2 ^ 28 ∧ t.raises < 2 ^ 63 ∧
      (ofSettings ⟨0⟩ { trials := 1, samples := 2, decisions := .sampled } Judge.standard {} 1 :
        Search Xoshiro ℚ).decide t (2 ^ 64 - 1) = .error (.fault .mulOverflow) :=
    ⟨_, rfl, rfl, rfl, by decide, by decide, by decide, by decide, by decide +kernel⟩
  obtain ⟨t, start, stays, due, chips, blind, least, raises, faulted⟩ := dealt
  have ends := @faults_are_hazards Xoshiro ℚ _ (ofSettings ⟨0⟩
    { trials := 1, samples := 2, decisions := .sampled } Judge.standard {} 1) t (2 ^ 64 - 1)
    _ _ _ _ start stays due rfl chips blind least raises
  rcases ends.2.1 with ⟨a, decided⟩ | fault
  · rw [faulted] at decided
    cases decided
  · exact ⟨t, start, stays, fault⟩

/-- With nine chips in the pot the size is the largest amount there is, which does not fit beside
the chip that is owed. -/
theorem no_decision_headsUp : ∃ t, Table.ofSnapshot (.headsUp 5) = .ok t ∧
    t.nextToAct = some ⟨0⟩ ∧ t.previousPot + t.roundPot + t.chipsBehind = 25 ∧
    t.bigBlind = 2 ∧ t.minRaise = 2 ∧ t.raises = 0 ∧
    ({ trials := 1, sizes := [⟨4294967295, 9⟩] } : Settings).check = .ok () ∧
    (ofSettings ⟨0⟩ { trials := 1, sizes := [⟨4294967295, 9⟩] } Judge.standard {} 1 :
      Search Xoshiro ℚ).decide t 4 = .error (.fault .addOverflow) ∧
    (ofSettings ⟨0⟩ { trials := 1, sizes := [⟨4294967295, 9⟩] } Judge.standard {} 1 :
      Search Xoshiro ℚ).ranking t 4 = .error (.fault .addOverflow) :=
  ⟨_, rfl, rfl, rfl, rfl, rfl, rfl, rfl, rfl, rfl⟩

end Search

end Holdem
