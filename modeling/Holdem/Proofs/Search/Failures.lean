import Holdem.Chance.Xoshiro
import Holdem.Proofs.Betting.Amounts
import Holdem.Proofs.Scalar
import Holdem.Proofs.Search.Nodes
import Holdem.Search.Decision

/-!
# A search fails only for want of cards

With few enough chips and tokens, and plain models, nothing can go wrong at the tables of a search
but that the searching player's own cards are unknown, that the deck runs out, or that an opponent's
tally has counted as much as it can. Counts have sixty-four bits, so a tally is full only once it
has seen one style 2 ^ 64 - 1 times; asking it about that style then ends in a fault.
-/

set_option autoImplicit false

namespace Holdem

variable {σ α : Type}

namespace Search

/-- Play from a table leads to an opponent's turn, and the opponent's tally can count no more of a
style that one of the candidates there has. -/
def Saturates (s : Search σ α) (t : Table) : Prop :=
  ∃ u p tally actions, t.LeadsTo u ∧ u.nextToAct = some p ∧ p ≠ s.bot ∧
    s.book.model p = .habits tally ∧ s.settings.sizing.candidates u = .ok actions ∧
    ¬ tally.HasRoom actions

/-- A search with room in all of its tallies does not saturate. -/
theorem not_saturates {s : Search σ α} {t : Table}
    (room : ∀ p tally, s.book.model p = .habits tally →
      ∀ style, tally.count style + 1 < countLimit) : ¬ s.Saturates t := by
  rintro ⟨_, p, tally, _, _, _, _, bound, _, full⟩
  exact full fun a _ => room p tally bound a.style

end Search

variable [Scalar α]

namespace Search

variable [SeededSource σ] {s : Search σ α} {t : Table} {tokens : Nat}

/-- A tree has what is hereditary; and if there is none, something went wrong at a table that play
leads to. -/
theorem within_tree {f : Flat} (host : t.Hosts s.bot f) (due : t.nextToAct = some s.bot)
    {Q : Node α → α → Node α → Prop} (hereditary : Node.Hereditary s.context f.total Q) :
    Outcome.Within (fun e => ∃ u, t.LeadsTo u ∧ s.context.Mishap tokens u e)
      (fun root => ∃ value, Q (.root t tokens s.seed) value root) (s.tree t tokens) := by
  have ready : Node.Ready s.context t tokens (t.playsLeft + 1) (Node.root t tokens s.seed) :=
    Node.ready_root host due s.seed
  have ends := ready.within_expandWithin host hereditary
  unfold tree
  rw [if_neg (not_not.2 due)]
  show Outcome.Within _ _ (((Node.root t tokens s.seed).expandWithin s.context (t.playsLeft + 1)).1
    >>= fun _ => pure ((Node.root t tokens s.seed).expandWithin s.context (t.playsLeft + 1)).2)
  exact ends.bind (fun value holds => ⟨value, holds⟩)

/-- If there is no tree, something went wrong at a table that play leads to. -/
theorem tree_eq_error {f : Flat} (host : t.Hosts s.bot f) (due : t.nextToAct = some s.bot)
    {failure : Failure} (failed : s.tree t tokens = .error failure) :
    ∃ u, t.LeadsTo u ∧ s.context.Mishap tokens u failure :=
  (within_tree host due (Q := fun _ _ _ => True)
    ⟨by intros; trivial, by intros; trivial, by intros; trivial⟩).error failed

/-- Only the player who is due has a tree. -/
theorem due_of_tree {root : Node α} (found : s.tree t tokens = .ok root) :
    t.nextToAct = some s.bot := by
  by_contra other
  rw [tree, if_pos other] at found
  cases found

end Search

/-- Accepted settings draw at least one sample. -/
theorem Settings.samples_pos {s : Settings} (accepted : s.check = .ok ()) : 0 < s.samples := by
  simp only [check, refuse_eq_ok] at accepted
  exact Nat.pos_of_ne_zero accepted.2.1

namespace Search

/-- At every table that is reached by playing from an accepted snapshot, with few enough chips and
raises, a search whose player is due returns a tree, or finds that its player's cards are unknown or
that the deck runs out; or it saturates, and a count overflows. Its settings are accepted, with
sizes of at most four times the pot and no more tokens and samples than can be multiplied, and its
book holds plain models. -/
theorem tree_fails_for_cards [SeededSource σ] {snapshot : Snapshot} {t₀ t : Table}
    {actions : List Action} {s : Search σ α} {tokens : Nat}
    (start : Table.ofSnapshot snapshot = .ok t₀) (played : t₀.playAll actions = .ok t)
    (due : t.nextToAct = some s.bot) (accepted : s.settings.check = .ok ())
    (sizes : ∀ size ∈ s.settings.sizes, size.numer ≤ 4 * size.denom)
    (plain : ∀ p, (s.book.model p).Plain)
    (chips : t.previousPot + t.roundPot + t.chipsBehind ≤ 2 ^ 28)
    (blind : snapshot.bigBlind ≤ 2 ^ 28) (least : ∀ n ∈ snapshot.minRaise, n ≤ 2 ^ 28)
    (raises : snapshot.raises < 2 ^ 63) (budget : tokens * s.settings.samples < 2 ^ 64) :
    (∃ node, s.tree t tokens = .ok node) ∨
      s.tree t tokens = .error (.defect (.unknownHole s.bot)) ∨
      (∃ needed left, s.tree t tokens = .error (.defect (.deckExhausted needed left))) ∨
      s.tree t tokens = .error (.fault .addOverflow) ∧ s.Saturates t := by
  cases tree : s.tree t tokens with
  | ok node => exact Or.inl ⟨node, rfl⟩
  | error failure =>
    right
    obtain ⟨shows₀, sound₀⟩ := Table.ofSnapshot_shows start
    obtain ⟨f, host⟩ := Table.Played.hosts ⟨snapshot, t₀, actions, start, played⟩ due
    obtain ⟨u, leads, wrong⟩ := tree_eq_error host due tree
    have total : (Flat.ofSnapshot snapshot).total ≤ 2 ^ 28 := by
      obtain ⟨_, g, ran, _, shown, sound⟩ := shows₀.leadsTo sound₀ ⟨actions, played⟩
      rwa [(shown.answers sound).total_eq, Flat.total_run sound₀ ran] at chips
    obtain ⟨g, shown, sound, few, small, counted⟩ := Table.modest_of_leadsTo start
      (Table.LeadsTo.trans ⟨actions, played⟩ leads) total blind least raises
    have answers := shown.answers sound
    -- only the want of cards and a full tally are left of what can go wrong at a modest table
    cases wrong with
    | cards want =>
      cases want with
      | hole => exact Or.inl rfl
      | deck needed left => exact Or.inr (Or.inl ⟨needed, left, rfl⟩)
    | chips spill =>
      rw [answers.total_eq, Table.chipLimit_eq] at spill
      lia
    | raises spill =>
      rw [answers.raises] at spill
      lia
    | sizes _ spill => exact absurd (shown.fits sound sizes few small _) spill
    | tokens _ spill =>
      have samples := Settings.samples_pos accepted
      have most : max s.context.sampling.samples 1 = s.settings.samples := max_eq_left samples
      rw [most, Table.countLimit_eq] at spill
      lia
    | model next other listed mem ends =>
      obtain ⟨rfl, tally, bound, full⟩ := (plain _).probability_eq_fault ends
      exact Or.inr (Or.inr ⟨rfl, u, _, tally, _, leads, next, other, bound, listed, full⟩)

/-- Two aces after a bet that was raised, by the usual settings. -/
theorem tree_fails_for_cards_aces : ∃ t₀ t, Table.ofSnapshot Table.aces = .ok t₀ ∧
    t₀.playAll [.bet 2, .raise 2] = .ok t ∧
    ((∃ node, (ofSettings ⟨0⟩ {} Judge.standard {} 1 : Search Xoshiro ℚ).tree t 250 = .ok node) ∨
      (ofSettings ⟨0⟩ {} Judge.standard {} 1 : Search Xoshiro ℚ).tree t 250 =
        .error (.defect (.unknownHole ⟨0⟩)) ∨
      ∃ needed left, (ofSettings ⟨0⟩ {} Judge.standard {} 1 : Search Xoshiro ℚ).tree t 250 =
        .error (.defect (.deckExhausted needed left))) := by
  have dealt : ∃ t₀ t, Table.ofSnapshot Table.aces = .ok t₀ ∧
      t₀.playAll [.bet 2, .raise 2] = .ok t ∧ t.nextToAct = some ⟨0⟩ ∧
      t.previousPot + t.roundPot + t.chipsBehind ≤ 2 ^ 28 :=
    ⟨_, _, rfl, rfl, rfl, by decide⟩
  obtain ⟨t₀, t, start, played, due, chips⟩ := dealt
  have ends := @tree_fails_for_cards Xoshiro ℚ _ _ _ _ _ _
    (ofSettings ⟨0⟩ {} Judge.standard {} 1) 250 start played due rfl (by decide)
    (fun _ => trivial) chips (by decide) (by decide) (by decide) (by decide)
  have room := not_saturates (s := (ofSettings ⟨0⟩ {} Judge.standard {} 1 : Search Xoshiro ℚ))
    (t := t) (by rintro p tally ⟨⟩)
  refine ⟨t₀, t, start, played, ends.imp_right (Or.imp_right fun last => ?_)⟩
  exact last.resolve_right fun full => room full.2

/-- A book whose one tally has seen so many checks that it cannot count another. -/
def fullBook : Book ℚ := { fallback := .habits { passive := 2 ^ 64 - 1 } }

/-- The book comes about by observing checks. At the same table, with a little pot, few raises and
few tokens, a search by it has no tree for all the cards there are: its count overflows. -/
theorem tree_faults_fullBook : ∃ t₀ t, Table.ofSnapshot Table.aces = .ok t₀ ∧
    t₀.playAll [.bet 2, .raise 2] = .ok t ∧ t.nextToAct = some ⟨0⟩ ∧
    ({} : Settings).check = .ok () ∧
    (∀ size ∈ ({} : Settings).sizes, size.numer ≤ 4 * size.denom) ∧
    (List.replicate (2 ^ 64 - 1) (Event.move ⟨1⟩ .check)).foldl Book.observe
      { fallback := .habits {} } = fullBook ∧ (∀ p, (fullBook.model p).Plain) ∧
    t.previousPot + t.roundPot + t.chipsBehind ≤ 2 ^ 28 ∧ Table.aces.bigBlind ≤ 2 ^ 28 ∧
    (∀ n ∈ Table.aces.minRaise, n ≤ 2 ^ 28) ∧ Table.aces.raises < 2 ^ 63 ∧
    250 * ({} : Settings).samples < 2 ^ 64 ∧
    (ofSettings ⟨0⟩ {} Judge.standard fullBook 1 : Search Xoshiro ℚ).tree t 250 =
      .error (.fault .addOverflow) := by
  have dealt : ∃ t₀ t, Table.ofSnapshot Table.aces = .ok t₀ ∧
      t₀.playAll [.bet 2, .raise 2] = .ok t ∧ t.nextToAct = some ⟨0⟩ ∧
      t.previousPot + t.roundPot + t.chipsBehind ≤ 2 ^ 28 ∧
      ((ofSettings ⟨0⟩ {} Judge.standard fullBook 1 : Search Xoshiro ℚ).tree t 250).map
        Node.size = .error (.fault .addOverflow) :=
    ⟨_, _, rfl, rfl, rfl, by decide, by decide +kernel⟩
  obtain ⟨t₀, t, start, played, due, chips, faulted⟩ := dealt
  exact ⟨t₀, t, start, played, due, rfl, by decide, Book.foldl_observe_checks ⟨1⟩ (by decide),
    fun _ => trivial, chips, by decide, by decide, by decide, by decide, eq_error_of_map faulted⟩

end Search

end Holdem
