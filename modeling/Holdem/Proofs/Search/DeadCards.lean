import Holdem.Chance.Xoshiro
import Holdem.Proofs.Scalar
import Holdem.Proofs.Search.Twins
import Holdem.Proofs.Table.Resemblance

/-!
# The cards of players who are out of the hand

Players who folded or sit out may have shown their cards, and a search does not look at them. Tables
that differ in such cards alone pay the same at every showdown, since only seats that still compete
take part in one; and nothing else a search reads shows a card. So it ranks the same actions by the
same values, or fails for the same reason, and decides the same.
-/

set_option autoImplicit false

namespace Holdem

namespace Seat

/-- The seat without the cards of a player who is out of the hand. -/
def veil (s : Seat) : Seat := { s with hole := if s.isActive then s.hole else none }

/-- The veil leaves the seats of active players as they are. -/
theorem veil_of_isActive {s : Seat} (active : s.isActive = true) : s.veil = s := by
  rw [veil, if_pos active]

/-- The veil is a view: it hides hole cards only. -/
theorem view_veil : View veil where
  bare := fun s => ⟨if s.isActive then s.hole else none, rfl⟩
  actionable := fun _ live => veil_of_isActive (isActive_of_isActionable live)
  clearStake := fun _ => rfl

/-- Seats that look the same to those who see no dead cards are the same if they compete. -/
theorem eq_of_veil {s s' : Seat} (same : s'.veil = s.veil) (active : s.isActive = true) :
    s' = s := by
  have active' : s'.isActive = true := by
    rw [← view_veil.isActive s', same, view_veil.isActive, active]
  rw [← veil_of_isActive active', same, veil_of_isActive active]

/-- The veil leaves the active seats of the others as they are. -/
theorem filter_veil (p : Player) (seats : List Seat) :
    (seats.map veil).filter (fun s => s.player != p && s.isActive) =
      seats.filter (fun s => s.player != p && s.isActive) := by
  have asked : (fun s : Seat => s.player != p && s.isActive) ∘ veil =
      fun s => s.player != p && s.isActive := by
    funext s
    simp [view_veil.player, view_veil.isActive]
  rw [List.filter_map, asked]
  calc (seats.filter _).map veil = (seats.filter _).map id := by
        refine List.map_congr_left (fun s mem => veil_of_isActive ?_)
        exact (Bool.and_eq_true_iff.1 (List.mem_filter.1 mem).2).2
    _ = _ := List.map_id _

end Seat

namespace Table

variable {t u : Table}

namespace Resembles

/-- Tables alike under the veil have the same opponents for a player. -/
theorem opponents (h : Resembles Seat.veil 0 t u) (p : Player) : u.opponents p = t.opponents p := by
  obtain ⟨l, m, seats, seats', turned, _⟩ := h.seats_turned
  rw [List.rotate_zero] at turned
  rw [Table.opponents, Table.opponents, seats, seats']
  show Except.ok _ = Except.ok _
  rw [← Seat.filter_veil, turned, Seat.filter_veil]

/-- Tables alike under the veil have the same stacks. -/
theorem stack (h : Resembles Seat.veil 0 t u) (p : Player) :
    (u.seat p).map Seat.stack = (t.seat p).map Seat.stack := by
  rcases h.seat_cases p with ⟨e, missing, missing'⟩ | ⟨s, s', found, found', looks⟩
  · rw [missing, missing']
  · rw [found, found']
    exact congrArg Except.ok (by rw [← Seat.view_veil.stack s', looks, Seat.view_veil.stack])

/-- Tables alike under the veil have as many plays left. -/
theorem playsLeft (h : Resembles Seat.veil 0 t u) : u.playsLeft = t.playsLeft := by
  obtain ⟨l, m, seats, seats', turned, _⟩ := h.seats_turned
  have chips : ∀ k : List Seat, k.map Seat.stack = (k.map Seat.veil).map Seat.stack := by
    intro k
    rw [List.map_map]
    exact List.map_congr_left (fun s _ => (Seat.view_veil.stack s).symm)
  have behind : u.chipsBehind = t.chipsBehind := by
    rw [chipsBehind, chipsBehind, seats, seats']
    dsimp only
    rw [chips m, turned, List.rotate_zero, ← chips]
  have rows : u.ledger.rows.length = t.ledger.rows.length := by
    rw [h.ledger]
    exact List.length_rotate _ _
  rw [Table.playsLeft, Table.playsLeft, h.street, behind, rows]

/-- Dead cards have no part in a showdown. -/
theorem estimate {σ : Type} [WordSource σ] (h : Resembles Seat.veil 0 t u) (s : Showdown)
    (p : Player) : (s.estimate p u : Random σ Payouts) = s.estimate p t := by
  rw [Showdown.estimate, Showdown.estimate, h.pot, h.opponents, h.board]
  rcases h.seat_cases p with ⟨e, missing, missing'⟩ | ⟨hero, hero', found, found', looks⟩
  · rw [missing, missing']
  · rw [found, found']
    by_cases active : hero.isActive = true
    · rw [Seat.eq_of_veil looks active]
    · have folded : hero.isActive = false := by simpa using active
      have folded' : hero'.isActive = false := by
        rw [← Seat.view_veil.isActive hero', looks, Seat.view_veil.isActive, folded]
      have given : ∀ (seat : Seat) (next : Seat → Random σ Payouts),
          (liftM (Except.ok seat : Outcome Seat) : Random σ Seat) >>= next = next seat :=
        fun _ _ => rfl
      simp only [given, folded, folded']
      rfl

end Resembles

end Table

variable {σ α : Type} [Scalar α]

/-- A plain model looks at the actions alone. -/
theorem Model.Plain.probability_eq {m : Model α} (plain : m.Plain) (p : Player) (a : Action)
    (t u : Table) (actions : List Action) :
    m.probability p a u actions = m.probability p a t actions := by
  cases m with
  | uniform => rfl
  | habits tally => rfl
  | rule answer => exact plain.elim

/-- Plain models reply to the actions alone and not to the table. -/
theorem Book.replies_of_plain {b : Book α} {p : Player} (plain : (b.model p).Plain) (t u : Table)
    (actions : List Action) : b.replies p u actions = b.replies p t actions := by
  have answers : (fun a => (b.model p).probability p a u actions) =
      fun a => (b.model p).probability p a t actions :=
    funext (fun a => plain.probability_eq p a t u actions)
  rw [replies, replies, answers]

/-- A search with plain models, which is not cut short at one table and not at another, overlooks
dead cards. -/
theorem Context.overlooks_dead_cards [SeededSource σ] {ctx : Context σ α}
    (steady : ∀ t u, ctx.late u = ctx.late t) (plain : ∀ p, (ctx.book.model p).Plain) :
    ctx.Overlooks (Table.Resembles Seat.veil 0) where
  inStep := Table.Resembles.inStep Seat.view_veil 0
  betting := fun _ _ same => same.sameBetting Seat.view_veil
  late := fun t u _ => steady t u
  playsLeft := fun _ _ same => same.playsLeft
  stack := fun _ _ same => same.stack ctx.bot
  showdown := fun _ _ same => same.estimate ctx.showdown ctx.bot
  replies := fun t u _ p actions => Book.replies_of_plain (plain p) t u actions

namespace Search

/-- Of two snapshots that differ only in the cards of players who are out of the hand, the same
plays lead to tables which a search ranks and decides alike. -/
theorem dead_cards_overlooked {snapshot : Snapshot} {seats : List Seat} {t₀ u₀ : Table}
    [SeededSource σ] {s : Search σ α} (veiled : seats.map Seat.veil = snapshot.seats.map Seat.veil)
    (start : Table.ofSnapshot snapshot = .ok t₀)
    (start' : Table.ofSnapshot (snapshot.reseat seats) = .ok u₀)
    (steady : ∀ t u, s.late u = s.late t) (plain : ∀ p, (s.book.model p).Plain)
    (actions : List Action) (tokens : Nat) :
    Outcome.Concurs Failure.Reworded
      (fun t u => s.ranking u tokens = s.ranking t tokens ∧ s.decide u tokens = s.decide t tokens)
      (t₀.playAll actions) (u₀.playAll actions) := by
  have same : Table.Resembles Seat.veil 0 t₀ u₀ :=
    .ofSnapshot Seat.view_veil (by rw [List.rotate_zero, veiled]) start start'
  have overlooks : s.context.Overlooks (Table.Resembles Seat.veil 0) :=
    Context.overlooks_dead_cards steady plain
  refine (overlooks.inStep.playAll same actions).mono (fun _ _ _ _ => id)
    (fun t u played _ same => ?_)
  have host : t.nextToAct = some s.bot → ∃ f, t.Hosts s.bot f :=
    Table.Played.hosts ⟨snapshot, t₀, actions, start, played⟩
  exact ⟨ranking_eq overlooks same host tokens, decide_eq overlooks same host tokens⟩

/-- Two kings. -/
def kings : Hole := ⟨Hand.ofCards [⟨.king, .hearts⟩, ⟨.king, .spades⟩], by decide⟩

/-- Two aces against an unknown hand, and a third player who has folded and may have shown cards. -/
def folder (shown : Option Hole) : Snapshot :=
  Table.aces.reseat (Table.aces.seats ++
    [{ player := ⟨2⟩, stack := 5, status := .folded, hole := shown }])

/-- A search for the player who holds the aces. -/
def holder : Search Xoshiro ℚ := ofSettings ⟨0⟩ { trials := 1 } Judge.standard {} 1

/-- After a bet and a raise it does not matter whether two kings that were folded have been
shown. -/
theorem dead_cards_overlooked_kings : ∃ t₀ u₀ t u,
    (folder none).seats ≠ (folder (some kings)).seats ∧
    Table.ofSnapshot (folder (some kings)) = .ok t₀ ∧ Table.ofSnapshot (folder none) = .ok u₀ ∧
    t₀.playAll [.bet 2, .raise 2] = .ok t ∧ u₀.playAll [.bet 2, .raise 2] = .ok u ∧
    holder.ranking u 4 = holder.ranking t 4 ∧ holder.decide u 4 = holder.decide t 4 := by
  have dealt : ∃ t₀ u₀ t u, Table.ofSnapshot (folder (some kings)) = .ok t₀ ∧
      Table.ofSnapshot ((folder (some kings)).reseat (folder none).seats) = .ok u₀ ∧
      t₀.playAll [.bet 2, .raise 2] = .ok t ∧ u₀.playAll [.bet 2, .raise 2] = .ok u :=
    ⟨_, _, _, _, rfl, rfl, rfl, rfl⟩
  obtain ⟨t₀, u₀, t, u, start, start', played, played'⟩ := dealt
  have veiled : (folder none).seats.map Seat.veil = (folder (some kings)).seats.map Seat.veil := rfl
  have alike := dead_cards_overlooked (s := holder) veiled start start' (fun _ _ => rfl)
    (fun _ => trivial) [.bet 2, .raise 2] 4
  rw [played, played'] at alike
  exact ⟨t₀, u₀, t, u, by decide, start, start', played, played', alike⟩

end Search

end Holdem
