import Holdem.CommandLine
import Holdem.Proofs.Betting.Candidates
import Holdem.Proofs.Flat.Seats
import Holdem.Proofs.Table.Plays

/-!
# Who is due has chips

A player who is due has chips behind exactly if the player came to the table with some: the check of
a snapshot asks only that the next player can decide, and a seat without chips may be marked so.
Only a player who owes chips and has none is left with nothing but the fold. At a table of the
command line that is a player who was given no chips, and the dealer whose bet took the whole stack.
-/

set_option autoImplicit false

namespace Holdem

/-- The player who is due had a seat at the start, and has chips exactly if it had some then. -/
theorem Table.exists_stack_of_due {s : Snapshot} {t₀ t : Table} {actions : List Action} {p : Player}
    (start : Table.ofSnapshot s = .ok t₀) (played : t₀.playAll actions = .ok t)
    (due : t.nextToAct = some p) : ∃ old seat, s.seat? p = some old ∧ t.seat p = .ok seat ∧
      t.actor? = some seat ∧ seat.player = p ∧ (0 < seat.stack ↔ 0 < old.stack) := by
  obtain ⟨events, ran, -⟩ := exists_run_of_playAll played
  obtain ⟨f, flatRan, h, sound⟩ := exists_flat_of_run start ran
  have next : f.next = some p := (h.answers sound).nextToAct.symm.trans due
  obtain ⟨old, seat, before, found, chips⟩ :=
    Flat.stack_pos_of_due (ofSnapshot_shows start).2 flatRan next
  exact ⟨old, seat, before, h.seat_eq found, h.actor_eq sound next found,
    (Flat.mem_of_seat? found).2, chips⟩

namespace Arguments

/-- The chips that the arguments put behind a player. -/
def chips (a : Arguments) (p : Player) : Chips :=
  if p = hero then a.stack
  else if p.id = a.opponents ∧ 0 < a.facing then a.villainStack - a.facing
  else a.villainStack

/-- The seats of the opponents are numbered as they are given. -/
theorem player_villainSeat (a : Arguments) (id : Nat) : (a.villainSeat id).player = ⟨id⟩ := by
  unfold villainSeat
  split <;> rfl

/-- An opponent's stack is the chips the arguments give it. -/
theorem stack_villainSeat (a : Arguments) (i : Nat) :
    (a.villainSeat (i + 1)).stack = a.chips ⟨i + 1⟩ := by
  have other : (⟨i + 1⟩ : Player) ≠ hero := by simp [hero]
  rw [chips, if_neg other, villainSeat]
  split <;> rfl

/-- The table of the arguments starts from a snapshot in which each player has the chips given. -/
theorem exists_snapshot {a : Arguments} {t : Table} (opened : a.table = .ok t) :
    ∃ s, Table.ofSnapshot s = .ok t ∧ ∀ p old, s.seat? p = some old → old.stack = a.chips p := by
  simp only [table, refuse_eq_ok, bind_eq_ok] at opened
  obtain ⟨_, hole, _, cards, _, board, _, street, _, start⟩ := opened
  refine ⟨_, start, fun p old found => ?_⟩
  have mem := List.mem_of_find?_eq_some found
  have own : old.player = p := by simpa using List.find?_some found
  subst own
  rcases List.mem_cons.1 mem with rfl | villain
  · exact (if_pos rfl).symm
  · obtain ⟨i, _, rfl⟩ := List.mem_map.1 villain
    rw [player_villainSeat]
    exact a.stack_villainSeat i

end Arguments

namespace Table

/-- A player who is due has chips exactly if the snapshot gave the player some, and the candidates
can be listed and hold more than the fold exactly if the sizes fit and the player owes nothing or
came with chips. At a table of the command line the chips a player came with are those of the
arguments. -/
theorem due_has_chips_iff {t₀ t : Table} {actions : List Action} {p : Player}
    (played : t₀.playAll actions = .ok t) (due : t.nextToAct = some p) :
    (∀ s, Table.ofSnapshot s = .ok t₀ → ∃ old seat, s.seat? p = some old ∧ t.seat p = .ok seat ∧
      (0 < seat.stack ↔ 0 < old.stack) ∧
      ∀ sizing : Sizing,
        (∃ choices, sizing.candidates t = .ok choices ∧ ∃ a ∈ choices, a ≠ .fold) ↔
          sizing.Fits t p ∧ (t.deficit p = 0 ∨ 0 < old.stack)) ∧
    (∀ a : Arguments, a.table = .ok t₀ → ∃ seat, t.seat p = .ok seat ∧
      (0 < seat.stack ↔ 0 < a.chips p) ∧
      ∀ sizing : Sizing,
        (∃ choices, sizing.candidates t = .ok choices ∧ ∃ a ∈ choices, a ≠ .fold) ↔
          sizing.Fits t p ∧ (t.deficit p = 0 ∨ 0 < a.chips p)) := by
  have offers : ∀ {seat : Seat}, t.actor? = some seat → seat.player = p → ∀ sizing : Sizing,
      (∃ choices, sizing.candidates t = .ok choices ∧ ∃ a ∈ choices, a ≠ .fold) ↔
        sizing.Fits t p ∧ (t.deficit p = 0 ∨ 0 < seat.stack) := by
    rintro seat acts rfl sizing
    rw [← Sizing.exists_candidates_iff acts]
    constructor
    · rintro ⟨choices, listed, other⟩
      exact ⟨⟨choices, listed⟩, (Sizing.offers_iff acts listed).1 other⟩
    · rintro ⟨⟨choices, listed⟩, able⟩
      exact ⟨choices, listed, (Sizing.offers_iff acts listed).2 able⟩
  constructor
  · intro s start
    obtain ⟨old, seat, before, found, acts, own, chips⟩ := exists_stack_of_due start played due
    refine ⟨old, seat, before, found, chips, fun sizing => ?_⟩
    rw [offers acts own, chips]
  · intro a opened
    obtain ⟨s, start, given⟩ := a.exists_snapshot opened
    obtain ⟨old, seat, before, found, acts, own, chips⟩ := exists_stack_of_due start played due
    rw [given p old before] at chips
    refine ⟨seat, found, chips, fun sizing => ?_⟩
    rw [offers acts own, chips]

/-- The first player calls, and the second is due with chips. -/
theorem due_has_chips_headsUp : ∃ t₀ t seat, Table.ofSnapshot (.headsUp 5) = .ok t₀ ∧
    t₀.playAll [.call 1] = .ok t ∧ t.nextToAct = some ⟨1⟩ ∧ t.seat ⟨1⟩ = .ok seat ∧
    0 < seat.stack := by
  have dealt : ∃ t₀ t, Table.ofSnapshot (.headsUp 5) = .ok t₀ ∧
      t₀.playAll [.call 1] = .ok t ∧ t.nextToAct = some ⟨1⟩ :=
    ⟨_, _, rfl, rfl, rfl⟩
  obtain ⟨t₀, t, start, played, due⟩ := dealt
  obtain ⟨old, seat, before, found, chips, -⟩ := (due_has_chips_iff played due).1 _ start
  obtain rfl := Option.some.inj before
  exact ⟨t₀, t, seat, start, played, due, found, chips.2 (by decide)⟩

/-- The dealer has bet the whole stack and is still asked to answer: nothing but the fold is
left. -/
theorem dealer_has_no_chips : ∃ t₀ t seat,
    ({ hole := "AsAh", stack := 2000, facing := 1000 } : Arguments).table = .ok t₀ ∧
      t₀.playAll [.shove 2000] = .ok t ∧ t.nextToAct = some ⟨1⟩ ∧ t.seat ⟨1⟩ = .ok seat ∧
      seat.stack = 0 ∧ ({} : Sizing).candidates t = .ok [.fold] :=
  ⟨_, _, _, rfl, rfl, rfl, rfl, rfl, rfl⟩

end Table

end Holdem
