import Holdem.Proofs.Flat.Weight
import Holdem.Proofs.Table.Playing

/-!
# Every hand ends

Every action that is played lowers the weight of the flat table that the table shows. So no hand
goes on forever, and the bound on the actions that a search allows for is never reached.
-/

set_option autoImplicit false

namespace Holdem

namespace Table

variable {t t' : Table} {f f' : Flat} {a : Action} {p : Player}

/-- The tables that are reached from accepted snapshots by playing. -/
def Played (t : Table) : Prop :=
  ∃ s t₀ actions, Table.ofSnapshot s = .ok t₀ ∧ t₀.playAll actions = .ok t

/-- Every action that is played lowers the weight. -/
theorem Shows.weight_play_lt (h : t.Shows f) (sound : f.Sound) (played : t.play a = .ok t') :
    ∃ f', t'.Shows f' ∧ f'.Sound ∧ f'.weight < f.weight := by
  obtain ⟨p, moved, f', due, allowed, applied, shown, sound', rest⟩ := h.play_cases sound played
  obtain ⟨seat, found, _⟩ := sound.next_actionable p due
  obtain ⟨_, owes, costs⟩ := h.fits_of_isAllowed sound due found allowed
  rcases rest with ⟨_, closed⟩ | ⟨running, q, after, shows', turned⟩
  · obtain ⟨g, shows', soundG, behind, seats, ends⟩ :=
      shown.closings sound' (closings_of_close closed).1
    exact ⟨g, shows', soundG,
      Flat.weight_close_lt sound due found applied costs soundG behind seats ends⟩
  · exact ⟨f'.turnTo q, shows', turned,
      Flat.weight_turn_lt sound due found applied costs owes running after⟩

/-- A run of actions is no longer than the weight it started with. -/
theorem Shows.length_playAll_le (h : t.Shows f) (sound : f.Sound) {actions : List Action}
    (played : t.playAll actions = .ok t') :
    ∃ f', t'.Shows f' ∧ f'.Sound ∧ actions.length + f'.weight ≤ f.weight := by
  induction actions generalizing t f with
  | nil =>
    obtain rfl := Except.ok.inj played
    exact ⟨f, h, sound, by simp⟩
  | cons a actions ih =>
    rw [playAll, List.foldlM_cons] at played
    obtain ⟨u, first, rest⟩ := bind_eq_ok.1 played
    obtain ⟨g, shown, soundG, less⟩ := h.weight_play_lt sound first
    obtain ⟨f', shows', sound', bound⟩ := ih shown soundG rest
    refine ⟨f', shows', sound', ?_⟩
    rw [List.length_cons]
    omega

/-- The weight of the flat account is below the bound on plays. -/
theorem Shows.weight_lt_playsLeft (h : t.Shows f) (sound : f.Sound) : f.weight < t.playsLeft := by
  have answers := h.answers sound
  have seats : t.ledger.rows.length = f.seats.length := by rw [answers.rows, List.length_map]
  have digit := Flat.digits_lt (y := 0) (Nat.lt_succ_self (f.street.left + f.behind))
    (Flat.pace_lt sound)
  rw [playsLeft, answers.chipsBehind_eq, seats, answers.street]
  exact digit

/-- A played table shows a sound flat account. -/
theorem Played.shows (h : t.Played) : ∃ f, t.Shows f ∧ f.Sound := by
  obtain ⟨s, t₀, actions, start, played⟩ := h
  obtain ⟨shows₀, sound₀⟩ := ofSnapshot_shows start
  obtain ⟨f, shown, sound, _⟩ := shows₀.length_playAll_le sound₀ played
  exact ⟨f, shown, sound⟩

/-- A table is accessible by plays if it shows a flat table. -/
theorem Shows.acc (h : t.Shows f) (sound : f.Sound) :
    Acc (fun t' t : Table => ∃ a, t.play a = .ok t') t := by
  -- tables know no weight, so the induction is on that of the flat table they show
  induction weight : f.weight using Nat.strong_induction_on generalizing t f with
  | _ n ih =>
    constructor
    rintro t' ⟨a, played⟩
    obtain ⟨f', shown, sound', less⟩ := h.weight_play_lt sound played
    exact ih f'.weight (weight ▸ less) shown sound' rfl

/-- Playing is well-founded on the tables reached from accepted snapshots; from no accepted snapshot
is there an infinite sequence of plays, and no run of them has as many as the bound allows for. The
loop that closes a round is the one without a bound on its iterations, it is well-founded at all
tables, and it never asks for the street after the showdown. -/
theorem hands_end :
    WellFounded (fun t' t : { t : Table // t.Played } => ∃ a, t.1.play a = .ok t'.1) ∧
      (∀ s t₀, Table.ofSnapshot s = .ok t₀ →
        ¬ ∃ ts : Nat → Table, ts 0 = t₀ ∧ ∀ n, ∃ a, (ts n).play a = .ok (ts (n + 1))) ∧
      (∀ s t₀ actions t, Table.ofSnapshot s = .ok t₀ → t₀.playAll actions = .ok t →
        actions.length < t₀.playsLeft) ∧
      (∀ t : Table, t.close =
        if t.isHandOver || !t.isRoundOver then .ok t
        else (t.street.next >>= fun street => t.applyRound street Hand.empty >>= close)) ∧
      WellFounded (fun t' t : Table => t.Closing t') ∧
      (∀ t : Table, t.isHandOver = false → ∃ street, t.street.next = .ok street) ∧
      ∀ t : Table, t.close ≠ .error (.fault .terminal) := by
  refine ⟨⟨?_⟩, ?_, ?_, close_eq, wellFounded_closing, ?_, close_ne_terminal⟩
  · intro t
    obtain ⟨f, shown, sound⟩ := t.2.shows
    exact InvImage.accessible Subtype.val (shown.acc sound)
  · intro s t₀ start endless
    obtain ⟨shows₀, sound₀⟩ := ofSnapshot_shows start
    exact not_acc_iff_exists_descending_chain.2 endless (shows₀.acc sound₀)
  · intro s t₀ actions t start played
    obtain ⟨shows₀, sound₀⟩ := ofSnapshot_shows start
    obtain ⟨_, _, _, bound⟩ := shows₀.length_playAll_le sound₀ played
    exact Nat.lt_of_le_of_lt (Nat.le_trans (Nat.le_add_right _ _) bound)
      (shows₀.weight_lt_playsLeft sound₀)
  · intro t running
    obtain ⟨street, _, follows⟩ := exists_next_street running
    exact ⟨street, follows⟩

/-- A hand of two players in which everything is called and checked. -/
theorem hands_end_headsUp : ∃ t₀ t, Table.ofSnapshot (.headsUp 5) = .ok t₀ ∧
    t₀.playAll [.call 1, .check, .check, .check, .check, .check, .check, .check] = .ok t ∧
    t.isHandOver = true ∧ 8 < t₀.playsLeft := by
  have dealt : ∃ t₀ t, Table.ofSnapshot (.headsUp 5) = .ok t₀ ∧
      t₀.playAll [.call 1, .check, .check, .check, .check, .check, .check, .check] = .ok t ∧
      t.isHandOver = true :=
    ⟨_, _, rfl, rfl, rfl⟩
  obtain ⟨t₀, t, start, played, ended⟩ := dealt
  exact ⟨t₀, t, start, played, ended, hands_end.2.2.1 _ _ _ _ start played⟩

end Table

end Holdem
