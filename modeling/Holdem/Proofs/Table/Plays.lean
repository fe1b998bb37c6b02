import Holdem.Proofs.Table.Playing

/-!
# Plays are runs

Whatever is reached by playing is reached by a run of events: the moves that were chosen, the turns
that passed, and the streets that began. On none of these streets is a card revealed, so a run of
plays leaves the board as it was.
-/

set_option autoImplicit false

namespace Holdem

/-- No event of a run reveals a card. -/
def Blind (events : List Event) : Prop :=
  ∀ street cards, Event.round street cards ∈ events → cards = Hand.empty

/-- Two runs that reveal no card reveal none one after the other. -/
theorem Blind.append {before after : List Event} (first : Blind before) (second : Blind after) :
    Blind (before ++ after) := by
  intro street cards mem
  exact (List.mem_append.1 mem).elim (first street cards) (second street cards)

namespace Table

variable {t t' u : Table}

/-- A run goes on from where another ended. -/
theorem run_append {before after : List Event} (first : t.run before = .ok u)
    (second : u.run after = .ok t') : t.run (before ++ after) = .ok t' := by
  rw [run, List.foldlM_append]
  exact bind_eq_ok.2 ⟨u, first, second⟩

/-- One event that is accepted is a run. -/
theorem run_single {e : Event} (applied : t.apply e = .ok t') : t.run [e] = .ok t' := by
  rw [run, List.foldlM_cons]
  exact bind_eq_ok.2 ⟨t', applied, rfl⟩

/-- Closing a round is a run of streets on which nothing is revealed. -/
theorem exists_run_of_closings (steps : Relation.ReflTransGen Closing t t') :
    ∃ events, t.run events = .ok t' ∧ Blind events := by
  induction steps with
  | refl => exact ⟨[], rfl, fun _ _ mem => absurd mem List.not_mem_nil⟩
  | tail _ step ih =>
    obtain ⟨events, ran, blind⟩ := ih
    obtain ⟨_, _, street, _, applied⟩ := step
    have last := run_single (e := .round street Hand.empty) applied
    refine ⟨events ++ [.round street Hand.empty], run_append ran last, ?_⟩
    refine Blind.append blind (fun street' cards mem => ?_)
    obtain ⟨-, rfl⟩ := Event.round.inj (List.mem_singleton.1 mem)
    rfl

/-- A played action is a run of events that reveals no card. -/
theorem exists_run_of_play {a : Action} (played : t.play a = .ok t') :
    ∃ events, t.run events = .ok t' ∧ Blind events := by
  obtain ⟨p, moved, _, _, accepted, rest⟩ := play_eq_ok.1 played
  have first := run_single accepted
  have move : Blind [a.event p] := by
    intro street cards mem
    exact absurd (List.mem_singleton.1 mem) (by simp [Action.event])
  rcases rest with ⟨_, closed⟩ | ⟨_, q, _, passed⟩
  · obtain ⟨events, ran, blind⟩ := exists_run_of_closings (closings_of_close closed).1
    exact ⟨_, run_append first ran, Blind.append move blind⟩
  · refine ⟨_, run_append first (run_single passed), Blind.append move ?_⟩
    intro street cards mem
    exact absurd (List.mem_singleton.1 mem) (by simp)

/-- Whatever is reached by playing is reached by a run that reveals nothing. -/
theorem exists_run_of_playAll {actions : List Action} (played : t.playAll actions = .ok t') :
    ∃ events, t.run events = .ok t' ∧ Blind events := by
  induction actions generalizing t with
  | nil =>
    obtain rfl := Except.ok.inj played
    exact ⟨[], rfl, fun _ _ mem => absurd mem List.not_mem_nil⟩
  | cons a actions ih =>
    rw [playAll, List.foldlM_cons] at played
    obtain ⟨u, first, rest⟩ := bind_eq_ok.1 played
    obtain ⟨events, ran, blind⟩ := exists_run_of_play first
    obtain ⟨events', ran', blind'⟩ := ih rest
    exact ⟨_, run_append ran ran', Blind.append blind blind'⟩

/-- Some actions lead from one table to another. -/
def LeadsTo (t u : Table) : Prop := ∃ actions, t.playAll actions = .ok u

/-- A table leads to itself. -/
theorem LeadsTo.refl (t : Table) : t.LeadsTo t := ⟨[], rfl⟩

/-- Leading from one table to another is transitive. -/
theorem LeadsTo.trans (first : t.LeadsTo u) (second : u.LeadsTo t') : t.LeadsTo t' := by
  obtain ⟨actions, played⟩ := first
  obtain ⟨actions', played'⟩ := second
  refine ⟨actions ++ actions', ?_⟩
  rw [playAll, List.foldlM_append]
  exact bind_eq_ok.2 ⟨u, played, played'⟩

/-- A played action leads on. -/
theorem LeadsTo.play {a : Action} (leads : t.LeadsTo u) (played : u.play a = .ok t') :
    t.LeadsTo t' := by
  refine leads.trans ⟨[a], ?_⟩
  rw [playAll, List.foldlM_cons]
  exact bind_eq_ok.2 ⟨t', played, rfl⟩

/-- Wherever play leads, there is a run of the flat table that reveals nothing. -/
theorem Shows.leadsTo {f : Flat} (h : t.Shows f) (sound : f.Sound) (leads : t.LeadsTo u) :
    ∃ events g, f.run events = some g ∧ Blind events ∧ u.Shows g ∧ g.Sound := by
  obtain ⟨actions, played⟩ := leads
  obtain ⟨events, ran, blind⟩ := exists_run_of_playAll played
  obtain ⟨g, flatRan, shown, sound'⟩ := (h.run_agrees sound events).exists_some ran
  exact ⟨events, g, flatRan, blind, shown, sound'⟩

/-- What every played action keeps of the flat table that is shown is kept by all of them. -/
theorem Shows.playAll_invariant {P : Flat → Prop} {f : Flat}
    (step : ∀ {t t' : Table} {f : Flat} {a : Action}, t.Shows f → f.Sound → P f →
      t.play a = .ok t' → ∃ f', t'.Shows f' ∧ f'.Sound ∧ P f')
    (h : t.Shows f) (sound : f.Sound) (holds : P f) {actions : List Action}
    (played : t.playAll actions = .ok t') : ∃ f', t'.Shows f' ∧ f'.Sound ∧ P f' := by
  induction actions generalizing t f with
  | nil =>
    obtain rfl := Except.ok.inj played
    exact ⟨f, h, sound, holds⟩
  | cons a actions ih =>
    rw [playAll, List.foldlM_cons] at played
    obtain ⟨u, first, rest⟩ := bind_eq_ok.1 played
    obtain ⟨g, shown, sound', holds'⟩ := step h sound holds first
    exact ih shown sound' holds' rest

end Table

end Holdem
