import Holdem.Opponent.Book
import Holdem.Proofs.Scalar
import Holdem.Proofs.Table.Playing

/-!
# What the models share

Models are given to players, taken from them, and learn from what is seen of their players. The
model a player has of their own follows from the entries that name that player
(`Book.model?_enter`, and over a whole history `Book.model?_after`). So what is seen of one player
leaves the replies of all others as they are, as soon as one of the two has a model of their own,
or the model that answers for the rest learns nothing (`Book.replies_separate`). Two players
without a model of their own are one player to a fallback that learns
(`Book.fallback_learns_of_both`).
-/

set_option autoImplicit false

namespace Holdem

/-- An entry in the history of a book. -/
inductive Entry (α : Type) where
  /-- A player gets a model of their own, in place of any other. -/
  | insert (p : Player) (m : Model α)
  | remove (p : Player)
  | observe (e : Event)

/-- The model of their own that a player has after an entry, from the one they had before. -/
def Entry.own {α : Type} (q : Player) (had : Option (Model α)) : Entry α → Option (Model α)
  | .insert p m => if p = q then some m else had
  | .remove p => if p = q then none else had
  | .observe (.move p m) => if p = q then had.map (·.observe m) else had
  | .observe (.turn _) | .observe (.round _ _) => had

/-- Observing a move keeps whether a model keeps a tally. -/
theorem Model.tally?_observe_isSome {α : Type} (m : Model α) (move : Move) :
    (m.observe move).tally?.isSome = m.tally?.isSome := by
  cases m <;> rfl

/-- A model without a tally takes no notice of what it is shown. -/
theorem Model.observe_of_tally?_none {α : Type} {m : Model α} (plain : m.tally? = none)
    (move : Move) : m.observe move = m := by
  cases m with
  | habits tally => simp [Model.tally?] at plain
  | uniform => rfl
  | rule answer => rfl

namespace Book

section Entries

variable {α : Type}

/-- The book after an entry. -/
def enter (b : Book α) : Entry α → Book α
  | .insert p m => b.insert p m
  | .remove p => b.remove p
  | .observe e => b.observe e

/-- The book after a history. -/
def after (b : Book α) (history : List (Entry α)) : Book α := history.foldl enter b

/-- Dropping the entries of some keys leaves the others to be found as before. -/
theorem lookup_filter_key (keep : Player → Bool) (q : Player) (l : List (Player × Model α)) :
    (l.filter (fun e => keep e.1)).lookup q = if keep q then l.lookup q else none := by
  induction l with
  | nil => simp
  | cons e l ih =>
    obtain ⟨r, m⟩ := e
    by_cases here : q = r
    · subst here
      cases kept : keep q <;> simp [ih, kept]
    · have apart : (q == r) = false := beq_eq_false_iff_ne.2 here
      cases kept : keep r <;> simp [List.lookup_cons, ih, kept, apart]

/-- Removing a player's model takes it from that player only. -/
@[simp] theorem model?_remove (b : Book α) (p q : Player) :
    (b.remove p).model? q = if p = q then none else b.model? q := by
  rw [model?, remove, lookup_filter_key (· != p), model?]
  by_cases here : p = q <;> simp [here, Ne.symm]

/-- Inserting a model gives it to that player only. -/
@[simp] theorem model?_insert (b : Book α) (p q : Player) (m : Model α) :
    (b.insert p m).model? q = if p = q then some m else b.model? q := by
  have rest := b.model?_remove p q
  by_cases here : p = q
  · subst here
    simp [insert, model?]
  · simp only [model?, if_neg here] at rest
    have apart : (q == p) = false := beq_eq_false_iff_ne.2 (Ne.symm here)
    simp [insert, model?, List.lookup_cons, rest, here, apart]

/-- An entry changes the model of a player as its own part of the book says. -/
theorem model?_enter (b : Book α) (e : Entry α) (q : Player) :
    (b.enter e).model? q = e.own q (b.model? q) := by
  match e with
  | .insert p m => simp [enter, Entry.own]
  | .remove p => simp [enter, Entry.own]
  | .observe (.turn _) => rfl
  | .observe (.round _ _) => rfl
  | .observe (.move p m) =>
    by_cases here : p = q
    · subst here
      cases has : b.model? p <;> simp [enter, observe, Entry.own, has]
      exact has
    · cases has : b.model? p <;> simp [enter, observe, Entry.own, has, here]
      rfl

/-- The model a player has of their own is what the entries that name the player make it. -/
theorem model?_after (b : Book α) (history : List (Entry α)) (q : Player) :
    (b.after history).model? q = history.foldl (Entry.own q) (b.model? q) := by
  induction history generalizing b with
  | nil => rfl
  | cons e history ih =>
    simp only [after, List.foldl_cons] at ih ⊢
    rw [ih, model?_enter]

/-- The fallback never begins to learn, and never stops. -/
theorem tally?_fallback_after (b : Book α) (history : List (Entry α)) :
    (b.after history).fallback.tally?.isSome = b.fallback.tally?.isSome := by
  induction history generalizing b with
  | nil => rfl
  | cons e history ih =>
    have step : (b.enter e).fallback.tally?.isSome = b.fallback.tally?.isSome := by
      match e with
      | .insert _ _ | .remove _ | .observe (.turn _) | .observe (.round _ _) => rfl
      | .observe (.move p m) =>
        simp only [enter, observe]
        cases b.model? p with
        | some own => rfl
        | none => exact b.fallback.tally?_observe_isSome m
    exact (ih _).trans step

variable {b : Book α} {p q : Player}

/-- A stranger is answered by the fallback. -/
theorem model_eq_fallback (stranger : b.model? q = none) : b.model q = b.fallback := by
  rw [model, stranger, Option.getD_none]

/-- What is seen of a player with a model changes no other player's. -/
theorem model_observe_of_bound (other : q ≠ p) (bound : (b.model? p).isSome) (m : Move) :
    (b.observe (.move p m)).model q = b.model q := by
  obtain ⟨own, has⟩ := Option.isSome_iff_exists.1 bound
  simp [model, observe, has, other.symm]
  rfl

/-- What is seen of another player does not change the model a player has. -/
theorem model_observe_of_own (other : q ≠ p) (bound : (b.model? q).isSome) (m : Move) :
    (b.observe (.move p m)).model q = b.model q := by
  obtain ⟨own, has⟩ := Option.isSome_iff_exists.1 bound
  have kept := b.model?_enter (.observe (.move p m)) q
  simp only [enter, Entry.own, if_neg other.symm, has] at kept
  simp [model, kept, has]

/-- What is seen of a player without a model goes to the fallback, for all such players. -/
theorem model_observe_of_strangers (seen : b.model? p = none) (asked : b.model? q = none)
    (m : Move) : (b.observe (.move p m)).model q = b.fallback.observe m := by
  have kept : (b.observe (.move p m)).model? q = none := by
    rw [observe, seen]
    exact asked
  rw [model_eq_fallback kept]
  simp [observe, seen]

/-- A fallback that does not learn keeps all players apart. -/
theorem model_observe_of_plain (other : q ≠ p) (plain : b.fallback.tally? = none) (m : Move) :
    (b.observe (.move p m)).model q = b.model q := by
  cases asked : b.model? q with
  | some own => exact model_observe_of_own other (by simp [asked]) m
  | none =>
    cases seen : b.model? p with
    | some own => exact model_observe_of_bound other (by simp [seen]) m
    | none =>
      rw [model_observe_of_strangers seen asked, model_eq_fallback asked,
        Model.observe_of_tally?_none plain]

end Entries

section Replies

variable {α : Type} [Scalar α]

/-- The replies of a player come from the model that answers for the player. -/
theorem replies_congr {b b' : Book α} {q : Player} (same : b'.model q = b.model q) (t : Table)
    (actions : List Action) : b'.replies q t actions = b.replies q t actions := by
  unfold replies
  rw [same]

/-- What players share in a book begun with a fallback. After any history, the model a player has
is made by the entries that name the player. What is seen of one player leaves the replies of
another unchanged if either has a model, or the fallback does not learn; otherwise it is recorded
in the tally that answers for both. -/
theorem replies_separate (fallback : Model α) (history : List (Entry α)) {p q : Player}
    (other : q ≠ p) (m : Move) :
    let b := Book.after { fallback := fallback } history
    let own := fun r => history.foldl (Entry.own r) none
    (∀ r, b.model r = (own r).getD b.fallback) ∧
    ((own p).isSome ∨ (own q).isSome ∨ fallback.tally? = none →
      ∀ t actions, (b.observe (.move p m)).replies q t actions = b.replies q t actions) ∧
    (own p = none → own q = none → fallback.tally?.isSome →
      ∃ tally, b.model p = .habits tally ∧ b.model q = .habits tally ∧
        (b.observe (.move p m)).model q = .habits (tally.record m.style)) := by
  intro b own
  have owns : ∀ r, b.model? r = own r := fun r => model?_after _ history r
  have learns : b.fallback.tally?.isSome = fallback.tally?.isSome :=
    tally?_fallback_after _ history
  refine ⟨fun r => by rw [model, owns], fun apart t actions => ?_, fun seen asked learner => ?_⟩
  · refine replies_congr ?_ t actions
    rcases apart with bound | bound | plain
    · exact model_observe_of_bound other (by rwa [owns]) m
    · exact model_observe_of_own other (by rwa [owns]) m
    · have none : b.fallback.tally? = none := by simpa [plain] using learns
      exact model_observe_of_plain other none m
  · rw [← owns] at seen asked
    rw [learner] at learns
    cases habits : b.fallback with
    | uniform => simp [habits, Model.tally?] at learns
    | rule answer => simp [habits, Model.tally?] at learns
    | habits tally =>
      refine ⟨tally, ?_, ?_, ?_⟩
      · rw [model_eq_fallback seen, habits]
      · rw [model_eq_fallback asked, habits]
      · rw [model_observe_of_strangers seen asked, habits, Model.observe]

/-- One of two players has a model of their own, the other is the fallback's: a fold of either
changes nothing for the other. -/
theorem replies_separate_headsUp :
    (⟨1⟩ : Player) ≠ ⟨0⟩ ∧ ∃ t, Table.ofSnapshot (.headsUp 0) = .ok t ∧
      let b := Book.after { fallback := (.habits {} : Model ℚ) } [.insert ⟨0⟩ (.habits {})]
      (b.observe (.move ⟨0⟩ .fold)).replies ⟨1⟩ t [.fold, .call 1] =
        b.replies ⟨1⟩ t [.fold, .call 1] := by
  have other : (⟨1⟩ : Player) ≠ ⟨0⟩ := by decide
  obtain ⟨-, apart, -⟩ :=
    replies_separate (.habits {} : Model ℚ) [.insert ⟨0⟩ (.habits {})] other .fold
  have start : ∃ t, Table.ofSnapshot (.headsUp 0) = .ok t := ⟨_, rfl⟩
  obtain ⟨t, start⟩ := start
  exact ⟨other, t, start, apart (.inl rfl) t _⟩

/-- Answers that are weights are made to sum to one. -/
theorem replies_of_weights {b : Book α} {q : Player} {t : Table} {actions : List Action}
    {values : List α}
    (answers : actions.mapM (fun a => (b.model q).probability q a t actions) = .ok values)
    (weights : areWeights values (Scalar.sum values) = true) :
    b.replies q t actions =
      .ok (actions.zipWith (fun a x => ⟨a, x / Scalar.sum values⟩) values) := by
  unfold replies
  rw [answers]
  exact if_pos weights

/-- Nobody has a model of their own: a fold of one player makes a fold of the other likelier. -/
theorem fallback_learns_of_both :
    ∃ t, Table.ofSnapshot (.headsUp 0) = .ok t ∧
      let b : Book ℚ := { fallback := .habits {} }
      b.replies ⟨1⟩ t [.fold, .call 1] = .ok [⟨.fold, 1 / 2⟩, ⟨.call 1, 1 / 2⟩] ∧
      (b.observe (.move ⟨0⟩ .fold)).replies ⟨1⟩ t [.fold, .call 1] =
        .ok [⟨.fold, 2 / 3⟩, ⟨.call 1, 1 / 3⟩] := by
  have start : ∃ t, Table.ofSnapshot (.headsUp 0) = .ok t := ⟨_, rfl⟩
  obtain ⟨t, start⟩ := start
  refine ⟨t, start, ?_, ?_⟩
  · have answers : [((1 : ℕ) : ℚ) / ((0 : ℕ) + (1 : ℕ) + (1 : ℕ)) / (1 : ℕ),
        ((1 : ℕ) : ℚ) / ((0 : ℕ) + (1 : ℕ) + (1 : ℕ)) / (1 : ℕ)] = [1 / 2, 1 / 2] := by norm_num
    refine Eq.trans (replies_of_weights (congrArg Except.ok answers) ?_) ?_
    · norm_num [areWeights, Scalar.sum_rat, Scalar.isFinite, Scalar.lt, Scalar.le, Scalar.ofNat]
    · norm_num [Scalar.sum_rat]
  · have answers : [((2 : ℕ) : ℚ) / ((0 : ℕ) + (2 : ℕ) + (1 : ℕ)) / (1 : ℕ),
        ((1 : ℕ) : ℚ) / ((0 : ℕ) + (2 : ℕ) + (1 : ℕ)) / (1 : ℕ)] = [2 / 3, 1 / 3] := by norm_num
    refine Eq.trans (replies_of_weights (congrArg Except.ok answers) ?_) ?_
    · norm_num [areWeights, Scalar.sum_rat, Scalar.isFinite, Scalar.lt, Scalar.le, Scalar.ofNat]
    · norm_num [Scalar.sum_rat]

end Replies

end Book

end Holdem
