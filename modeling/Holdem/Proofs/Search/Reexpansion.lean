import Holdem.Chance.Xoshiro
import Holdem.Proofs.Scalar
import Holdem.Proofs.Search.Growth
import Holdem.Proofs.Table.Cards

/-!
# Expanding a node again

A node that was expanded keeps its value, and expanding it again gives this value and leaves the
tree as it is, whatever the search knows by then. A node whose expansion failed has no value. What
was found of its children stays with it, but the next attempt makes them anew from the node's own
seed: so it comes to the same failure, and to the same remains.
-/

set_option autoImplicit false

namespace Holdem

namespace Node

variable {α : Type}

/-- What is left of a node whose expansion failed: a leaf as it was, and a choice as it was but for
its children. -/
inductive Remains : Node α → Node α → Prop
  | leaf (l : Leaf α) : Remains (.leaf l) (.leaf l)
  | choice (c : Choice α) (children left : List (Child α)) :
      Remains (.choice c children) (.choice c left)

/-- A failed expansion keeps the table of the node. -/
theorem Remains.table {n left : Node α} (remains : n.Remains left) : left.table = n.table := by
  cases remains <;> rfl

/-- A failed expansion keeps the value of the node. -/
theorem Remains.value {n left : Node α} (remains : n.Remains left) : left.value = n.value := by
  cases remains <;> rfl

variable {σ : Type} [SeededSource σ] [Scalar α] {ctx : Context σ α} {depth : Nat}

/-- A node with a value is not expanded any further. -/
theorem expandWithin_of_value {n : Node α} {value : α} (valued : n.value = some value)
    (ctx : Context σ α) (depth : Nat) : n.expandWithin ctx depth = (.ok value, n) := by
  cases n with
  | leaf l =>
    have valued : l.value = some value := valued
    unfold expandWithin Leaf.expand
    rw [valued]
  | choice c children =>
    have valued : c.value = some value := valued
    cases depth <;> simp only [expandWithin, valued]

/-- How the expansion of a choice without a value fails: its value for want of time cannot be found,
its children cannot be made, one of them fails, or their values cannot be combined. Only in the last
two cases are other children left than there were. -/
theorem expandWithin_choice_eq_error_iff {c : Choice α} {children : List (Child α)} {left : Node α}
    {failure : Failure} (unvalued : c.value = none) :
    (choice c children).expandWithin ctx (depth + 1) = (.error failure, left) ↔
      (ctx.late c.table = true ∧ c.neutral ctx = .error failure ∧ left = choice c children) ∨
      (ctx.late c.table = false ∧ c.freshChildren ctx = .error failure ∧ left = choice c children) ∨
      (ctx.late c.table = false ∧ ∃ fresh remaining, c.freshChildren ctx = .ok fresh ∧
        left = choice c remaining ∧
        (expandChildren (expandWithin ctx depth) fresh = (.error failure, remaining) ∨
          ∃ values, expandChildren (expandWithin ctx depth) fresh = (.ok values, remaining) ∧
            c.combine remaining values = .error failure)) := by
  simp only [expandWithin, unvalued]
  cases late : ctx.late c.table with
  | true =>
    cases cut : c.neutral ctx <;> simp [eq_comm (b := left)]
  | false =>
    cases made : c.freshChildren ctx with
    | error e => simp [eq_comm (b := left)]
    | ok fresh =>
      rcases grown : expandChildren (expandWithin ctx depth) fresh with ⟨ended, remaining⟩
      cases ended with
      | error e => simp [grown, eq_comm (b := left), and_comm]
      | ok values =>
        cases combined : c.combine remaining values <;>
          simp [grown, combined, eq_comm (b := left), and_comm]

/-- A failure leaves a node without a value, and its expansion fails on what is left in the same
way: nothing is read of the children that are left. -/
theorem expandWithin_of_failed {n left : Node α} {failure : Failure} (unvalued : n.value = none)
    (failed : n.expandWithin ctx depth = (.error failure, left)) :
    n.Remains left ∧ left.expandWithin ctx depth = (.error failure, left) := by
  cases n with
  | leaf l =>
    have unvalued : l.value = none := unvalued
    have kept : left = .leaf l := by
      unfold expandWithin Leaf.expand at failed
      rw [unvalued] at failed
      cases resolved : l.resolve ctx with
      | ok value => simp [resolved] at failed
      | error e => simpa [resolved, eq_comm] using (Prod.ext_iff.1 failed).2
    subst kept
    exact ⟨.leaf l, failed⟩
  | choice c children =>
    have unvalued : c.value = none := unvalued
    cases depth with
    | zero =>
      have kept : left = .choice c children := by
        simp only [expandWithin, unvalued] at failed
        exact (Prod.ext_iff.1 failed).2.symm
      subst kept
      exact ⟨.choice c children children, failed⟩
    | succ depth =>
      rw [expandWithin_choice_eq_error_iff unvalued] at failed
      obtain ⟨late, cut, rfl⟩ | ⟨time, made, rfl⟩ | ⟨time, fresh, remaining, made, rfl, ended⟩ :=
        failed
      · exact ⟨.choice c children children,
          (expandWithin_choice_eq_error_iff unvalued).2 (.inl ⟨late, cut, rfl⟩)⟩
      · exact ⟨.choice c children children,
          (expandWithin_choice_eq_error_iff unvalued).2 (.inr (.inl ⟨time, made, rfl⟩))⟩
      · exact ⟨.choice c children remaining, (expandWithin_choice_eq_error_iff unvalued).2
          (.inr (.inr ⟨time, fresh, remaining, made, rfl, ended⟩))⟩

/-- Expanding is all or nothing. Of a node that is new, whatever its table, tokens and seed: if it
is expanded to a value, it keeps this value, every node of its tree has one, and expanding it again
gives the same value and leaves the whole tree, whatever the search knows. If its expansion fails,
it still has no value, and expanding it again fails in the same way and leaves the same. -/
theorem expand_all_or_nothing {n : Node α} (new : n.bare = n) (ctx : Context σ α) :
    (∀ value tree, n.expand ctx = (.ok value, tree) →
      tree.readValue = .ok value ∧ (∀ m, tree.Has m → ∃ v, m.readValue = .ok v) ∧
        ∀ ctx' : Context σ α, tree.expand ctx' = (.ok value, tree)) ∧
    ∀ failure left, n.expand ctx = (.error failure, left) →
      left.readValue = .error (.defect .unexpanded) ∧
        left.expand ctx = (.error failure, left) := by
  constructor
  · intro value tree expanded
    have unfolds := unfolds_expand new expanded
    refine ⟨readValue_of_value unfolds.valued, fun m below => ?_,
      fun ctx' => expandWithin_of_value unfolds.valued ctx' _⟩
    obtain ⟨v, valued⟩ := Option.isSome_iff_exists.1 (unfolds.all m below).isSome_value
    exact ⟨v, readValue_of_value valued⟩
  · intro failure left failed
    have unvalued : n.value = none := value_of_bare new
    obtain ⟨remains, again⟩ := expandWithin_of_failed unvalued failed
    refine ⟨readValue_of_unvalued (remains.value.trans unvalued), ?_⟩
    rw [expand, remains.table]
    exact again

/-- Without tokens two aces are worth a stack at once. Of two unknown cards only the fold has a
value: the first attempt leaves it, the call that failed, and others that were not come to. -/
theorem expand_all_or_nothing_aces : ∃ (s : Search Xoshiro ℚ) (t t' : Table) (tree left : Node ℚ),
    s = .ofSettings ⟨0⟩ { trials := 1 } Judge.standard {} 1 ∧
    Table.ofSnapshot Table.aces = .ok t ∧ Table.ofSnapshot (.headsUp 5) = .ok t' ∧
    (root t 0 1).expand s.context = (.ok 10, tree) ∧ tree.readValue = .ok 10 ∧
    (∀ child ∈ tree.children, ∃ v, child.node.readValue = .ok v) ∧
    (∀ ctx' : Context Xoshiro ℚ, tree.expand ctx' = (.ok 10, tree)) ∧
    (root t' 0 1).expand s.context = (.error (.defect (.unknownHole ⟨0⟩)), left) ∧
    left.children.map (fun child => child.node.value) =
      [some 9, none, none, none, none, none, none] ∧
    left.readValue = .error (.defect .unexpanded) ∧
    left.expand s.context = (.error (.defect (.unknownHole ⟨0⟩)), left) := by
  have dealt : ∃ t t', Table.ofSnapshot Table.aces = .ok t ∧
      Table.ofSnapshot (.headsUp 5) = .ok t' ∧
      ((root t 0 1 : Node ℚ).expand (Search.ofSettings ⟨0⟩ { trials := 1 } Judge.standard {} 1 :
        Search Xoshiro ℚ).context).1 = .ok 10 ∧
      ((root t' 0 1 : Node ℚ).expand (Search.ofSettings ⟨0⟩ { trials := 1 } Judge.standard {} 1 :
        Search Xoshiro ℚ).context).1 = .error (.defect (.unknownHole ⟨0⟩)) ∧
      ((root t' 0 1 : Node ℚ).expand (Search.ofSettings ⟨0⟩ { trials := 1 } Judge.standard {} 1 :
        Search Xoshiro ℚ).context).2.children.map (fun child => child.node.value) =
          [some 9, none, none, none, none, none, none] :=
    ⟨_, _, rfl, rfl, by decide +kernel, by decide +kernel, by decide +kernel⟩
  obtain ⟨t, t', start, start', valued, failed, children⟩ := dealt
  obtain ⟨read, all, again⟩ := (expand_all_or_nothing (bare_root t 0 1) _).1 _ _
    (Prod.ext valued rfl)
  obtain ⟨unread, repeated⟩ :=
    (expand_all_or_nothing (bare_root t' 0 1) _).2 _ _ (Prod.ext failed rfl)
  exact ⟨_, t, t', _, _, rfl, start, start', Prod.ext valued rfl, read,
    fun child mem => all child.node (.under mem (.self _)), again, Prod.ext failed rfl, children,
    unread, repeated⟩

end Node

end Holdem
