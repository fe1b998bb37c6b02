import Holdem.Proofs.Within
import Holdem.Search.Node

/-!
# How a tree grows

What is to be shown of an expanded node is shown of leaves, of choices that are cut for want of
time, and of choices whose children have it. From these three it follows for the whole tree, by
induction on the choices that can still be above one another.
-/

set_option autoImplicit false

namespace Holdem

namespace Node

/-- The node itself, or one below it. -/
inductive Has {α : Type} : Node α → Node α → Prop
  | self (n : Node α) : n.Has n
  | under {n m : Node α} {child : Child α} (mem : child ∈ n.children) (rest : child.node.Has m) :
      n.Has m

/-- What is below a choice is below one of its children. -/
theorem Has.cases_choice {α : Type} {c : Choice α} {children : List (Child α)} {m : Node α}
    (below : (choice c children).Has m) :
    m = choice c children ∨ ∃ child ∈ children, child.node.Has m := by
  cases below with
  | self => exact Or.inl rfl
  | under mem rest => exact Or.inr ⟨_, mem, rest⟩

/-- The only node below a leaf is the leaf. -/
theorem Has.eq_leaf {α : Type} {l : Leaf α} {m : Node α} (below : (leaf l).Has m) :
    m = leaf l := by
  cases below with
  | self => rfl
  | under mem _ => exact absurd mem List.not_mem_nil

/-- The node of a table has that table. -/
@[simp]
theorem table_ofTable {α : Type} (p : Player) (t : Table) (tokens : Nat) (seed : UInt64) :
    (ofTable p t tokens seed : Node α).table = t := by
  unfold ofTable
  cases endingAt p t tokens <;> rfl

/-! ## What is shown of a whole tree -/

section

variable {α : Type} {Q : Node α → α → Node α → Prop} {F : Failure → Prop}

/-- Some children, the values they are expanded to, and the expanded children; `Q` relates a node,
its value and the expanded node. -/
inductive Grown (Q : Node α → α → Node α → Prop) :
    List (Child α) → List α → List (Child α) → Prop
  | nil : Grown Q [] [] []
  | cons {edge : Edge α} {node node' : Node α} {value : α} {fresh children : List (Child α)}
      {values : List α} (first : Q node value node') (rest : Grown Q fresh values children) :
      Grown Q (.mk edge node :: fresh) (value :: values) (.mk edge node' :: children)

variable {fresh children : List (Child α)} {values : List α}

/-- Growing children keeps their edges. -/
theorem Grown.map_edge (grown : Grown Q fresh values children) :
    children.map Child.edge = fresh.map Child.edge := by
  induction grown with
  | nil => rfl
  | cons _ _ ih => exact congrArg (List.cons _) ih

/-- Growing children values each of them. -/
theorem Grown.length_values (grown : Grown Q fresh values children) :
    values.length = fresh.length := by
  induction grown with
  | nil => rfl
  | cons _ _ ih => exact congrArg Nat.succ ih

/-- A value is that of some grown child. -/
theorem Grown.exists_of_mem_values (grown : Grown Q fresh values children) {value : α}
    (mem : value ∈ values) : ∃ child ∈ fresh, ∃ n', Q child.node value n' := by
  induction grown with
  | nil => exact absurd mem List.not_mem_nil
  | cons first rest ih =>
    rcases List.mem_cons.1 mem with rfl | mem
    · exact ⟨_, List.mem_cons_self, _, first⟩
    · obtain ⟨child, later, origin⟩ := ih mem
      exact ⟨child, List.mem_cons_of_mem _ later, origin⟩

/-- Each child is grown to some value. -/
theorem Grown.exists_of_mem_fresh (grown : Grown Q fresh values children) {child : Child α}
    (mem : child ∈ fresh) : ∃ value ∈ values, ∃ n', Q child.node value n' := by
  induction grown with
  | nil => exact absurd mem List.not_mem_nil
  | cons first rest ih =>
    rcases List.mem_cons.1 mem with rfl | mem
    · exact ⟨_, List.mem_cons_self, _, first⟩
    · obtain ⟨value, later, origin⟩ := ih mem
      exact ⟨value, List.mem_cons_of_mem _ later, origin⟩

/-- Every child that is left was grown. -/
theorem Grown.exists_of_mem_children (grown : Grown Q fresh values children) {child : Child α}
    (mem : child ∈ children) : ∃ n value, Q n value child.node := by
  induction grown with
  | nil => exact absurd mem List.not_mem_nil
  | cons first rest ih =>
    rcases List.mem_cons.1 mem with rfl | mem
    · exact ⟨_, _, first⟩
    · exact ih mem

/-- Children are grown one by one, and the first that fails decides how the expansion fails. -/
theorem within_expandChildren {expand : Node α → Outcome α × Node α}
    (each : ∀ child ∈ fresh,
      Outcome.Within F (fun value => Q child.node value (expand child.node).2)
        (expand child.node).1) :
    Outcome.Within F (fun values => Grown Q fresh values (expandChildren expand fresh).2)
      (expandChildren expand fresh).1 := by
  induction fresh with
  | nil => exact .nil
  | cons child fresh ih =>
    obtain ⟨edge, node⟩ := child
    have first := each _ List.mem_cons_self
    have rest := ih (fun child mem => each child (List.mem_cons_of_mem _ mem))
    simp only [Child.node] at first
    rw [expandChildren]
    generalize expand node = ended at first ⊢
    generalize expandChildren expand fresh = others at rest ⊢
    rcases ended with ⟨_ | value, node'⟩
    · exact first
    · rcases others with ⟨_ | values, children⟩
      · exact rest
      · exact .cons first rest

end

variable {σ α : Type} [SeededSource σ] [Scalar α] {Q : Node α → α → Node α → Prop}
  {F : Failure → Prop} {ctx : Context σ α} {I : Nat → Node α → Prop}

/-- What holds of nodes before they are expanded, together with what is shown of each sort of node,
holds of the expanded tree. The nodes `I n` have at most `n` choices above one another. -/
theorem within_expandWithin
    (unexpanded : ∀ depth n, I depth n → n.value = none)
    (deep : ∀ here children, I 0 (.choice here children) → F (.defect .unexpanded))
    (leaf : ∀ depth l, I depth (.leaf l) →
      Outcome.Within F (fun value => Q (.leaf l) value (.leaf { l with value := some value }))
        (l.resolve ctx))
    (cut : ∀ depth c children, I (depth + 1) (.choice c children) → ctx.late c.table = true →
      Outcome.Within F (fun value => Q (.choice c children) value
        (.choice { c with value := some value, expired := true } children)) (c.neutral ctx))
    (split : ∀ depth c children, I (depth + 1) (.choice c children) → ctx.late c.table = false →
      Outcome.Within F (fun fresh => (∀ child ∈ fresh, I depth child.node) ∧
        ∀ values grown, Grown Q fresh values grown →
          Outcome.Within F (fun value => Q (.choice c children) value
            (.choice { c with value := some value } grown)) (c.combine grown values))
        (c.freshChildren ctx))
    {depth : Nat} {n : Node α} (ready : I depth n) :
    Outcome.Within F (fun value => Q n value (n.expandWithin ctx depth).2)
      (n.expandWithin ctx depth).1 := by
  have leaves : ∀ depth l, I depth (.leaf l) → Outcome.Within F
      (fun value => Q (.leaf l) value (.leaf (l.expand ctx).2)) (l.expand ctx).1 := by
    intro depth l ready
    have resolved := leaf depth l ready
    have none : l.value = none := unexpanded depth _ ready
    unfold Leaf.expand
    rw [none]
    generalize l.resolve ctx = value at resolved ⊢
    cases value <;> exact resolved
  -- the children have at most one choice less above one another
  induction depth generalizing n with
  | zero =>
    cases n with
    | leaf l =>
      unfold expandWithin
      exact leaves 0 l ready
    | choice c children =>
      have none : c.value = none := unexpanded _ _ ready
      unfold expandWithin
      simp only [none]
      exact deep c children ready
  | succ depth ih =>
    cases n with
    | leaf l =>
      unfold expandWithin
      exact leaves _ l ready
    | choice c children =>
      have none : c.value = none := unexpanded _ _ ready
      unfold expandWithin
      simp only [none]
      split
      · have cut := cut depth c children ready ‹_›
        generalize c.neutral ctx = value at cut ⊢
        cases value <;> exact cut
      · have split := split depth c children ready (Bool.eq_false_iff.2 ‹_›)
        generalize c.freshChildren ctx = fresh at split ⊢
        cases fresh with
        | error e => exact split
        | ok fresh =>
          obtain ⟨later, combined⟩ := split
          have grows := within_expandChildren (fun child mem => ih (later child mem))
          dsimp only
          generalize expandChildren (expandWithin ctx depth) fresh = ended at grows ⊢
          obtain ⟨_ | values, grown⟩ := ended
          · exact grows
          · have combined := combined values grown grows
            dsimp only
            generalize c.combine grown values = value at combined ⊢
            cases value <;> exact combined

end Node

end Holdem
