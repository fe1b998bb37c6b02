import Holdem.Proofs.Search.Children
import Holdem.Proofs.Search.Expansion
import Holdem.Search.Decision

/-!
# Trees as they are expanded

Expanding a node gives it a value and leaves the rest of it alone. The same is true of all nodes
that are found below it: a choice that is not cut for want of time has the children that its own
seed draws, each of them expanded in turn. So what is to be known of a tree is known of each of its
nodes by itself.
-/

set_option autoImplicit false

namespace Holdem

variable {α : Type}

/-- The node as it was before it was expanded. -/
def Node.bare : Node α → Node α
  | .choice here _ => .choice { here with value := none, expired := false } []
  | .leaf here => .leaf { here with value := none }

/-- The child as it was before it was expanded. -/
def Child.bare (child : Child α) : Child α := .mk child.edge child.node.bare

/-- Baring a child keeps its edge. -/
@[simp] theorem Child.edge_bare (child : Child α) : child.bare.edge = child.edge := rfl

/-- A bared child has the bared node. -/
@[simp] theorem Child.node_bare (child : Child α) : child.bare.node = child.node.bare := rfl

namespace Node

/-- A root is bare. -/
@[simp] theorem bare_root (t : Table) (tokens : Nat) (seed : UInt64) :
    (root t tokens seed : Node α).bare = root t tokens seed := rfl

/-- The node of a table is bare. -/
@[simp] theorem bare_ofTable (p : Player) (t : Table) (tokens : Nat) (seed : UInt64) :
    (ofTable p t tokens seed : Node α).bare = ofTable p t tokens seed := by
  unfold ofTable
  cases endingAt p t tokens <;> rfl

/-- Baring a node keeps its table. -/
@[simp] theorem table_bare (n : Node α) : n.bare.table = n.table := by cases n <;> rfl

/-- Baring a node keeps how it ends. -/
@[simp] theorem ending_bare (n : Node α) : n.bare.ending = n.ending := by cases n <;> rfl

/-- A bare node has no value. -/
theorem value_of_bare {n : Node α} (bare : n.bare = n) : n.value = none := by
  rw [← bare]
  cases n <;> rfl

/-- The value of a valued node can be read. -/
theorem readValue_of_value {n : Node α} {value : α} (valued : n.value = some value) :
    n.readValue = .ok value := by
  rw [readValue, valued]

/-- Reading the value of an unvalued node is a defect. -/
theorem readValue_of_unvalued {n : Node α} (unvalued : n.value = none) :
    n.readValue = .error (.defect .unexpanded) := by
  rw [readValue, unvalued]

variable {σ : Type} [SeededSource σ] [Scalar α]

/-- An expanded node: a leaf with its value, a choice that was cut for want of time, or a choice
whose children are those it makes, expanded or not. -/
inductive Expanded (ctx : Context σ α) : Node α → Prop
  | leaf {l : Leaf α} (valued : l.value.isSome = true) : Expanded ctx (.leaf l)
  | cut {c : Choice α} (valued : c.value.isSome = true) (expired : c.expired = true)
      (late : ctx.late c.table = true) : Expanded ctx (.choice c [])
  | split {c : Choice α} {children : List (Child α)} (valued : c.value.isSome = true)
      (kept : c.expired = false) (time : ctx.late c.table = false)
      (made : c.freshChildren ctx = .ok (children.map Child.bare)) :
      Expanded ctx (.choice c children)

/-- A bare node is expanded to a value, and so are the nodes below it. -/
structure Unfolds (ctx : Context σ α) (n : Node α) (value : α) (n' : Node α) : Prop where
  bare : n'.bare = n
  valued : n'.value = some value
  all : ∀ m, n'.Has m → m.Expanded ctx

variable {ctx : Context σ α}

/-- An expanded node has a value. -/
theorem Expanded.isSome_value {n : Node α} (expanded : n.Expanded ctx) : n.value.isSome = true := by
  cases expanded with
  | leaf valued => exact valued
  | cut valued => exact valued
  | split valued => exact valued

/-- An expanded choice was cut for want of time and has no children, or its children are those it
makes. -/
theorem Expanded.eq_nil_or_splits {c : Choice α} {children : List (Child α)}
    (expanded : (choice c children).Expanded ctx) :
    children = [] ∧ ctx.late c.table = true ∨
      c.Splits ctx (children.map Child.bare) ∧ ctx.late c.table = false := by
  cases expanded with
  | cut _ _ late => exact Or.inl ⟨rfl, late⟩
  | split _ _ time made => exact Or.inr ⟨Choice.splits_of_freshChildren made, time⟩

/-- The node of a child is expanded from that of the table that its action leads to. -/
theorem Expanded.plays {n : Node α} (expanded : n.Expanded ctx) {child : Child α}
    (mem : child ∈ n.children) : ∃ u seed, n.table.play child.edge.action = .ok u ∧
      child.node.bare = ofTable ctx.bot u child.edge.tokens seed := by
  cases n with
  | leaf l => exact absurd mem List.not_mem_nil
  | choice c children =>
    rcases expanded.eq_nil_or_splits with ⟨rfl, _⟩ | ⟨splits, _⟩
    · exact absurd mem List.not_mem_nil
    · exact splits.plays child.bare (List.mem_map_of_mem mem)

/-- Growing bare children leaves them as they were, once what was grown is taken off. -/
theorem Grown.map_bare {fresh grown : List (Child α)} {values : List α}
    (grows : Grown (Unfolds ctx) fresh values grown) : grown.map Child.bare = fresh := by
  induction grows with
  | nil => rfl
  | cons first rest ih =>
    rw [List.map_cons, ih, Child.bare]
    exact congrArg (fun node => Child.mk _ node :: _) first.bare

/-- Whatever a bare node is expanded to, however many choices may be above one another, it is
unfolded. -/
theorem within_unfolds (ctx : Context σ α) {n : Node α} (bare : n.bare = n) (depth : Nat) :
    Outcome.Within (fun _ => True) (fun value => Unfolds ctx n value (n.expandWithin ctx depth).2)
      (n.expandWithin ctx depth).1 := by
  -- how expanding can fail does not matter here, only what it gives when it does not
  refine within_expandWithin (I := fun _ n => n.bare = n) (fun _ _ bare => value_of_bare bare)
    (fun _ _ _ => trivial) ?leaf ?cut ?split bare
  case leaf =>
    intro _ l bare
    refine (Outcome.within_any _).mono (fun _ => id) (fun value _ => ⟨bare, rfl, fun m below => ?_⟩)
    obtain rfl := below.eq_leaf
    exact .leaf rfl
  case cut =>
    intro _ c children bare late
    obtain rfl : [] = children := (Node.choice.inj bare).2
    refine (Outcome.within_any _).mono (fun _ => id) (fun value _ => ⟨bare, rfl, fun m below => ?_⟩)
    obtain rfl | ⟨child, mem, _⟩ := below.cases_choice
    · exact .cut rfl rfl late
    · exact absurd mem List.not_mem_nil
  case split =>
    intro _ c children bare time
    obtain rfl : [] = children := (Node.choice.inj bare).2
    have kept : c.expired = false := congrArg Choice.expired (Node.choice.inj bare).1.symm
    refine (Outcome.within_any _).mono (fun _ => id) (fun fresh made => ⟨?_, ?_⟩)
    · intro child mem
      obtain ⟨u, seed, _, node⟩ := (Choice.splits_of_freshChildren made).plays child mem
      rw [node, bare_ofTable]
    · intro values grown grows
      refine (Outcome.within_any _).mono (fun _ => id)
        (fun value _ => ⟨bare, rfl, fun m below => ?_⟩)
      obtain rfl | ⟨child, mem, rest⟩ := below.cases_choice
      · refine .split rfl kept time ?_
        rw [grows.map_bare]
        exact made
      · obtain ⟨_, _, unfolds⟩ := grows.exists_of_mem_children mem
        exact unfolds.all m rest

/-- Every node of an expanded tree is expanded. -/
theorem unfolds_expand {n tree : Node α} {value : α} (bare : n.bare = n)
    (expanded : n.expand ctx = (.ok value, tree)) : Unfolds ctx n value tree := by
  have unfolds := within_unfolds ctx bare (n.table.playsLeft + 1)
  have found : n.expandWithin ctx (n.table.playsLeft + 1) = (.ok value, tree) := expanded
  rw [found] at unfolds
  exact unfolds

end Node

/-- The tree of a search is unfolded from its root. -/
theorem Search.unfolds_tree {σ : Type} [SeededSource σ] [Scalar α] {s : Search σ α} {t : Table}
    {tokens : Nat} {root : Node α} (found : s.tree t tokens = .ok root) :
    ∃ value, Node.Unfolds s.context (.root t tokens s.seed) value root := by
  rw [tree] at found
  split at found
  · cases found
  · obtain ⟨value, ended, same⟩ := bind_eq_ok.1 found
    obtain rfl := Except.ok.inj same
    exact ⟨value, Node.unfolds_expand rfl (Prod.ext ended rfl)⟩

end Holdem
