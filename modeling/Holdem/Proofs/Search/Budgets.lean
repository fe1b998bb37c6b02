import Holdem.Chance.Xoshiro
import Holdem.Proofs.Scalar
import Holdem.Proofs.Search.Growth
import Holdem.Proofs.Search.Nodes

/-!
# Tokens run out

The children of a choice share its tokens, and none are made on the way: rounding down only loses
some. So the choices at one depth of a tree have together no more tokens than its root was given.
Below the root a choice has at least one token, for a table without any is a leaf; hence there are
no more choices at a depth than tokens. A choice that draws its children draws as often as its
tokens buy, unless it is cut for want of time.
-/

set_option autoImplicit false

namespace Holdem

section

variable {α : Type}

namespace Node

/-- The tokens at a node; a leaf has no use for any. -/
def tokens : Node α → Nat
  | choice here _ => here.tokens
  | leaf _ => 0

/-- The choices at a depth below a node. -/
def level : Nat → Node α → List (Choice α)
  | 0, choice here _ => [here]
  | 0, leaf _ => []
  | depth + 1, n => n.children.flatMap (fun child => child.node.level depth)

/-- Baring a node leaves its tokens as they are. -/
@[simp] theorem tokens_bare (n : Node α) : n.bare.tokens = n.tokens := by cases n <;> rfl

/-- A choice has the tokens that its table was given, and some. -/
theorem tokens_of_bare {bot : Player} {t : Table} {tokens : Nat} {seed : UInt64} {c : Choice α}
    {children : List (Child α)} (bare : (choice c children).bare = ofTable bot t tokens seed) :
    c.tokens = tokens ∧ tokens ≠ 0 := by
  unfold ofTable at bare
  cases ends : endingAt bot t tokens with
  | some ending =>
    rw [ends] at bare
    cases bare
  | none =>
    rw [ends] at bare
    exact ⟨congrArg Choice.tokens (Node.choice.inj bare).1, (endingAt_eq_none_iff.1 ends).2.2.2⟩

/-- The node of a table has at most the tokens it is given. -/
theorem tokens_ofTable_le (bot : Player) (t : Table) (tokens : Nat) (seed : UInt64) :
    (ofTable bot t tokens seed : Node α).tokens ≤ tokens := by
  unfold ofTable
  cases endingAt bot t tokens with
  | some ending => exact Nat.zero_le tokens
  | none => exact Nat.le_refl tokens

end Node

end

variable {σ α : Type} [Scalar α] {ctx : Context σ α}

/-- What the children of a choice have of its tokens and of its draws. -/
structure Choice.Budgeted (ctx : Context σ α) (c : Choice α) (children : List (Child α)) :
    Prop where
  tokens_sum : (children.map (fun child => child.edge.tokens)).sum ≤ c.tokens
  given : ∀ child ∈ children, ∀ here below, child.node = .choice here below →
    here.tokens = child.edge.tokens
  drawn : ctx.late c.table = false → c.turn = .chance ∨ ctx.decisions = .sampled →
    ∃ actions, ctx.sizing.candidates c.table = .ok actions ∧ 1 ≤ children.length ∧
      children.length ≤ min actions.length (max 1 (min ctx.sampling.samples c.tokens)) ∧
      (children.map (fun child => child.edge.count)).sum = max 1 (min ctx.sampling.samples c.tokens)

/-- There are no more children than draws, and no more than candidates. -/
theorem Choice.Splits.length_le {c : Choice α} {children : List (Child α)}
    (splits : c.Splits ctx children) {actions : List Action}
    (listed : ctx.sizing.candidates c.table = .ok actions) :
    children.length ≤ min actions.length (children.map (fun child => child.edge.count)).sum := by
  obtain ⟨_, same, sub, _⟩ := splits.listed
  obtain rfl := Except.ok.inj (listed.symm.trans same)
  refine le_min ?_ ?_
  · simpa using sub.length_le
  · have counted := List.length_le_sum_of_one_le (children.map (fun child => child.edge.count))
      (List.forall_mem_map.2 splits.count_pos)
    simpa using counted

namespace Node

variable [SeededSource σ]

/-- The children of an expanded choice keep to its budget. -/
theorem Expanded.budgeted {c : Choice α} {children : List (Child α)}
    (expanded : (choice c children).Expanded ctx) : c.Budgeted ctx children where
  tokens_sum := by
    rcases expanded.eq_nil_or_splits with ⟨rfl, _⟩ | ⟨splits, _⟩
    · exact Nat.zero_le c.tokens
    · simpa [Function.comp_def] using splits.tokens_sum
  given := by
    intro child mem here below is
    obtain ⟨u, seed, _, bare⟩ := expanded.plays mem
    rw [is] at bare
    exact (tokens_of_bare bare).1
  drawn := by
    intro time draws
    rcases expanded.eq_nil_or_splits with ⟨_, late⟩ | ⟨splits, _⟩
    · rw [time] at late
      cases late
    · obtain ⟨actions, listed, _⟩ := splits.listed
      have some : 1 ≤ (children.map Child.bare).length := List.length_pos_of_ne_nil splits.some
      have few := splits.length_le listed
      have counted := splits.draws draws
      rw [counted, Sampling.draws, max_comm] at few
      rw [Sampling.draws, max_comm] at counted
      refine ⟨actions, listed, ?_, ?_, ?_⟩
      · simpa using some
      · simpa using few
      · simpa [Function.comp_def] using counted

/-- The choices at a depth have together no more tokens than the node above them. -/
theorem sum_tokens_level_le (depth : Nat) {n : Node α} (all : ∀ m, n.Has m → m.Expanded ctx) :
    ((n.level depth).map Choice.tokens).sum ≤ n.tokens := by
  induction depth generalizing n with
  | zero =>
    cases n with
    | leaf l => exact Nat.le_refl 0
    | choice c children => simp [level, tokens]
  | succ depth ih =>
    -- a level is made of the levels below the children, each within the share of its child
    have expanded := all n (.self n)
    have below : ∀ child ∈ n.children,
        ((child.node.level depth).map Choice.tokens).sum ≤ child.edge.tokens := by
      intro child mem
      obtain ⟨u, seed, _, bare⟩ := expanded.plays mem
      refine (ih (fun m rest => all m (.under mem rest))).trans ?_
      rw [← tokens_bare, bare]
      exact tokens_ofTable_le ctx.bot u child.edge.tokens seed
    have shares : (n.children.map (fun child => child.edge.tokens)).sum ≤ n.tokens := by
      cases n with
      | leaf l => exact Nat.le_refl 0
      | choice c children => exact expanded.budgeted.tokens_sum
    have levels : ((n.level (depth + 1)).map Choice.tokens).sum =
        (n.children.map (fun child => ((child.node.level depth).map Choice.tokens).sum)).sum := by
      rw [level, List.map_flatMap, List.flatMap_def, List.sum_flatten, List.map_map]
      rfl
    rw [levels]
    exact (List.sum_le_sum below).trans shares

/-- Below the root a choice has tokens. -/
theorem tokens_pos_of_mem_level {depth : Nat} {n : Node α}
    (all : ∀ m, n.Has m → m.Expanded ctx) {c : Choice α} (mem : c ∈ n.level (depth + 1)) :
    1 ≤ c.tokens := by
  induction depth generalizing n with
  | zero =>
    obtain ⟨child, below, here⟩ := List.mem_flatMap.1 mem
    obtain ⟨u, seed, _, bare⟩ := (all n (.self n)).plays below
    cases node : child.node with
    | leaf l =>
      rw [node] at here
      exact absurd here List.not_mem_nil
    | choice c' children =>
      rw [node] at here bare
      obtain rfl := List.mem_singleton.1 here
      obtain ⟨given, some⟩ := tokens_of_bare bare
      exact Nat.one_le_iff_ne_zero.2 (given ▸ some)
  | succ depth ih =>
    obtain ⟨child, below, rest⟩ := List.mem_flatMap.1 mem
    exact ih (fun m later => all m (.under below later)) rest

/-- In every expanded tree the children of a choice share its tokens, a choice that draws its
children and is not cut for want of time has as many draws as its tokens buy, and the choices at a
depth below the root have no more tokens than the root was given, and are no more. -/
theorem budgets_shrink {n tree : Node α} {t : Table} {budget : Nat} {seed : UInt64} {value : α}
    (start : n = .root t budget seed ∨ n = .ofTable ctx.bot t budget seed)
    (expanded : n.expand ctx = (.ok value, tree)) :
    (∀ c children, tree.Has (.choice c children) → c.Budgeted ctx children) ∧
      ∀ depth, 1 ≤ depth → ((tree.level depth).map Choice.tokens).sum ≤ budget ∧
        (tree.level depth).length ≤ budget := by
  have origin : n.bare = n ∧ n.tokens ≤ budget := by
    rcases start with rfl | rfl
    · exact ⟨rfl, Nat.le_refl budget⟩
    · exact ⟨bare_ofTable .., tokens_ofTable_le ..⟩
  have unfolds := unfolds_expand origin.1 expanded
  refine ⟨fun c children below => (unfolds.all _ below).budgeted, fun depth some => ?_⟩
  have all : ((tree.level depth).map Choice.tokens).sum ≤ budget := by
    refine (sum_tokens_level_le depth unfolds.all).trans ?_
    rw [← tokens_bare, unfolds.bare]
    exact origin.2
  refine ⟨all, le_trans ?_ all⟩
  obtain ⟨depth, rfl⟩ := Nat.exists_eq_add_of_le' some
  have each := List.length_le_sum_of_one_le ((tree.level (depth + 1)).map Choice.tokens)
    (List.forall_mem_map.2 (fun c mem => tokens_pos_of_mem_level unfolds.all mem))
  rwa [List.length_map] at each

/-- Four draws among the options of two aces fall on two of them. -/
theorem budgets_shrink_aces : ∃ t c children value, Table.ofSnapshot Table.aces = .ok t ∧
    (root t 10 1 : Node ℚ).expand (Search.ofSettings ⟨0⟩
      { trials := 1, samples := 4, decisions := .sampled } Judge.standard {} 1 :
        Search Xoshiro ℚ).context = (.ok value, .choice c children) ∧
    children.length = 2 ∧ (children.map (fun child => child.edge.tokens)).sum ≤ c.tokens ∧
    ((choice c children).level 2).length ≤ 10 := by
  have dealt : ∃ t, Table.ofSnapshot Table.aces = .ok t ∧
      ((root t 10 1 : Node ℚ).expand (Search.ofSettings ⟨0⟩
        { trials := 1, samples := 4, decisions := .sampled } Judge.standard {} 1 :
          Search Xoshiro ℚ).context).1.isOk ∧
      ((root t 10 1 : Node ℚ).expand (Search.ofSettings ⟨0⟩
        { trials := 1, samples := 4, decisions := .sampled } Judge.standard {} 1 :
          Search Xoshiro ℚ).context).2.children.length = 2 :=
    ⟨_, rfl, by decide +kernel⟩
  obtain ⟨t, start, ends, two⟩ := dealt
  generalize expanded : (root t 10 1 : Node ℚ).expand (Search.ofSettings ⟨0⟩
    { trials := 1, samples := 4, decisions := .sampled } Judge.standard {} 1 :
      Search Xoshiro ℚ).context = grown at *
  obtain ⟨failure | value, ⟨c, children⟩ | l⟩ := grown
  · cases ends
  · cases ends
  · obtain ⟨shares, levels⟩ := budgets_shrink (Or.inl rfl) expanded
    exact ⟨t, c, children, value, start, expanded, two, (shares c children (.self _)).tokens_sum,
      (levels 2 (by decide)).2⟩
  · cases two

/-- A sampled decision of two aces for which there is no time has candidates, but no child. -/
theorem no_child_late_aces : ∃ t c children actions, Table.ofSnapshot Table.aces = .ok t ∧
    (Search.ofSettings ⟨0⟩ { trials := 1, deadline := some 0, decisions := .sampled }
      Judge.standard {} 1 : Search Xoshiro ℚ).tree t 10 = .ok (.choice c children) ∧
    c.turn = .decision ∧ c.tokens = 10 ∧ c.tokens * 100 < 2 ^ 64 ∧
    (Search.ofSettings ⟨0⟩ { trials := 1, deadline := some 0, decisions := .sampled }
      Judge.standard {} 1 : Search Xoshiro ℚ).context.sizing.candidates c.table = .ok actions ∧
    actions.length = 3 ∧ ¬ 1 ≤ children.length :=
  ⟨_, _, [], _, rfl, rfl, rfl, rfl, by decide, rfl, rfl, by decide⟩

end Node

end Holdem
