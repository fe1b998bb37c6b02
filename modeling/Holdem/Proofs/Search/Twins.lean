import Holdem.Proofs.Search.Decision
import Holdem.Proofs.Table.InStep

/-!
# Searches that run side by side

A search reads little of a table: the betting, its own player's stack, the replies of its book, and
what a showdown pays. Of two tables that stay in step and agree on these it grows the same tree, but
for the tables themselves. The edges and the values are the same, and so are the ranking and the
decision; if one of the searches fails, the other fails for the same reason.
-/

set_option autoImplicit false

namespace Holdem

variable {α : Type} {R : Table → Table → Prop}

/-! ## Trees that differ in their tables -/

/-- Branches that are the same but for their tables. -/
structure Branch.Twins (R : Table → Table → Prop) (b b' : Branch α) : Prop where
  action : b'.action = b.action
  table : R b.table b'.table
  tokens : b'.tokens = b.tokens
  weight : b'.weight = b.weight
  count : b'.count = b.count

/-- Choices that are the same but for their tables. -/
structure Choice.Twins (R : Table → Table → Prop) (c c' : Choice α) : Prop where
  turn : c'.turn = c.turn
  table : R c.table c'.table
  tokens : c'.tokens = c.tokens
  seed : c'.seed = c.seed
  value : c'.value = c.value
  expired : c'.expired = c.expired

/-- Leaves that are the same but for their tables. -/
structure Leaf.Twins (R : Table → Table → Prop) (l l' : Leaf α) : Prop where
  ending : l'.ending = l.ending
  table : R l.table l'.table
  seed : l'.seed = l.seed
  value : l'.value = l.value

mutual

/-- Trees that are the same but for the tables at their nodes, which are related. -/
inductive Node.Twins (R : Table → Table → Prop) : Node α → Node α → Prop
  | choice {c c' : Choice α} {children children' : List (Child α)} (here : c.Twins R c')
      (below : List.Forall₂ (Child.Twins R) children children') :
      Node.Twins R (.choice c children) (.choice c' children')
  | leaf {l l' : Leaf α} (here : l.Twins R l') : Node.Twins R (.leaf l) (.leaf l')

/-- The same edge, and below it trees that are the same but for their tables. -/
inductive Child.Twins (R : Table → Table → Prop) : Child α → Child α → Prop
  | mk (edge : Edge α) {n n' : Node α} (below : Node.Twins R n n') :
      Child.Twins R (.mk edge n) (.mk edge n')

end

/-- Twin children have the same edge. -/
theorem Child.Twins.edge {c c' : Child α} (h : Child.Twins R c c') : c'.edge = c.edge := by
  cases h
  rfl

namespace Node

/-- Twin trees have the same value. -/
theorem Twins.value {n n' : Node α} (h : Twins R n n') : n'.value = n.value := by
  cases h with
  | choice here _ => exact here.value
  | leaf here => exact here.value

/-- The children of twin trees are twins in order. -/
theorem Twins.children {n n' : Node α} (h : Twins R n n') :
    List.Forall₂ (Child.Twins R) n.children n'.children := by
  cases h with
  | choice _ below => exact below
  | leaf _ => exact .nil

/-- What two expansions give: the same value, or failures that are the same but for what they quote,
and twins. -/
def Tandem (R : Table → Table → Prop) (x y : Outcome α × Node α) : Prop :=
  Outcome.Concurs Failure.Reworded Eq x.1 y.1 ∧ Twins R x.2 y.2

/-- Children that are twins are expanded side by side if each pair of nodes is. -/
theorem expandChildren_twins {expand : Node α → Outcome α × Node α}
    (each : ∀ n n', Twins R n n' → Tandem R (expand n) (expand n'))
    {children children' : List (Child α)}
    (below : List.Forall₂ (Child.Twins R) children children') :
    Outcome.Concurs Failure.Reworded Eq (expandChildren expand children).1
        (expandChildren expand children').1 ∧
      List.Forall₂ (Child.Twins R) (expandChildren expand children).2
        (expandChildren expand children').2 := by
  induction below with
  | nil => exact ⟨rfl, .nil⟩
  | @cons _ _ children children' first rest ih =>
    rcases first with @⟨edge, n, n', twins⟩
    have expanded := each n n' twins
    rw [expandChildren, expandChildren]
    generalize expand n = x at expanded ⊢
    generalize expand n' = y at expanded ⊢
    obtain ⟨value, after⟩ := expanded
    rcases x with ⟨_ | a, _⟩ <;> rcases y with ⟨_ | b, _⟩
    · exact ⟨value, .cons (.mk edge after) rest⟩
    · exact value.elim
    · exact value.elim
    · obtain rfl : a = b := value
      generalize expandChildren expand children = xs at ih ⊢
      generalize expandChildren expand children' = ys at ih ⊢
      obtain ⟨values, others⟩ := ih
      rcases xs with ⟨_ | as, _⟩ <;> rcases ys with ⟨_ | bs, _⟩
      · exact ⟨values, .cons (.mk edge after) others⟩
      · exact values.elim
      · exact values.elim
      · obtain rfl : as = bs := values
        exact ⟨rfl, .cons (.mk edge after) others⟩

end Node

variable [Scalar α]

/-- Twin choices combine the values of their children to the same value. -/
theorem Choice.Twins.combine {c c' : Choice α} (h : c.Twins R c')
    {children children' : List (Child α)}
    (below : List.Forall₂ (Child.Twins R) children children') (values : List α) :
    c'.combine children' values = c.combine children values := by
  have edges : children.map Child.edge = children'.map Child.edge :=
    map_eq_of_forall₂ below (fun _ _ twins => twins.edge.symm)
  have weighed : ∀ l : List (Child α), l.zipWith (fun child x => child.edge.weight * x) values =
      (l.map Child.edge).zipWith (fun edge x => edge.weight * x) values := by
    intro l
    rw [List.zipWith_map_left]
  rw [Choice.combine, Choice.combine, h.turn, weighed, weighed, edges]

/-! ## What a search overlooks -/

variable {σ : Type} [SeededSource σ]

/-- Related tables stay in step, and whatever else a search reads of them is the same. -/
structure Context.Overlooks (ctx : Context σ α) (R : Table → Table → Prop) : Prop where
  inStep : Table.InStep Failure.Reworded R
  betting : ∀ t u, R t u → t.SameBetting u
  late : ∀ t u, R t u → ctx.late u = ctx.late t
  playsLeft : ∀ t u, R t u → u.playsLeft = t.playsLeft
  stack : ∀ t u, R t u → (u.seat ctx.bot).map Seat.stack = (t.seat ctx.bot).map Seat.stack
  showdown : ∀ t u, R t u → (ctx.showdown.estimate ctx.bot u : Random σ Payouts) =
    ctx.showdown.estimate ctx.bot t
  replies : ∀ t u, R t u → ∀ p actions, ctx.book.replies p u actions = ctx.book.replies p t actions

namespace Context.Overlooks

variable {ctx : Context σ α} {t u : Table} {c c' : Choice α}

/-- The nodes of related tables are twins. -/
theorem ofTable (h : ctx.Overlooks R) (same : R t u) (tokens : Nat) (seed : UInt64) :
    Node.Twins R (Node.ofTable ctx.bot t tokens seed : Node α)
      (Node.ofTable ctx.bot u tokens seed) := by
  have betting := h.betting t u same
  have ending : Node.endingAt ctx.bot u tokens = Node.endingAt ctx.bot t tokens := by
    rw [Node.endingAt, betting.isActive, betting.activeCount, betting.isHandOver]
    rfl
  rw [Node.ofTable, Node.ofTable, ending, betting.nextToAct]
  cases Node.endingAt ctx.bot t tokens with
  | some _ => exact .leaf ⟨rfl, same, rfl, rfl⟩
  | none => exact .choice ⟨rfl, same, rfl, rfl, rfl, rfl⟩ .nil

/-- What is computed from the player's seat by its stack alone is the same. -/
theorem bind_stack {β : Type} (h : ctx.Overlooks R) (same : R t u) {next : Seat → Outcome β}
    (reads : ∀ s s', s'.stack = s.stack → next s' = next s) :
    u.seat ctx.bot >>= next = t.seat ctx.bot >>= next := by
  have stack := h.stack t u same
  cases found : t.seat ctx.bot with
  | error e =>
    rw [found] at stack
    cases found' : u.seat ctx.bot with
    | error e' =>
      rw [found'] at stack
      exact congrArg Except.error (Except.error.inj stack)
    | ok s' => rw [found'] at stack; cases stack
  | ok s =>
    rw [found] at stack
    cases found' : u.seat ctx.bot with
    | error e' => rw [found'] at stack; cases stack
    | ok s' =>
      rw [found'] at stack
      exact reads s s' (Except.ok.inj stack)

/-- Twin leaves have the same worth. -/
theorem resolve (h : ctx.Overlooks R) {l l' : Leaf α} (twins : l.Twins R l') :
    l'.resolve ctx = l.resolve ctx := by
  have pot := (h.betting _ _ twins.table).pot
  have showdown := h.showdown _ _ twins.table
  rw [Leaf.resolve, Leaf.resolve, pot, showdown, twins.ending, twins.seed]
  exact h.bind_stack twins.table (fun s s' stack => by rw [stack])

/-- Twin choices cut short have the same worth. -/
theorem neutral (h : ctx.Overlooks R) (twins : c.Twins R c') : c'.neutral ctx = c.neutral ctx := by
  have betting := h.betting _ _ twins.table
  rw [Choice.neutral, Choice.neutral, betting.pot, betting.activeCount]
  exact h.bind_stack twins.table (fun s s' stack => by rw [stack])

/-! ## Branches and children -/

/-- From the same candidates sampling expands related tables to twin branches. -/
theorem sampled (h : ctx.Overlooks R) (same : R t u) (cs : List (Candidate α)) (tokens : Nat) :
    Random.Concurs Failure.Reworded (List.Forall₂ (Branch.Twins R))
      (ctx.sampling.expand t cs tokens : Random σ (List (Branch α)))
      (ctx.sampling.expand u cs tokens) := by
  unfold Sampling.expand
  refine Random.concurs_bind .same _ (fun drawn => ?_)
  refine Random.concurs_mapM (R := Eq) (List.forall₂_refl _) ?_
  rintro d _ rfl
  refine Random.concurs_lift ?_
  unfold Sampling.branch
  refine (h.inStep.play same d.candidate.action).bind (fun t' u' _ _ after => ?_)
  refine Outcome.concurs_bind .same _ (fun share _ => ?_)
  exact ⟨rfl, after, rfl, rfl, rfl⟩

/-- An action's even branch is the same for twin choices, but for the table it leads to. -/
theorem evenBranch (h : ctx.Overlooks R) (twins : c.Twins R c') (n : Nat) (a : Action) :
    Outcome.Concurs Failure.Reworded (Branch.Twins R) (c.evenBranch n a) (c'.evenBranch n a) := by
  refine (h.inStep.play twins.table a).bind (fun t' u' _ _ after => ?_)
  exact ⟨rfl, after, congrArg (· / n) twins.tokens, rfl, rfl⟩

/-- Twin choices have the same options. -/
theorem options (h : ctx.Overlooks R) (twins : c.Twins R c') : c'.options ctx = c.options ctx := by
  rw [Choice.options, Choice.options, (h.betting _ _ twins.table).candidates]

/-- The branches of twin decisions are twins. -/
theorem decisions (h : ctx.Overlooks R) (twins : c.Twins R c') :
    Random.Concurs Failure.Reworded (List.Forall₂ (Branch.Twins R)) (c.decisions ctx)
      (c'.decisions ctx) := by
  rw [Choice.decisions, Choice.decisions, h.options twins, twins.tokens]
  refine Random.concurs_bind .same _ (fun actions => ?_)
  cases ctx.decisions with
  | sampled => exact h.sampled twins.table _ _
  | exhaustive =>
    refine Random.concurs_mapM (R := Eq) (List.forall₂_refl _) ?_
    rintro a _ rfl
    exact Random.concurs_lift (h.evenBranch twins _ a)

/-- The branches of twin replies are twins. -/
theorem responses (h : ctx.Overlooks R) (twins : c.Twins R c') :
    Random.Concurs Failure.Reworded (List.Forall₂ (Branch.Twins R)) (c.responses ctx)
      (c'.responses ctx) := by
  have next := (h.betting _ _ twins.table).nextToAct
  rw [Choice.responses, Choice.responses, h.options twins, twins.tokens, next]
  cases c.table.nextToAct with
  | none => exact fun _ => .same _
  | some p =>
    refine Random.concurs_bind .same _ (fun actions => ?_)
    rw [h.replies _ _ twins.table]
    exact Random.concurs_bind .same _ (fun candidates => h.sampled twins.table _ _)

/-- Twin branches make twin children. -/
theorem childOf (h : ctx.Overlooks R) {b b' : Branch α} (twins : b.Twins R b') :
    Random.Concurs Failure.Reworded (Child.Twins R) (Choice.childOf ctx.bot b : Random σ (Child α))
      (Choice.childOf ctx.bot b') := by
  rw [Choice.childOf, Choice.childOf, twins.action, twins.weight, twins.count, twins.tokens]
  refine Random.concurs_bind .same _ (fun seed => ?_)
  exact Random.concurs_pure (.mk _ (h.ofTable twins.table _ _))

/-- Twin choices make twin children. -/
theorem freshChildren (h : ctx.Overlooks R) (twins : c.Twins R c') :
    Outcome.Concurs Failure.Reworded (List.Forall₂ (Child.Twins R)) (c.freshChildren ctx)
      (c'.freshChildren ctx) := by
  have grow : ∀ {x y : Random σ (List (Branch α))},
      Random.Concurs Failure.Reworded (List.Forall₂ (Branch.Twins R)) x y →
      Random.Concurs Failure.Reworded (List.Forall₂ (Child.Twins R))
        (x >>= fun branches => branches.mapM (Choice.childOf ctx.bot))
        (y >>= fun branches => branches.mapM (Choice.childOf ctx.bot)) :=
    fun branches => branches.bind (fun _ _ pairs =>
      Random.concurs_mapM pairs (fun _ _ twins => h.childOf twins))
  rw [Choice.freshChildren, Choice.freshChildren, twins.turn, twins.seed]
  cases c.turn with
  | decision =>
    exact (grow (h.decisions twins) (SeededSource.ofSeed c.seed)).bind
      (fun _ _ _ _ drawn => drawn.1)
  | chance =>
    exact (grow (h.responses twins) (SeededSource.ofSeed c.seed)).bind
      (fun _ _ _ _ drawn => drawn.1)

/-! ## Expansion -/

/-- Twin leaves are expanded to the same value and stay twins. -/
theorem expandLeaf (h : ctx.Overlooks R) {l l' : Leaf α} (twins : l.Twins R l') :
    Outcome.Concurs Failure.Reworded Eq (l.expand ctx).1 (l'.expand ctx).1 ∧
      (l.expand ctx).2.Twins R (l'.expand ctx).2 := by
  rw [Leaf.expand, Leaf.expand, h.resolve twins, twins.value]
  cases l.value with
  | some value => exact ⟨rfl, twins⟩
  | none =>
    cases l.resolve ctx with
    | ok value => exact ⟨rfl, { twins with value := rfl }⟩
    | error e => exact ⟨.same e, twins⟩

/-- Twins are expanded in tandem, however many choices may be above one another. -/
theorem expandWithin (h : ctx.Overlooks R) (depth : Nat) {n n' : Node α} (twins : n.Twins R n') :
    Node.Tandem R (n.expandWithin ctx depth) (n'.expandWithin ctx depth) := by
  induction depth generalizing n n' with
  | zero =>
    cases twins with
    | leaf here =>
      rw [Node.expandWithin, Node.expandWithin]
      exact ⟨(h.expandLeaf here).1, .leaf (h.expandLeaf here).2⟩
    | @choice c c' children children' here below =>
      rw [Node.expandWithin, Node.expandWithin, here.value]
      cases c.value with
      | some value => exact ⟨rfl, .choice here below⟩
      | none => exact ⟨.same _, .choice here below⟩
  | succ depth ih =>
    cases twins with
    | leaf here =>
      rw [Node.expandWithin, Node.expandWithin]
      exact ⟨(h.expandLeaf here).1, .leaf (h.expandLeaf here).2⟩
    | @choice c c' children children' here below =>
      rw [Node.expandWithin, Node.expandWithin, here.value]
      cases c.value with
      | some value => exact ⟨rfl, .choice here below⟩
      | none =>
        dsimp only
        rw [h.late _ _ here.table, h.neutral here]
        by_cases late : ctx.late c.table = true
        · rw [if_pos late, if_pos late]
          cases c.neutral ctx with
          | ok value => exact ⟨rfl, .choice { here with value := rfl, expired := rfl } below⟩
          | error e => exact ⟨.same e, .choice here below⟩
        · rw [if_neg late, if_neg late]
          have fresh := h.freshChildren here
          generalize c.freshChildren ctx = x at fresh ⊢
          generalize c'.freshChildren ctx = y at fresh ⊢
          rcases x with _ | made <;> rcases y with _ | made'
          · exact ⟨fresh, .choice here below⟩
          · exact fresh.elim
          · exact fresh.elim
          · have grown := Node.expandChildren_twins (fun n n' twins => ih twins) fresh
            dsimp only
            generalize Node.expandChildren (Node.expandWithin ctx depth) made = xs at grown ⊢
            generalize Node.expandChildren (Node.expandWithin ctx depth) made' = ys at grown ⊢
            obtain ⟨values, below'⟩ := grown
            rcases xs with ⟨_ | as, grown⟩ <;> rcases ys with ⟨_ | bs, grown'⟩
            · exact ⟨values, .choice here below'⟩
            · exact values.elim
            · exact values.elim
            · obtain rfl : as = bs := values
              dsimp only
              rw [here.combine below']
              cases c.combine grown as with
              | ok value => exact ⟨rfl, .choice { here with value := rfl } below'⟩
              | error e => exact ⟨.same e, .choice here below'⟩

end Context.Overlooks

/-! ## Searches -/

namespace Search

variable {s : Search σ α} {t u : Table} {f : Flat}

/-- The trees of related tables are twins, or both fail for the same reason. -/
theorem tree_concurs (h : s.context.Overlooks R) (same : R t u) (tokens : Nat) :
    Outcome.Concurs Failure.Reworded (Node.Twins R) (s.tree t tokens) (s.tree u tokens) := by
  have root : Node.Twins R (Node.root t tokens s.seed : Node α) (.root u tokens s.seed) :=
    .choice ⟨rfl, same, rfl, rfl, rfl, rfl⟩ .nil
  have left : (Node.root u tokens s.seed : Node α).table.playsLeft =
      (Node.root t tokens s.seed : Node α).table.playsLeft := h.playsLeft t u same
  have expanded := h.expandWithin ((Node.root t tokens s.seed : Node α).table.playsLeft + 1) root
  rw [tree, tree, (h.betting t u same).nextToAct]
  by_cases due : t.nextToAct = some s.bot
  · rw [if_neg (not_not.2 due), if_neg (not_not.2 due), Node.expand, Node.expand, left]
    exact expanded.1.bind (fun _ _ _ _ _ => expanded.2)
  · rw [if_pos due, if_pos due]
    exact .same _

/-- The rankings at related tables are the same, or both fail for the same reason. -/
theorem ranking_concurs (h : s.context.Overlooks R) (same : R t u) (tokens : Nat) :
    Outcome.Concurs Failure.Reworded Eq (s.ranking t tokens) (s.ranking u tokens) := by
  have entry : ∀ c c' : Child α, Child.Twins R c c' →
      Outcome.Concurs Failure.Reworded Eq
        (do return (c.edge.action, ← c.node.readValue))
        (do return (c'.edge.action, ← c'.node.readValue)) := by
    rintro _ _ ⟨edge, below⟩
    rw [Child.node, Child.node, Node.readValue, Node.readValue, below.value]
    exact Outcome.concurs_rfl .same _
  refine (tree_concurs h same tokens).bind (fun n n' _ _ twins => ?_)
  refine (Outcome.concurs_mapM twins.children entry).bind (fun as bs _ _ pairs => ?_)
  obtain rfl : as = bs := List.forall₂_eq_eq_eq ▸ pairs
  rfl

/-- Where play leads, twins fail for the same reason: a search never makes a play that is
refused. -/
theorem ranking_eq (h : s.context.Overlooks R) (same : R t u)
    (host : t.nextToAct = some s.bot → ∃ f, t.Hosts s.bot f) (tokens : Nat) :
    s.ranking u tokens = s.ranking t tokens := by
  have unquoted : ∀ e, s.ranking t tokens = .error e →
      ∀ a p text, e ≠ .defect (.illegal (.notAllowed a p text)) := by
    rintro e failed a p text rfl
    by_cases due : t.nextToAct = some s.bot
    · obtain ⟨f, host⟩ := host due
      rcases (within_ranking host due).error failed with unexpanded | ⟨_, _, wrong⟩
      · cases unexpanded
      · cases wrong with
        | cards want => cases want
    · rw [ranking, tree, if_pos due] at failed
      cases failed
  refine (((ranking_concurs h same tokens).mono (fun e e' failed _ reworded => ?_)
    (fun _ _ _ _ => id)).eq).symm
  cases reworded with
  | same => rfl
  | notAllowed a p text _ => exact absurd rfl (unquoted _ failed a p text)

/-- The decision at related tables is the same. -/
theorem decide_eq (h : s.context.Overlooks R) (same : R t u)
    (host : t.nextToAct = some s.bot → ∃ f, t.Hosts s.bot f) (tokens : Nat) :
    s.decide u tokens = s.decide t tokens := by
  have betting := h.betting t u same
  rw [decide, decide, betting.nextToAct, betting.candidates, betting.passive,
    ranking_eq h same host tokens]

end Search

end Holdem
