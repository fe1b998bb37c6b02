import Holdem.Chance.Xoshiro
import Holdem.Proofs.Scalar
import Holdem.Proofs.Search.Failures
import Holdem.Proofs.Search.Growth

/-!
# The tree of a search is a tree of the game

From each node of the tree of a search an edge leads to the table that playing its action leads to,
and no two edges from a node play the same action. A choice is the searching player's exactly if
that player is due, and an opponent's exactly if an opponent is due who can still make decisions. A
leaf is told by its table alone: the player folded, or nobody else is left, or the hand is over, or
else there were no tokens for it.
-/

set_option autoImplicit false

namespace Holdem

/-! ## Who is left in a hand -/

section

variable {t : Table} {f : Flat} {p : Player}

/-- Nobody but the player competes for the pot. -/
def Table.Alone (t : Table) (p : Player) : Prop := ∀ q, q ≠ p → t.isActive q = false

/-- A player is active exactly when the flat account of the table has the player's seat active. -/
theorem Table.Shows.isActive_iff (h : t.Shows f) :
    t.isActive p = true ↔ ∃ seat, f.seat? p = some seat ∧ seat.isActive = true := by
  rw [isActive, h.ledger, Flat.row?_ledger, Option.any_map, Option.any_eq_true]
  rfl

/-- Whoever is due can still make decisions. -/
theorem Table.Shows.isActionable_of_due (h : t.Shows f) (sound : f.Sound)
    (due : t.nextToAct = some p) : t.isActionable p = true := by
  have answers := h.answers sound
  obtain ⟨seat, found, live⟩ := sound.next_actionable p (answers.nextToAct ▸ due)
  obtain ⟨mem, rfl⟩ := Flat.mem_of_seat? found
  rw [answers.isActionable seat mem, live]

/-- At most one player is active exactly if an active player is alone. -/
theorem Table.Shows.activeCount_le_one_iff (h : t.Shows f) (sound : f.Sound)
    (active : t.isActive p = true) : t.activeCount ≤ 1 ↔ t.Alone p := by
  obtain ⟨own, found, stays⟩ := h.isActive_iff.1 active
  obtain ⟨mem, rfl⟩ := Flat.mem_of_seat? found
  have inFilter : own ∈ f.seats.filter Seat.isActive := List.mem_filter.2 ⟨mem, stays⟩
  rw [(h.answers sound).activeCount, Flat.activeCount, List.countP_eq_length_filter]
  constructor
  · intro few q other
    refine Bool.eq_false_iff.2 (fun also => ?_)
    obtain ⟨seat, found', stays'⟩ := h.isActive_iff.1 also
    obtain ⟨mem', rfl⟩ := Flat.mem_of_seat? found'
    -- two active seats are no list of at most one
    have apart : [own, seat].Nodup := by
      refine List.nodup_cons.2 ⟨fun same => other ?_, List.nodup_singleton seat⟩
      rw [List.mem_singleton.1 same]
    have two := apart.subperm (List.cons_subset.2 ⟨inFilter, List.cons_subset.2
      ⟨List.mem_filter.2 ⟨mem', stays'⟩, List.nil_subset _⟩⟩)
    exact absurd (two.length_le.trans few) (Nat.not_succ_le_self 1)
  · intro alone
    have distinct : (f.seats.filter Seat.isActive).Nodup := sound.distinct.of_map.filter _
    have only : f.seats.filter Seat.isActive ⊆ [own] := by
      intro seat inFilter
      obtain ⟨mem', stays'⟩ := List.mem_filter.1 inFilter
      have found' := Flat.seat?_of_mem sound.distinct mem'
      have same : seat.player = own.player := by
        by_contra other
        have left := alone seat.player other
        rw [h.isActive_iff.2 ⟨seat, found', stays'⟩] at left
        cases left
      rw [same, found] at found'
      exact List.mem_singleton.2 (Option.some.inj found').symm
    exact (distinct.subperm only).length_le

end

/-! ## The sort of a node -/

section

variable {α : Type}

namespace Node

/-- Whose choice a node is, if it is one. -/
def turn : Node α → Option Turn
  | choice here _ => some here.turn
  | leaf _ => none

/-- Baring a node leaves whose turn it is as it is. -/
@[simp] theorem turn_bare (n : Node α) : n.bare.turn = n.turn := by cases n <;> rfl

/-- The sort of a node is that of its table, as far as a player is concerned. -/
structure RightSort (bot : Player) (n : Node α) : Prop where
  decision : n.turn = some .decision ↔ n.ending = none ∧ n.table.nextToAct = some bot
  chance : n.turn = some .chance ↔ n.ending = none ∧
    ∃ p, p ≠ bot ∧ n.table.nextToAct = some p ∧ n.table.isActionable p = true
  folded : n.ending = some .folded ↔ n.ending ≠ none ∧ n.table.isActive bot = false
  uncontested : n.ending = some .uncontested ↔
    n.ending ≠ none ∧ n.table.isActive bot = true ∧ n.table.Alone bot
  showdown : n.ending = some .showdown ↔ n.ending ≠ none ∧ n.table.isActive bot = true ∧
    ¬ n.table.Alone bot ∧ n.table.street = .showdown
  exhausted : n.ending = some .exhausted ↔ n.ending ≠ none ∧ n.table.isActive bot = true ∧
    ¬ n.table.Alone bot ∧ n.table.street ≠ .showdown

variable {bot : Player} {t : Table} {f : Flat} {n : Node α} {tokens : Nat} {seed : UInt64}

/-- A node is of the right sort when it is so without its children. -/
theorem rightSort_of_bare (bare : n.bare.RightSort bot) : n.RightSort bot := by
  obtain ⟨decision, chance, folded, uncontested, showdown, exhausted⟩ := bare
  rw [turn_bare, ending_bare, table_bare] at decision chance
  rw [ending_bare, table_bare] at folded uncontested showdown exhausted
  exact ⟨decision, chance, folded, uncontested, showdown, exhausted⟩

/-- A choice at which somebody is due who can still make decisions. -/
theorem rightSort_choice {c : Choice α} {children : List (Child α)} {p : Player}
    (due : c.table.nextToAct = some p) (live : c.table.isActionable p = true)
    (turn : c.turn = .decision ↔ p = bot) : (choice c children).RightSort bot := by
  have other : c.turn = .chance ↔ p ≠ bot := by
    rw [Ne, ← turn]
    cases c.turn <;> simp
  constructor
  · simp [Node.turn, ending, table, due, turn]
  · simp [Node.turn, ending, table, due, other, live]
  all_goals simp [ending]

/-- A leaf ends as its table tells. -/
theorem rightSort_leaf {l : Leaf α} (shown : l.table.Shows f) (sound : f.Sound)
    (ends : endingAt bot l.table tokens = some l.ending) : (leaf l).RightSort bot := by
  have alone := fun active => shown.activeCount_le_one_iff (p := bot) sound active
  have ended : l.table.isHandOver = true ↔
      l.table.activeCount ≤ 1 ∨ l.table.street = .showdown := by
    simp [Table.isHandOver, Ledger.isHandOver, Table.activeCount, Table.street]
  unfold endingAt at ends
  -- in each case the questions before it are answered, and the others do not matter
  split_ifs at ends with away few finished none
  · have here := Option.some.inj ends
    have away : l.table.isActive bot = false := by simpa using away
    constructor <;> simp [Node.turn, ending, table, ← here, away]
  · have here := Option.some.inj ends
    have stays : l.table.isActive bot = true := by simpa using away
    have left := (alone stays).1 few
    constructor <;> simp [Node.turn, ending, table, ← here, stays, left]
  · have here := Option.some.inj ends
    have stays : l.table.isActive bot = true := by simpa using away
    have left := (alone stays).not.1 few
    have street := (ended.1 finished).resolve_left few
    constructor <;> simp [Node.turn, ending, table, ← here, stays, left, street]
  · have here := Option.some.inj ends
    have stays : l.table.isActive bot = true := by simpa using away
    have left := (alone stays).not.1 few
    have street : l.table.street ≠ .showdown := fun last => finished (ended.2 (Or.inr last))
    constructor <;> simp [Node.turn, ending, table, ← here, stays, left, street]

/-- The node of a table at which the hand is over or somebody is due. -/
theorem rightSort_ofTable (shown : t.Shows f) (sound : f.Sound)
    (due : t.isHandOver = false → ∃ p, t.nextToAct = some p) :
    (ofTable bot t tokens seed : Node α).RightSort bot := by
  unfold ofTable
  cases ends : endingAt bot t tokens with
  | some ending => exact rightSort_leaf shown sound ends
  | none =>
    obtain ⟨p, next⟩ := due (endingAt_eq_none_iff.1 ends).2.2.1
    exact rightSort_choice next (shown.isActionable_of_due sound next) (turn_eq_decision_iff next)

/-- The node of a table ends as the table does. -/
theorem ending_ofTable (bot : Player) (t : Table) (tokens : Nat) (seed : UInt64) :
    (ofTable bot t tokens seed : Node α).ending = endingAt bot t tokens := by
  unfold ofTable
  cases endingAt bot t tokens <;> rfl

/-- Only want of tokens ends a hand that goes on. -/
theorem tokens_of_exhausted (ends : endingAt bot t tokens = some .exhausted) : tokens = 0 := by
  unfold endingAt at ends
  split_ifs at ends <;> simp_all

/-- A node below another is that of a child of some node. -/
theorem Has.eq_or_exists_parent {m : Node α} (below : n.Has m) :
    m = n ∨ ∃ parent, n.Has parent ∧ ∃ child ∈ parent.children, m = child.node := by
  induction below with
  | self n => exact Or.inl rfl
  | @under n m child mem rest ih =>
    right
    rcases ih with rfl | ⟨parent, between, last⟩
    · exact ⟨n, .self n, child, mem, rfl⟩
    · exact ⟨parent, .under mem between, last⟩

end Node

end

variable {σ α : Type} [SeededSource σ] [Scalar α] {ctx : Context σ α}

namespace Node

/-- What makes a node, with its children, a part of the game. -/
structure Faithful (ctx : Context σ α) (n : Node α) : Prop where
  valued : ∃ value, n.value = some value
  edges : ∀ child ∈ n.children, n.table.play child.edge.action = .ok child.node.table
  distinct : (n.children.map (fun child => child.edge.action)).Nodup
  listed : ∀ child ∈ n.children, ∃ actions, ctx.sizing.candidates n.table = .ok actions ∧
    child.edge.action ∈ actions
  /-- A choice has children unless it is cut for want of time. -/
  grown : n.ending = none → ctx.late n.table = false → n.children ≠ []
  sort : n.RightSort ctx.bot
  exhausted : ∀ child ∈ n.children, child.node.ending = some .exhausted → child.edge.tokens = 0

variable {n m : Node α}

/-- Along every edge of an expanded node the action is played at its table. -/
theorem Expanded.edges (expanded : n.Expanded ctx) {child : Child α} (mem : child ∈ n.children) :
    n.table.play child.edge.action = .ok child.node.table := by
  obtain ⟨u, seed, played, bare⟩ := expanded.plays mem
  rw [← child.node.table_bare, bare, table_ofTable, played]

/-- Play leads to every node of an expanded tree. -/
theorem Has.leadsTo (below : n.Has m) (all : ∀ k, n.Has k → k.Expanded ctx) :
    n.table.LeadsTo m.table := by
  induction below with
  | self n => exact .refl n.table
  | @under n m child mem rest ih =>
    have first : n.table.LeadsTo child.node.table :=
      .play (.refl n.table) ((all n (.self n)).edges mem)
    exact first.trans (ih (fun k between => all k (.under mem between)))

/-- The children play candidates, each by a place of its own in the list. -/
theorem Expanded.subperm_candidates (expanded : n.Expanded ctx) (some : n.children ≠ []) :
    ∃ actions, ctx.sizing.candidates n.table = .ok actions ∧
      (n.children.map (fun child => child.edge.action)).Subperm actions := by
  cases n with
  | leaf l => exact absurd rfl some
  | choice c children =>
    rcases expanded.eq_nil_or_splits with ⟨none, _⟩ | ⟨splits, _⟩
    · exact absurd none some
    · obtain ⟨actions, listed, sub, _⟩ := splits.listed
      rw [List.map_map] at sub
      exact ⟨actions, listed, sub⟩

/-- An expanded node has children where it is no leaf and time is left. -/
theorem Expanded.children_ne_nil (expanded : n.Expanded ctx) (inner : n.ending = none)
    (time : ctx.late n.table = false) : n.children ≠ [] := by
  cases n with
  | leaf l => cases inner
  | choice c children =>
    rcases expanded.eq_nil_or_splits with ⟨_, late⟩ | ⟨splits, _⟩
    · exact absurd (late.symm.trans time) Bool.noConfusion
    · exact fun none => splits.some (congrArg (List.map Child.bare) none)

/-- An expanded node is a part of the game if its sort is right. -/
theorem Expanded.faithful (expanded : n.Expanded ctx) (sort : n.RightSort ctx.bot) :
    n.Faithful ctx where
  valued := Option.isSome_iff_exists.1 expanded.isSome_value
  edges := fun child mem => expanded.edges mem
  distinct := by
    by_cases none : n.children = []
    · rw [none]
      exact .nil
    · obtain ⟨actions, listed, chosen, perm, sublist⟩ := expanded.subperm_candidates none
      exact perm.nodup_iff.1 ((Sizing.nodup_candidates listed).sublist sublist)
  listed := by
    intro child mem
    obtain ⟨actions, listed, sub⟩ := expanded.subperm_candidates (List.ne_nil_of_mem mem)
    exact ⟨actions, listed, sub.subset (List.mem_map_of_mem mem)⟩
  grown := expanded.children_ne_nil
  sort := sort
  exhausted := by
    intro child mem ends
    obtain ⟨u, seed, played, bare⟩ := expanded.plays mem
    rw [← ending_bare, bare, ending_ofTable] at ends
    exact tokens_of_exhausted ends

end Node

namespace Search

/-- In every tree that a search returns from a table that is reached by playing from an accepted
snapshot, every node is a part of the game. -/
theorem faithful_of_tree {snapshot : Snapshot} {t₀ t : Table} {actions : List Action}
    {s : Search σ α} {tokens : Nat} {root : Node α} (start : Table.ofSnapshot snapshot = .ok t₀)
    (played : t₀.playAll actions = .ok t) (found : s.tree t tokens = .ok root) :
    root.table = t ∧ ∀ n, root.Has n → n.Faithful s.context := by
  have due := due_of_tree found
  obtain ⟨f, host⟩ := Table.Played.hosts ⟨snapshot, t₀, actions, start, played⟩ due
  obtain ⟨value, unfolds⟩ := unfolds_tree found
  have table : root.table = t := by rw [← root.table_bare, unfolds.bare]; rfl
  refine ⟨table, fun n below => (unfolds.all n below).faithful (Node.rightSort_of_bare ?_)⟩
  rcases below.eq_or_exists_parent with rfl | ⟨parent, above, child, mem, rfl⟩
  · rw [unfolds.bare]
    exact Node.rightSort_choice due (host.shows.isActionable_of_due host.sound due)
      (iff_of_true rfl rfl)
  · -- the table of the child is one that its action leads to, so somebody is due at it
    have leads : t.LeadsTo parent.table := table ▸ above.leadsTo unfolds.all
    obtain ⟨g, here, _⟩ := host.leadsTo leads
    obtain ⟨u, seed, moved, bare⟩ := (unfolds.all parent above).plays mem
    obtain ⟨g', there, _⟩ := host.leadsTo (leads.play moved)
    rw [bare]
    exact Node.rightSort_ofTable there.shows there.sound (here.shows.due_of_play here.sound moved)

/-- Each option of two aces leads to a node of its own. -/
theorem faithful_of_tree_aces : ∃ t₀ t root child, Table.ofSnapshot Table.aces = .ok t₀ ∧
    t₀.playAll [] = .ok t ∧
    (ofSettings ⟨0⟩ { trials := 1 } Judge.standard {} 1 : Search Xoshiro ℚ).tree t 3 = .ok root ∧
    child ∈ root.children ∧ t.play child.edge.action = .ok child.node.table ∧
    (root.children.map (fun child => child.edge.action)).Nodup ∧ child.node.RightSort ⟨0⟩ := by
  have dealt : ∃ t₀ t, Table.ofSnapshot Table.aces = .ok t₀ ∧
      t₀.playAll [] = .ok t ∧
      ((ofSettings ⟨0⟩ { trials := 1 } Judge.standard {} 1 : Search Xoshiro ℚ).tree t 3).map
        (fun root => root.children.length) = .ok 3 :=
    ⟨_, _, rfl, rfl, by decide +kernel⟩
  obtain ⟨t₀, t, start, played, grown⟩ := dealt
  obtain ⟨root, found, three⟩ := exists_ok_of_map grown
  obtain ⟨child, mem⟩ := List.exists_mem_of_length_eq_add_one three
  obtain ⟨table, all⟩ := faithful_of_tree start played found
  have edge := (all root (.self root)).edges child mem
  rw [table] at edge
  exact ⟨t₀, t, root, child, start, played, found, mem, edge, (all root (.self root)).distinct,
    (all child.node (.under mem (.self child.node))).sort⟩

end Search

end Holdem
