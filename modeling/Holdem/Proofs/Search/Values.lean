import Holdem.Chance.Xoshiro
import Holdem.Proofs.Scalar
import Holdem.Proofs.Search.Failures

/-!
# What a search can find a hand worth

In exact arithmetic every value in a tree lies between nothing and all chips at the table. If the
searching player's options are all looked at, no value is below that player's stack: checking and
folding cost nothing, and what the others do leaves the stack alone.
-/

set_option autoImplicit false

namespace Holdem

/-! ## Stacks that a play leaves -/

/-- The passive action is a check or a fold. -/
theorem Table.move_passive (t : Table) : t.passive.move = .check ∨ t.passive.move = .fold := by
  unfold passive
  split
  · exact Or.inl rfl
  · exact Or.inr rfl

/-- A play leaves the stacks of all but its player, and a check or a fold leaves them all. -/
theorem Table.Shows.stack?_play {t u : Table} {f : Flat} {a : Action} {p q : Player}
    (h : t.Shows f) (sound : f.Sound) (due : f.next = some p) (played : t.play a = .ok u)
    (quiet : q ≠ p ∨ a.move = .check ∨ a.move = .fold) :
    ∃ g, u.Shows g ∧ g.Sound ∧ g.stack? q = f.stack? q := by
  obtain ⟨p', moved, f', next, _, applied, shown, sound', rest⟩ := h.play_cases sound played
  obtain rfl : p = p' := Option.some.inj (due.symm.trans next)
  have kept := Flat.stack?_applyMove sound applied quiet
  rcases rest with ⟨_, closed⟩ | ⟨_, r, _, turned, soundTurn⟩
  · exact shown.closings_invariant (P := fun g => g.stack? q = f.stack? q)
      (fun g street same => (Flat.stack?_begin g street g.board q).trans same) sound' kept
      (closings_of_close closed).1
  · exact ⟨f'.turnTo r, turned, soundTurn, kept⟩

/-! ## Means -/

/-- Payouts of at most the pot, each as often as it came up, add up to at most the pot each time. -/
theorem Payouts.AtMost.sum_bounds {pot : Chips} (counts : List (Chips × Nat))
    (most : ∀ entry ∈ counts, entry.1 ≤ pot) :
    0 ≤ (counts.map (fun entry => (entry.1 : ℚ) * entry.2)).sum ∧
      (counts.map (fun entry => (entry.1 : ℚ) * entry.2)).sum ≤
        pot * ((counts.map Prod.snd).sum : ℕ) := by
  induction counts with
  | nil => simp
  | cons entry counts ih =>
    obtain ⟨first, rest⟩ := List.forall_mem_cons.1 most
    obtain ⟨above, under⟩ := ih rest
    have first : (entry.1 : ℚ) ≤ pot := by exact_mod_cast first
    simp only [List.map_cons, List.sum_cons, Nat.cast_add, mul_add]
    exact ⟨by positivity, add_le_add (mul_le_mul_of_nonneg_right first (Nat.cast_nonneg _)) under⟩

/-- The mean of payouts that are at most the pot lies between nothing and the pot. -/
theorem Payouts.AtMost.mean_bounds {bag : Payouts} {pot : Chips} (most : bag.AtMost pot) :
    (0 : ℚ) ≤ bag.mean?.getD (Scalar.ofNat 0) ∧ bag.mean?.getD (Scalar.ofNat 0) ≤ (pot : ℚ) := by
  obtain ⟨above, under⟩ := sum_bounds bag.counts most
  unfold Payouts.mean?
  cases size : bag.size with
  | zero => exact ⟨le_rfl, Nat.cast_nonneg pot⟩
  | succ n =>
    have positive : (0 : ℚ) < (n + 1 : ℕ) := by positivity
    have total : (bag.counts.map Prod.snd).sum = n + 1 := size
    rw [total] at under
    show 0 ≤ Scalar.sum _ / ((n + 1 : ℕ) : ℚ) ∧ Scalar.sum _ / ((n + 1 : ℕ) : ℚ) ≤ pot
    rw [Scalar.sum_rat]
    exact ⟨div_nonneg above positive.le, (div_le_iff₀ positive).2 under⟩

namespace Node

/-! ## Means of values -/

section

variable {Q : Node ℚ → ℚ → Node ℚ → Prop} {fresh grown : List (Child ℚ)} {values : List ℚ}

/-- Where every weight is a count over a total, the weighted sum of values between two bounds lies
between the bounds times all counts over the total. -/
theorem Grown.sum_bounds (grows : Grown Q fresh values grown) {low high : ℚ} {total : ℕ}
    (within : ∀ value ∈ values, low ≤ value ∧ value ≤ high)
    (weights : ∀ child ∈ fresh, child.edge.weight = Scalar.ratio child.edge.count total) :
    low * ((fresh.map (fun child => child.edge.count)).sum : ℕ) / total ≤
        (grown.zipWith (fun child x => child.edge.weight * x) values).sum ∧
      (grown.zipWith (fun child x => child.edge.weight * x) values).sum ≤
        high * ((fresh.map (fun child => child.edge.count)).sum : ℕ) / total := by
  induction grows with
  | nil => simp
  | @cons edge node node' value fresh grown values first rest ih =>
    obtain ⟨⟨here_above, here_under⟩, others⟩ := List.forall_mem_cons.1 within
    obtain ⟨weight, weights⟩ := List.forall_mem_cons.1 weights
    obtain ⟨above, under⟩ := ih others weights
    have weight : edge.weight = (edge.count : ℚ) / total := weight.trans (Scalar.ratio_rat _ _)
    have share : (0 : ℚ) ≤ (edge.count : ℚ) / total := by positivity
    simp only [List.map_cons, List.zipWith_cons_cons, List.sum_cons, Nat.cast_add, mul_add, add_div,
      Child.edge, weight]
    constructor
    · refine add_le_add ?_ above
      rw [mul_div_assoc, mul_comm]
      exact mul_le_mul_of_nonneg_left here_above share
    · refine add_le_add ?_ under
      rw [mul_div_assoc, mul_comm high]
      exact mul_le_mul_of_nonneg_left here_under share

/-- A mean by the counts of the children lies where their values do. -/
theorem Grown.mean_bounds (grows : Grown Q fresh values grown) {low high : ℚ}
    (within : ∀ value ∈ values, low ≤ value ∧ value ≤ high)
    (weights : ∀ child ∈ fresh, child.edge.weight =
      Scalar.ratio child.edge.count (fresh.map (fun child => child.edge.count)).sum)
    (counted : (fresh.map (fun child => child.edge.count)).sum ≠ 0) :
    low ≤ (grown.zipWith (fun child x => child.edge.weight * x) values).sum ∧
      (grown.zipWith (fun child x => child.edge.weight * x) values).sum ≤ high := by
  have bounds := grows.sum_bounds within weights
  have some := Nat.cast_ne_zero (R := ℚ) |>.2 counted
  rwa [mul_div_cancel_right₀ low some, mul_div_cancel_right₀ high some] at bounds

end

end Node

/-! ## The stakes -/

variable {σ : Type}

/-- A value between nothing and all chips, and if all options are looked at, not below the stack of
the searching player. -/
structure Context.Priced (ctx : Context σ ℚ) (total : Chips) (t : Table) (value : ℚ) : Prop where
  nonneg : 0 ≤ value
  le_total : value ≤ total
  stack_le : ∃ seat, t.seat ctx.bot = .ok seat ∧
    (ctx.decisions = .exhaustive → (seat.stack : ℚ) ≤ value)

/-- A node and all nodes below it have values that are right for their tables. -/
def Node.Priced (ctx : Context σ ℚ) (total : Chips) (n : Node ℚ) : Prop :=
  ∀ m, n.Has m → ∃ value, m.value = some value ∧ ctx.Priced total m.table value

/-- A node is expanded to a value that is right for its table, and so are the nodes below it. -/
structure Node.Appraised (ctx : Context σ ℚ) (total : Chips) (n : Node ℚ) (value : ℚ)
    (n' : Node ℚ) : Prop where
  table : n'.table = n.table
  valued : n'.value = some value
  priced : ctx.Priced total n.table value
  all : n'.Priced ctx total

section

variable {ctx : Context σ ℚ} {t : Table} {f : Flat} {hero : Seat} {total : Chips}

/-- The stack and a part of the pot is a right value. -/
theorem Table.Hosts.priced (host : t.Hosts ctx.bot f) (all : f.total = total)
    (found : f.seat? ctx.bot = some hero) {part : ℚ} (nonneg : 0 ≤ part)
    (le_pot : part ≤ (f.carried + f.staked : ℕ)) :
    ctx.Priced total t (Scalar.ofNat hero.stack + part) := by
  have stack : hero.stack ≤ f.behind :=
    List.le_sum_of_mem (List.mem_map_of_mem (Flat.mem_of_seat? found).1)
  have chips : hero.stack + (f.carried + f.staked) ≤ total := by
    rw [← all, Flat.total]
    lia
  have chips : (hero.stack : ℚ) + (f.carried + f.staked : ℕ) ≤ total := by exact_mod_cast chips
  have owned : (0 : ℚ) ≤ hero.stack := Nat.cast_nonneg _
  rw [Scalar.ofNat_rat]
  refine ⟨add_nonneg owned nonneg, (add_le_add_right le_pot _).trans chips,
    hero, host.shows.seat_eq found, fun _ => ?_⟩
  exact le_add_of_nonneg_right nonneg

/-- A leaf is appraised by its worth. -/
theorem Node.Appraised.leaf {l : Leaf ℚ} {value : ℚ} (priced : ctx.Priced total l.table value) :
    Node.Appraised ctx total (.leaf l) value (.leaf { l with value := some value }) where
  table := rfl
  valued := rfl
  priced := priced
  all := by
    intro m below
    obtain rfl := below.eq_leaf
    exact ⟨value, rfl, priced⟩

/-- A choice cut short is appraised by its worth. -/
theorem Node.Appraised.cut {c : Choice ℚ} {value : ℚ} (priced : ctx.Priced total c.table value) :
    Node.Appraised ctx total (.choice c []) value
      (.choice { c with value := some value, expired := true } []) where
  table := rfl
  valued := rfl
  priced := priced
  all := by
    intro m below
    obtain rfl | ⟨child, mem, _⟩ := below.cases_choice
    · exact ⟨value, rfl, priced⟩
    · exact absurd mem List.not_mem_nil

/-- A choice is appraised by its worth and the appraisal of its children. -/
theorem Node.Appraised.split {c : Choice ℚ} {fresh grown : List (Child ℚ)} {values : List ℚ}
    {value : ℚ} (grows : Node.Grown (Node.Appraised ctx total) fresh values grown)
    (priced : ctx.Priced total c.table value) :
    Node.Appraised ctx total (.choice c []) value (.choice { c with value := some value } grown)
      where
  table := rfl
  valued := rfl
  priced := priced
  all := by
    intro m below
    obtain rfl | ⟨child, mem, rest⟩ := below.cases_choice
    · exact ⟨value, rfl, priced⟩
    · obtain ⟨_, _, appraised⟩ := grows.exists_of_mem_children mem
      exact appraised.all m rest

/-! ## The value of a choice -/

/-- A child that keeps the stack of the searching player is worth no less than that stack. -/
theorem Table.Hosts.stack_le {c : Choice ℚ} {fresh : List (Child ℚ)}
    (host : c.table.Hosts ctx.bot f) (splits : c.Splits ctx fresh)
    (found : f.seat? ctx.bot = some hero) {p : Player}
    (due : f.next = some p) {child : Child ℚ} (mem : child ∈ fresh)
    (quiet : ctx.bot ≠ p ∨ child.edge.action.move = .check ∨ child.edge.action.move = .fold)
    {value : ℚ} (priced : ctx.Priced total child.node.table value)
    (every : ctx.decisions = .exhaustive) : (hero.stack : ℚ) ≤ value := by
  obtain ⟨u, seed, played, node⟩ := splits.plays child mem
  rw [node, Node.table_ofTable] at priced
  obtain ⟨g, shown, _, same⟩ := host.shows.stack?_play host.sound due played quiet
  obtain ⟨seat, seated, le⟩ := priced.stack_le
  rw [Flat.stack?, Flat.stack?, found] at same
  obtain ⟨seat', found', stack⟩ := Option.map_eq_some_iff.1 same
  obtain rfl := Except.ok.inj ((shown.seat_eq found').symm.trans seated)
  exact stack ▸ le every

/-- The best of the children is worth no less than the passive one. -/
theorem Table.Hosts.priced_decision {c : Choice ℚ} {fresh grown : List (Child ℚ)}
    {values : List ℚ} {value : ℚ} (host : c.table.Hosts ctx.bot f) (splits : c.Splits ctx fresh)
    (due : f.next = some ctx.bot) (turn : c.turn = .decision)
    (grows : Node.Grown (Node.Appraised ctx total) fresh values grown)
    (combined : c.combine grown values = .ok value) : ctx.Priced total c.table value := by
  obtain ⟨hero, found⟩ := host.seated
  have top : Scalar.maximum? values = some value := by
    unfold Choice.combine at combined
    rw [turn] at combined
    cases largest : Scalar.maximum? values with
    | none => simp [largest] at combined
    | some top => simpa [largest] using combined
  obtain ⟨mem, above⟩ := Scalar.maximum?_rat top
  obtain ⟨_, _, _, origin⟩ := grows.exists_of_mem_values mem
  refine ⟨origin.priced.nonneg, origin.priced.le_total, hero, host.shows.seat_eq found, ?_⟩
  intro every
  -- checking or folding is among the options, and the maximum is not below its child
  obtain ⟨actions, listed, _, all⟩ := splits.listed
  obtain ⟨seat, acts, own⟩ := host.shows.exists_actor host.sound due
  have next : c.table.nextToAct = some seat.player :=
    own ▸ (host.shows.answers host.sound).nextToAct.trans due
  have passive := Sizing.passive_mem_candidates acts next listed
  rw [← all turn every] at passive
  obtain ⟨child, inFresh, quiet⟩ := List.mem_map.1 passive
  obtain ⟨v, inValues, _, appraised⟩ := grows.exists_of_mem_fresh inFresh
  refine (host.stack_le splits found due inFresh (Or.inr ?_) appraised.priced every).trans
    (above v inValues)
  rw [quiet]
  exact c.table.move_passive

/-- The mean of the children is worth no less than the stack, which an opponent leaves alone. -/
theorem Table.Hosts.priced_chance {c : Choice ℚ} {fresh grown : List (Child ℚ)}
    {values : List ℚ} {value : ℚ} (host : c.table.Hosts ctx.bot f) (splits : c.Splits ctx fresh)
    {p : Player} (due : f.next = some p) (other : ctx.bot ≠ p) (turn : c.turn = .chance)
    (grows : Node.Grown (Node.Appraised ctx total) fresh values grown)
    (combined : c.combine grown values = .ok value) : ctx.Priced total c.table value := by
  obtain ⟨hero, found⟩ := host.seated
  have mean : (grown.zipWith (fun child x => child.edge.weight * x) values).sum = value := by
    unfold Choice.combine at combined
    rw [turn] at combined
    exact (Scalar.sum_rat _).symm.trans (Except.ok.inj combined)
  have drawn : (fresh.map (fun child => child.edge.count)).sum ≠ 0 := by
    obtain ⟨child, mem⟩ := List.exists_mem_of_ne_nil fresh splits.some
    have part := List.le_sum_of_mem (List.mem_map_of_mem (f := fun child => child.edge.count) mem)
    have counted := splits.count_pos child mem
    lia
  have bounds : ∀ low : ℚ, (∀ v ∈ values, low ≤ v) → low ≤ value ∧ value ≤ total := by
    intro low least
    rw [← mean]
    refine grows.mean_bounds (fun v mem => ⟨least v mem, ?_⟩) splits.weight drawn
    obtain ⟨_, _, _, origin⟩ := grows.exists_of_mem_values mem
    exact origin.priced.le_total
  have nonneg := bounds 0 (fun v mem => by
    obtain ⟨_, _, _, origin⟩ := grows.exists_of_mem_values mem
    exact origin.priced.nonneg)
  refine ⟨nonneg.1, nonneg.2, hero, host.shows.seat_eq found, fun every => ?_⟩
  -- no child is below the stack, so their mean is not
  refine (bounds hero.stack (fun v mem => ?_)).1
  obtain ⟨child, inFresh, _, origin⟩ := grows.exists_of_mem_values mem
  exact host.stack_le splits found due inFresh (Or.inl other) origin.priced every

/-- Right values are hereditary. -/
theorem Node.hereditary_appraised :
    Node.Hereditary ctx total (Node.Appraised ctx total) where
  leaf := by
    intro l g hero value here all found is
    refine .leaf ?_
    rcases is with rfl | rfl | ⟨bag, most, rfl⟩
    · exact add_zero (Scalar.ofNat hero.stack : ℚ) ▸
        here.priced all found le_rfl (Nat.cast_nonneg _)
    · exact here.priced all found (Nat.cast_nonneg _) le_rfl
    · exact here.priced all found most.mean_bounds.1 most.mean_bounds.2
  cut := by
    rintro c g hero _ here all found rfl
    have pot : (0 : ℚ) ≤ (g.carried + g.staked : ℕ) := Nat.cast_nonneg _
    have players : (1 : ℚ) ≤ (max g.activeCount 1 : ℕ) := by exact_mod_cast Nat.le_max_right _ _
    exact .cut (here.priced all found (div_nonneg pot (Nat.cast_nonneg _))
      (div_le_self pot players))
  split := by
    intro c g p fresh values grown value here _ next turn splits grows combined
    refine .split grows ?_
    cases choice : c.turn with
    | decision =>
      obtain rfl := turn.1 choice
      exact here.priced_decision splits next choice grows combined
    | chance =>
      have other : ctx.bot ≠ p := fun same => by
        rw [turn.2 same.symm] at choice
        cases choice
      exact here.priced_chance splits next other choice grows combined

end

/-! ## Trees -/

namespace Search

/-- In every tree of a search, read in exact arithmetic, every node has a value between nothing and
all chips at the table; and if all options are looked at, no value is below the stack that the
searching player has at its node. -/
theorem values_bounded {snapshot : Snapshot} {t₀ t : Table} {actions : List Action}
    [SeededSource σ] {s : Search σ ℚ} {tokens : Nat} {root : Node ℚ}
    (start : Table.ofSnapshot snapshot = .ok t₀) (played : t₀.playAll actions = .ok t)
    (found : s.tree t tokens = .ok root) {n : Node ℚ}
    (below : root.Has n) :
    ∃ value seat, n.value = some value ∧ n.table.seat s.bot = .ok seat ∧
      0 ≤ value ∧ value ≤ (t.previousPot + t.roundPot + t.chipsBehind : ℕ) ∧
      (s.settings.decisions = .exhaustive → (seat.stack : ℚ) ≤ value) := by
  have due := due_of_tree found
  obtain ⟨f, host⟩ := Table.Played.hosts ⟨snapshot, t₀, actions, start, played⟩ due
  obtain ⟨_, appraised⟩ := (within_tree host due Node.hereditary_appraised).ok found
  obtain ⟨value, valued, priced⟩ := appraised.all n below
  obtain ⟨seat, seated, le⟩ := priced.stack_le
  rw [(host.shows.answers host.sound).total_eq]
  exact ⟨value, seat, valued, seated, priced.nonneg, priced.le_total, le⟩

/-- Without tokens the tree of two aces has a leaf for each of its options. -/
theorem values_bounded_aces : ∃ t₀ t root child, Table.ofSnapshot Table.aces = .ok t₀ ∧
    t₀.playAll [] = .ok t ∧
    (ofSettings ⟨0⟩ { trials := 1 } Judge.standard {} 1 : Search Xoshiro ℚ).tree t 0 = .ok root ∧
    child ∈ root.children ∧ ∃ value seat, child.node.value = some value ∧
      child.node.table.seat ⟨0⟩ = .ok seat ∧ 0 ≤ value ∧ value ≤ 18 ∧ (seat.stack : ℚ) ≤ value := by
  have dealt : ∃ t₀ t, Table.ofSnapshot Table.aces = .ok t₀ ∧ t₀.playAll [] = .ok t ∧
      t.previousPot + t.roundPot + t.chipsBehind = 18 ∧
      ((ofSettings ⟨0⟩ { trials := 1 } Judge.standard {} 1 : Search Xoshiro ℚ).tree t 0).map
        (fun root => root.children.length) = .ok 3 :=
    ⟨_, _, rfl, rfl, rfl, by decide +kernel⟩
  obtain ⟨t₀, t, start, played, chips, grown⟩ := dealt
  obtain ⟨root, found, three⟩ := exists_ok_of_map grown
  obtain ⟨child, mem⟩ := List.exists_mem_of_length_eq_add_one three
  obtain ⟨value, seat, valued, seated, nonneg, most, least⟩ :=
    values_bounded start played found (.under mem (.self child.node))
  rw [chips] at most
  exact ⟨t₀, t, root, child, start, played, found, mem, value, seat, valued, seated, nonneg, most,
    least rfl⟩

end Search

end Holdem
