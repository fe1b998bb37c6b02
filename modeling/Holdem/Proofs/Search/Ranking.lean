import Holdem.Chance.Xoshiro
import Holdem.Proofs.Scalar
import Holdem.Proofs.Scalar.Binary
import Holdem.Proofs.Search.Decision
import Holdem.Proofs.Search.Growth

/-!
# Rankings

A search that considers every action ranks every candidate once, with the value of its child, and
zero tokens are no reason to leave one out. The ranking is sorted by value and among equal values by
preference. The best action is looked for in another way: all values within a tolerance of the
largest count as ties, and a tie goes to what is preferred. So the best action need not stand first,
but it does not depend on the order of the ranking.
-/

set_option autoImplicit false

namespace Holdem

/-! ## Sorting by any comparison -/

namespace Order

section

variable {α : Type} {before : α → α → Bool} (asymm : ∀ x y, before x y = true → before y x = false)

include asymm

/-- Inserting from the back keeps an order that begins with a given element, if the new one does not
belong before it. -/
theorem isChain_cons_insertBack {x y : α} {ys : List α} (last : before y x = false)
    (sorted : (y :: ys).IsChain (fun a b => before a b = false)) :
    (y :: insertBack before x ys).IsChain (fun a b => before a b = false) := by
  induction ys generalizing y with
  | nil => exact .cons_cons last (.singleton x)
  | cons z zs ih =>
    obtain ⟨first, rest⟩ := List.isChain_cons_cons.1 sorted
    unfold insertBack
    split
    · exact .cons_cons first (ih (asymm x z ‹_›) rest)
    · exact .cons_cons last (.cons_cons (Bool.eq_false_iff.2 ‹_›) rest)

/-- Inserting from the back keeps a list in order. -/
theorem isChain_insertBack (x : α) {ys : List α}
    (sorted : ys.IsChain (fun a b => before a b = false)) :
    (insertBack before x ys).IsChain (fun a b => before a b = false) := by
  cases ys with
  | nil => exact .singleton x
  | cons y ys =>
    unfold insertBack
    split
    · exact isChain_cons_insertBack asymm (asymm x y ‹_›) sorted
    · exact .cons_cons (Bool.eq_false_iff.2 ‹_›) sorted

/-- No element of a sorted list is before the one in front of it, whether or not the comparison is
an order. -/
theorem isChain_insertionSort (xs : List α) :
    (insertionSort before xs).IsChain (fun a b => before b a = false) := by
  have fold : ∀ xs acc : List α, acc.IsChain (fun a b => before a b = false) →
      (xs.foldl (fun sorted x => insertBack before x sorted) acc).IsChain
        (fun a b => before a b = false) := by
    intro xs
    induction xs with
    | nil => exact fun acc sorted => sorted
    | cons x xs ih => exact fun acc sorted => ih _ (isChain_insertBack asymm x sorted)
  exact List.isChain_reverse.2 (fold xs [] .nil)

end

end Order

/-! ## Preference -/

namespace Action

/-- What actions of one value are compared by: the kind, then the amount. -/
def preference (a : Action) : ℕ ×ₗ ℕ := toLex (a.preferenceKind, a.amount)

/-- An action is preferred to another exactly when its preference is the lower number. -/
theorem preferredTo_iff {a b : Action} :
    a.preferredTo b = true ↔ a.preference < b.preference := by
  simp [preferredTo, preference, Prod.Lex.toLex_lt_toLex]

end Action

/-- Of two candidates one is preferred. -/
theorem Sizing.pairwise_preference {s : Sizing} {t : Table} {actions : List Action}
    (listed : s.candidates t = .ok actions) :
    actions.Pairwise (fun a b => a.preference ≠ b.preference) :=
  (pairwise_candidates listed).imp fun before => (Action.preferredTo_iff.1 before).ne

namespace Search

/-- The most preferred of some actions is one of them, and none is preferred to it. -/
theorem mostPreferred_spec {actions : List Action} {a : Action}
    (chosen : mostPreferred actions = some a) :
    a ∈ actions ∧ ∀ b ∈ actions, a.preference ≤ b.preference := by
  have fold : ∀ (rest : List Action) (b : Action), ∀ c ∈ b :: rest,
      (rest.foldl (fun best b => if b.preferredTo best then b else best) b).preference ≤
        c.preference := by
    intro rest
    induction rest with
    | nil => exact fun b => List.forall_mem_singleton.2 le_rfl
    | cons c rest ih =>
      intro b
      obtain ⟨least, rest⟩ := List.forall_mem_cons.1 (ih (if c.preferredTo b then c else b))
      refine List.forall_mem_cons.2 ⟨?_, List.forall_mem_cons.2 ⟨?_, rest⟩⟩
      · refine least.trans ?_
        split
        · exact (Action.preferredTo_iff.1 ‹_›).le
        · exact le_rfl
      · refine least.trans ?_
        split
        · exact le_rfl
        · exact not_lt.1 (mt Action.preferredTo_iff.2 ‹_›)
  refine ⟨mem_of_mostPreferred chosen, ?_⟩
  cases actions with
  | nil => cases chosen
  | cons b rest =>
    obtain rfl := Option.some.inj chosen
    exact fold rest b

/-- Among some actions one is most preferred. -/
theorem exists_mostPreferred {actions : List Action} (some : actions ≠ []) :
    ∃ a, mostPreferred actions = Option.some a := by
  cases actions with
  | nil => exact absurd rfl some
  | cons a rest => exact ⟨_, rfl⟩

end Search

variable {σ α : Type} [SeededSource σ] [Scalar α]

namespace Search

/-! ## The order of a ranking -/

/-- An entry may stand in front of another: its value is not less, and if it is not more either,
then its action is preferred. -/
def Precedes (e e' : Action × α) : Prop :=
  Scalar.lt e.2 e'.2 = false ∧
    (Scalar.lt e'.2 e.2 = false → e.1.preference < e'.1.preference)

/-- An entry is worth at least as much as another, and it is preferred if it is worth no more. -/
def Outranks (e e' : Action × α) : Prop :=
  Scalar.le e'.2 e.2 = true ∧ (Scalar.le e.2 e'.2 = true → e.1.preference < e'.1.preference)

/-- An entry ranks before another when its value is greater, or no less and its action preferred. -/
theorem rankedBefore_iff {e e' : Action × α} : rankedBefore e e' = true ↔
    Scalar.lt e'.2 e.2 = true ∨
      Scalar.lt e.2 e'.2 = false ∧ e.1.preference < e'.1.preference := by
  unfold rankedBefore Scalar.compare
  cases Scalar.lt e'.2 e.2 <;> cases Scalar.lt e.2 e'.2 <;> simp [Action.preferredTo_iff]

section

variable [Scalar.Lawful α]

/-- Of two entries at most one ranks before the other. -/
theorem rankedBefore_asymm (e e' : Action × α) (before : rankedBefore e e' = true) :
    rankedBefore e' e = false := by
  refine Bool.eq_false_iff.2 fun after => ?_
  rcases rankedBefore_iff.1 before with less | ⟨notLess, preferred⟩
  · have notMore := Scalar.lt_asymm less
    rcases rankedBefore_iff.1 after with more | ⟨notMore', _⟩
    · exact Bool.eq_false_iff.1 notMore more
    · exact Bool.eq_false_iff.1 notMore' less
  · rcases rankedBefore_iff.1 after with less | ⟨_, preferred'⟩
    · exact Bool.eq_false_iff.1 notLess less
    · exact preferred.asymm preferred'

/-- Sorted entries whose actions differ in preference precede those behind them, one by one. -/
theorem isChain_precedes {listed : List (Action × α)}
    (distinct : listed.Pairwise (fun e e' => e.1.preference ≠ e'.1.preference)) :
    (Order.insertionSort rankedBefore listed).IsChain Precedes := by
  have sorted := Order.isChain_insertionSort rankedBefore_asymm listed
  have distinct : (Order.insertionSort rankedBefore listed).Pairwise
      (fun e e' => e.1.preference ≠ e'.1.preference) :=
    ((Order.insertionSort_perm _ listed).pairwise_iff (fun {_ _} => Ne.symm)).2 distinct
  have distinct := distinct.isChain
  rw [List.isChain_iff_getElem] at sorted distinct ⊢
  intro i inside
  have notBefore := mt rankedBefore_iff.2 (Bool.eq_false_iff.1 (sorted i inside))
  obtain ⟨notLess, rest⟩ := not_or.1 notBefore
  refine ⟨Bool.eq_false_iff.2 notLess, fun notMore => ?_⟩
  exact lt_of_le_of_ne (not_lt.1 fun preferred => rest ⟨notMore, preferred⟩) (distinct i inside)

instance : Trans (Outranks (α := α)) Outranks Outranks where
  trans first second := ⟨Scalar.le_trans second.1 first.1, fun same =>
    (first.2 (Scalar.le_trans same second.1)).trans (second.2 (Scalar.le_trans first.1 same))⟩

/-- Among numbers, an entry that precedes the next precedes all that are behind it. -/
theorem pairwise_precedes {ranking : List (Action × α)} (sorted : ranking.IsChain Precedes)
    (numbers : ∀ e ∈ ranking, Scalar.le e.2 e.2) : ranking.Pairwise Precedes := by
  have outranks : ranking.IsChain Outranks := by
    refine sorted.imp_of_mem_imp fun e e' mem mem' precedes => ?_
    have below := Scalar.le_of_not_lt (numbers e mem) (numbers e' mem') precedes.1
    refine ⟨below, fun same => precedes.2 (Bool.eq_false_iff.2 fun less => ?_)⟩
    exact (Scalar.lt_iff.1 less).2 same
  refine (List.isChain_iff_pairwise.1 outranks).imp_of_mem fun {e e'} mem mem' holds => ?_
  refine ⟨Bool.eq_false_iff.2 fun less => (Scalar.lt_iff.1 less).2 holds.1, fun notMore => ?_⟩
  exact holds.2 (Scalar.le_of_not_lt (numbers e' mem') (numbers e mem) notMore)

end

/-! ## The ranking of all candidates -/

/-- A ranking of some actions by the values of a node's children. -/
structure Ranks (actions : List Action) (root : Node α) (ranking : List (Action × α)) : Prop where
  once : actions.Nodup
  each : (ranking.map Prod.fst).Perm actions
  children : root.children.map (fun child => child.edge.action) = actions
  values : ∀ a value, (a, value) ∈ ranking ↔
    ∃ child ∈ root.children, child.edge.action = a ∧ child.node.readValue = .ok value
  neighbours : ranking.IsChain Precedes
  sorted : (∀ e ∈ ranking, Scalar.isFinite e.2 = true) → ranking.Pairwise Precedes

variable {s : Search σ α} {t : Table} {tokens : Nat}

/-- In time, and if every action is considered, every candidate has a child. -/
theorem exists_children_of_tree (every : s.settings.decisions = .exhaustive)
    (time : s.late t = false) {root : Node α} (found : s.tree t tokens = .ok root) :
    ∃ actions, s.settings.sizing.candidates t = .ok actions ∧
      root.children.map (fun child => child.edge.action) = actions := by
  obtain ⟨value, unfolds⟩ := unfolds_tree found
  have expanded := unfolds.all root (.self root)
  cases root with
  | leaf here => cases unfolds.bare
  | choice here children =>
    obtain ⟨same, -⟩ := Node.choice.inj unfolds.bare
    have table : here.table = t := congrArg Choice.table same
    have turn : here.turn = .decision := congrArg Choice.turn same
    rcases expanded.eq_nil_or_splits with ⟨-, late⟩ | ⟨splits, -⟩
    · exact absurd (table ▸ late) (Bool.eq_false_iff.1 time)
    · obtain ⟨actions, listed, -, all⟩ := splits.listed
      refine ⟨actions, table ▸ listed, ?_⟩
      rw [← all turn every, List.map_map]
      rfl

/-- Where every action is expanded and time is left, a ranking lists the candidates with the values
of the tree's children. -/
theorem exists_ranks [Scalar.Lawful α] (every : s.settings.decisions = .exhaustive)
    (time : s.late t = false) {ranking : List (Action × α)}
    (ranked : s.ranking t tokens = .ok ranking) :
    ∃ actions root, s.settings.sizing.candidates t = .ok actions ∧ s.tree t tokens = .ok root ∧
      Ranks actions root ranking := by
  obtain ⟨root, found, ended⟩ := bind_eq_ok.1 ranked
  obtain ⟨actions, candidates, children⟩ := exists_children_of_tree every time found
  obtain ⟨listed, entries, rfl⟩ := (within_rankingOf root).ok ended
  have perm := Order.insertionSort_perm rankedBefore listed
  have same : listed.map Prod.fst = actions :=
    (map_eq_of_forall₂ entries (fun _ _ lists => lists.1)).symm.trans children
  have distinct : listed.Pairwise (fun e e' => e.1.preference ≠ e'.1.preference) := by
    have apart := Sizing.pairwise_preference candidates
    rw [← same, List.pairwise_map] at apart
    exact apart
  -- candidates differ in preference, so no two entries of equal value could stand either way
  have neighbours := isChain_precedes distinct
  refine ⟨actions, root, candidates, found, ?_⟩
  refine ⟨Sizing.nodup_candidates candidates, same ▸ perm.map Prod.fst, children,
    fun a value => ?_, neighbours,
    fun proper => pairwise_precedes neighbours fun e mem => Scalar.le_self (proper e mem)⟩
  rw [perm.mem_iff]
  constructor
  · intro mem
    obtain ⟨child, below, lists⟩ := exists_left_of_forall₂ entries mem
    exact ⟨child, below, lists.1, Node.readValue_of_value lists.2⟩
  · rintro ⟨child, below, rfl, read⟩
    obtain ⟨e, mem, lists⟩ := exists_left_of_forall₂ entries.flip below
    have value : e.2 = value :=
      Except.ok.inj ((Node.readValue_of_value lists.2).symm.trans read)
    exact value ▸ lists.1 ▸ mem

/-! ## The best action -/

/-- An entry with the most preferred action among those whose value ties with the largest. -/
structure IsBest (ranking : List (Action × α)) (e : Action × α) : Prop where
  mem : e ∈ ranking
  ties : ∃ top ∈ ranking, (∀ e' ∈ ranking, Scalar.le e'.2 top.2 = true) ∧
    Scalar.le (top.2 - e.2) tolerance = true ∧
    ∀ e' ∈ ranking, Scalar.le (top.2 - e'.2) tolerance = true →
      e.1.preference ≤ e'.1.preference

variable [Scalar.Lawful α] {ranking : List (Action × α)}

/-- A ranking of numbers has a best entry, and it is the one that is chosen. -/
theorem exists_isBest (some : ranking ≠ [])
    (proper : ∀ e ∈ ranking, Scalar.isFinite e.2 = true) :
    ∃ e, best ranking = Option.some e.1 ∧ IsBest ranking e := by
  obtain ⟨top, largest⟩ : ∃ top, Scalar.maximum? (ranking.map Prod.snd) = Option.some top := by
    cases ranking with
    | nil => exact absurd rfl some
    | cons e rest => exact ⟨_, rfl⟩
  have numbers : ∀ x ∈ ranking.map Prod.snd, Scalar.le x x :=
    List.forall_mem_map.2 fun e mem => Scalar.le_self (proper e mem)
  obtain ⟨mem, above⟩ := Scalar.maximum?_spec numbers largest
  obtain ⟨first, inRanking, rfl⟩ := List.mem_map.1 mem
  -- the entry with the largest value ties with itself, so there is something to choose from
  have ties : Scalar.le (first.2 - first.2) tolerance :=
    Scalar.le_trans (Scalar.sub_self_le (proper first inRanking)) Scalar.zero_le_billionth
  have tied : first ∈ ranking.filter (fun e => Scalar.le (first.2 - e.2) tolerance) :=
    List.mem_filter.2 ⟨inRanking, ties⟩
  obtain ⟨a, chosen⟩ :=
    exists_mostPreferred (List.ne_nil_of_mem (List.mem_map_of_mem (f := Prod.fst) tied))
  obtain ⟨among, least⟩ := mostPreferred_spec chosen
  obtain ⟨e, close, rfl⟩ := List.mem_map.1 among
  obtain ⟨ranked, close⟩ := List.mem_filter.1 close
  refine ⟨e, ?_, ranked, first, inRanking, List.forall_mem_map.1 above, close,
    fun e' mem' close' => ?_⟩
  · simp only [best, largest]
    exact chosen
  · exact least e'.1 (List.mem_map_of_mem (List.mem_filter.2 ⟨mem', close'⟩))

/-- Two largest values leave the same ties, so the best entries of a ranking in two orders are
equally preferred. -/
theorem IsBest.preference_le {other : List (Action × α)} {e e' : Action × α}
    (first : IsBest ranking e) (second : IsBest other e') (same : ∀ e, e ∈ other ↔ e ∈ ranking) :
    e.1.preference ≤ e'.1.preference := by
  obtain ⟨top, mem, above, -, least⟩ := first.ties
  obtain ⟨top', mem', above', close', -⟩ := second.ties
  refine least e' ((same e').1 second.mem) ?_
  rw [Scalar.sub_congr (above' top ((same top).2 mem)) (above top' ((same top').1 mem'))]
  exact close'

/-- A search that considers every action, and in time at its root, ranks each candidate once with
the value of its child, whatever its tokens. The values do not increase, and equal ones are in the
order of preference. Of any ranking with proper values the best action is one whose value is within
the tolerance of the largest, and no action as near is preferred to it; which preference that is
does not depend on the order of the ranking. -/
theorem ranks_all_and_takes_best (s : Search σ α) (t : Table) (tokens : Nat) :
    (s.settings.decisions = .exhaustive → s.late t = false → ∀ ranking,
      s.ranking t tokens = .ok ranking → ∃ actions root,
        s.settings.sizing.candidates t = .ok actions ∧ s.tree t tokens = .ok root ∧
          Ranks actions root ranking) ∧
    ∀ ranking : List (Action × α), ranking ≠ [] →
      (∀ e ∈ ranking, Scalar.isFinite e.2 = true) →
        ∃ e, best ranking = some e.1 ∧ IsBest ranking e ∧
          ∀ other, other.Perm ranking →
            ∃ a, best other = some a ∧ a.preference = e.1.preference := by
  refine ⟨fun every time ranking ranked => exists_ranks every time ranked,
    fun ranking some proper => ?_⟩
  obtain ⟨e, chosen, isBest⟩ := exists_isBest some proper
  refine ⟨e, chosen, isBest, fun other perm => ?_⟩
  have some' : other ≠ [] := fun none => some ((none ▸ perm).nil_eq.symm)
  obtain ⟨e', chosen', isBest'⟩ := exists_isBest some' fun e mem => proper e (perm.mem_iff.1 mem)
  exact ⟨e'.1, chosen', le_antisymm
    (isBest'.preference_le isBest fun _ => perm.mem_iff.symm)
    (isBest.preference_le isBest' fun _ => perm.mem_iff)⟩

/-- With two aces and a few draws all in comes out first, in floating point as well. And where all
in is worth less than a billionth more than a check, the check is best. -/
theorem ranks_all_and_takes_best_aces : ∃ (s : Search Xoshiro Float) (t : Table)
    (ranking close : List (Action × Float)) (actions : List Action) (root : Node Float),
    s = .ofSettings ⟨0⟩ { trials := 1 } Judge.standard {} 1 ∧ Table.ofSnapshot Table.aces = .ok t ∧
    s.settings.decisions = .exhaustive ∧ s.late t = false ∧ s.ranking t 10 = .ok ranking ∧
    ranking.map Prod.fst = [.shove 10, .check, .bet 2] ∧
    s.settings.sizing.candidates t = .ok actions ∧ s.tree t 10 = .ok root ∧
    Ranks actions root ranking ∧
    close = [(.shove 10, 5), (.check, 4.9999999999), (.fold, 4)] ∧
    (∀ e ∈ close, Scalar.isFinite e.2 = true) ∧ best close = some .check ∧
    ∀ other, other.Perm close → ∃ a, best other = some a ∧
      a.preference = Action.check.preference := by
  have dealt : ∃ t, Table.ofSnapshot Table.aces = .ok t ∧
      ((ofSettings ⟨0⟩ { trials := 1 } Judge.standard {} 1 : Search Xoshiro Float).ranking t 10).map
        (List.map Prod.fst) = .ok [.shove 10, .check, .bet 2] := ⟨_, rfl, by decide +kernel⟩
  obtain ⟨t, start, order⟩ := dealt
  obtain ⟨ranking, ranked, order⟩ := exists_ok_of_map order
  obtain ⟨ranks, takes⟩ := ranks_all_and_takes_best
    (ofSettings ⟨0⟩ { trials := 1 } Judge.standard {} 1 : Search Xoshiro Float) t 10
  obtain ⟨actions, root, listed, found, all⟩ := ranks rfl rfl ranking ranked
  have proper : ∀ e ∈ [(Action.shove 10, (5 : Float)), (.check, 4.9999999999), (.fold, 4)],
      Scalar.isFinite e.2 = true := by decide +kernel
  obtain ⟨e, chosen, -, orders⟩ := takes _ (List.cons_ne_nil _ _) proper
  have check : best [(Action.shove 10, (5 : Float)), (.check, 4.9999999999), (.fold, 4)] =
      some .check := by decide +kernel
  have same : e.1 = .check := Option.some.inj (chosen.symm.trans check)
  exact ⟨_, t, ranking, _, actions, root, rfl, start, rfl, rfl, ranked, order, listed, found, all,
    rfl, proper, check, same ▸ orders⟩

end Search

end Holdem
