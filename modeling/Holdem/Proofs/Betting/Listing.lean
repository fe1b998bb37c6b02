import Holdem.Proofs.Table.Playing

/-!
# Lists of actions

The legal actions and those that a search looks at are listed in one order: a check or a fold, a
call, bets or raises by increasing amounts, and all in. They differ in which amounts are listed and
in when all in is. The order is that in which equally good actions are preferred, so none is listed
twice.
-/

set_option autoImplicit false

namespace Holdem

namespace Action

/-- The amount of a bet or raise. -/
def size? : Action → Option Chips
  | bet n | raise n => some n
  | fold | check | call _ | shove _ => none

/-- The size of a bet or a raise is its amount. -/
theorem amount_of_size? {a : Action} {n : Chips} (sized : a.size? = some n) : a.amount = n := by
  cases a with
  | bet m | raise m => exact Option.some.inj sized
  | _ => cases sized

/-- Actions in the order of preference are distinct. -/
theorem nodup_of_preferredTo {actions : List Action}
    (sorted : actions.Pairwise (fun a b => a.preferredTo b = true)) : actions.Nodup :=
  sorted.imp (by rintro a _ before rfl; simp [preferredTo] at before)

end Action

namespace Table

variable {t : Table} {seat : Seat} {sizes : List Chips} {opened : Bool} {a : Action}

/-- A bet of some chips, or a raise by them if there is a bet. -/
def betOrRaise (t : Table) (n : Chips) : Action := if t.largestBet = 0 then .bet n else .raise n

/-- A check, or a fold where something is lacking. -/
def quiet (t : Table) (seat : Seat) : Action :=
  if t.deficit seat.player = 0 then .check else .fold

/-- The actions of a seat in order: a check or a fold; a call that leaves chips behind; bets or
raises of some sizes; all in, where that is no more than a call or more is open. -/
def listing (t : Table) (seat : Seat) (sizes : List Chips) (opened : Bool) : List Action :=
  [t.quiet seat] ++
    (if 0 < t.deficit seat.player && t.deficit seat.player < seat.stack then
      [.call (t.deficit seat.player)] else []) ++
    sizes.map t.betOrRaise ++
    (if 0 < seat.stack && (seat.stack ≤ t.deficit seat.player || opened) then
      [.shove seat.stack] else [])

/-- Without chips to be lacking the quiet action is a check, and otherwise a fold. -/
theorem singleton_quiet :
    [t.quiet seat] = if t.deficit seat.player = 0 then [Action.check] else [.fold] :=
  apply_ite (fun a => [a]) _ _ _

/-- Where nothing has been bet nothing is lacking. -/
theorem deficit_eq_zero (first : t.largestBet = 0) (p : Player) : t.deficit p = 0 :=
  Nat.le_zero.1 (first ▸ t.deficit_le p)

/-- The size of a bet or a raise is the number it was made with. -/
@[simp] theorem size?_betOrRaise (n : Chips) : (t.betOrRaise n).size? = some n := by
  unfold betOrRaise
  split <;> rfl

/-- The amount of a bet or a raise is the number it was made with. -/
@[simp] theorem amount_betOrRaise (n : Chips) : (t.betOrRaise n).amount = n := by
  unfold betOrRaise
  split <;> rfl

/-- Bets and raises are of one kind in the order of preference. -/
@[simp] theorem preferenceKind_betOrRaise (n : Chips) : (t.betOrRaise n).preferenceKind = 3 := by
  unfold betOrRaise
  split <;> rfl

/-- A check or a fold has no size. -/
@[simp] theorem size?_quiet : (t.quiet seat).size? = none := by
  unfold quiet
  split <;> rfl

/-- Checks and folds are preferred to all that costs chips. -/
theorem preferenceKind_quiet_lt : (t.quiet seat).preferenceKind < 2 := by
  unfold quiet
  split <;> decide

/-- What is listed for a seat: the quiet action, a call that leaves chips, a bet or raise of each
size, and all in where the stack is needed or the betting is open. -/
theorem mem_listing_iff : a ∈ t.listing seat sizes opened ↔
    a = t.quiet seat ∨
      (a = .call (t.deficit seat.player) ∧ 0 < t.deficit seat.player ∧
        t.deficit seat.player < seat.stack) ∨
      (∃ n ∈ sizes, a = t.betOrRaise n) ∨
      (a = .shove seat.stack ∧ 0 < seat.stack ∧
        (seat.stack ≤ t.deficit seat.player ∨ opened = true)) := by
  simp only [listing, List.mem_append, List.mem_singleton, List.mem_map, List.mem_ite_nil_right,
    Bool.and_eq_true, Bool.or_eq_true, decide_eq_true_eq, or_assoc, and_comm (b := a = _),
    eq_comm (b := a)]

/-- The sizes only add bets and raises to a list. -/
theorem mem_listing_iff_sized : a ∈ t.listing seat sizes opened ↔
    a ∈ t.listing seat [] opened ∨ ∃ n ∈ sizes, a = t.betOrRaise n := by
  simp only [mem_listing_iff, List.not_mem_nil, false_and, exists_false, false_or]
  grind

/-- All in is listed wherever it is with fewer raises. -/
theorem mem_listing_nil_of_le {more : Bool} (may : opened = true → more = true)
    (mem : a ∈ t.listing seat [] opened) : a ∈ t.listing seat [] more := by
  rw [mem_listing_iff] at mem ⊢
  exact mem.imp_right (Or.imp_right (Or.imp_right (And.imp_right (And.imp_right
    (Or.imp_right may)))))

/-- Something is always listed. -/
theorem listing_ne_nil : t.listing seat sizes opened ≠ [] := by simp [listing]

/-- The bets or raises of a list are those of its sizes. -/
theorem filterMap_size?_listing : (t.listing seat sizes opened).filterMap Action.size? = sizes := by
  have sized : Action.size? ∘ t.betOrRaise = some := funext size?_betOrRaise
  have single : ∀ (c : Bool) (a : Action), a.size? = none →
      (if c then [a] else []).filterMap Action.size? = [] := by
    intro c a none
    cases c
    · rfl
    · exact List.filterMap_cons_none none
  simp only [listing, List.filterMap_append, List.filterMap_map, sized, List.filterMap_some]
  rw [List.filterMap_cons_none size?_quiet, single _ _ rfl, single _ _ rfl]
  simp

/-- Without sizes nothing that is listed has one. -/
theorem size?_of_mem_listing_nil (mem : a ∈ t.listing seat [] opened) : a.size? = none :=
  List.filterMap_eq_nil_iff.1 filterMap_size?_listing a mem

/-- A bet or raise is listed by its amount. -/
theorem mem_listing_iff_of_sized {n : Chips} (sized : a.size? = some n) :
    a ∈ t.listing seat sizes opened ↔ a = t.betOrRaise n ∧ n ∈ sizes := by
  rw [mem_listing_iff_sized]
  constructor
  · rintro (listed | ⟨m, among, rfl⟩)
    · rw [size?_of_mem_listing_nil listed] at sized
      cases sized
    · obtain rfl := Option.some.inj ((size?_betOrRaise m).symm.trans sized)
      exact ⟨rfl, among⟩
  · rintro ⟨same, among⟩
    exact .inr ⟨n, among, same⟩

/-- A call is listed for what is lacking, if something is and chips are left after it. -/
theorem call_mem_listing_iff {n : Chips} : .call n ∈ t.listing seat sizes opened ↔
    n = t.deficit seat.player ∧ 0 < t.deficit seat.player ∧ t.deficit seat.player < seat.stack := by
  rw [mem_listing_iff, quiet]
  by_cases first : t.largestBet = 0 <;> split <;> simp [betOrRaise, first]

/-- Bets are listed before any chips are in, one for each size. -/
theorem bet_mem_listing_iff {n : Chips} :
    .bet n ∈ t.listing seat sizes opened ↔ t.largestBet = 0 ∧ n ∈ sizes := by
  rw [mem_listing_iff_of_sized rfl, betOrRaise]
  split <;> simp [*]

/-- Raises are listed on top of a bet, one for each size. -/
theorem raise_mem_listing_iff {n : Chips} :
    .raise n ∈ t.listing seat sizes opened ↔ t.largestBet ≠ 0 ∧ n ∈ sizes := by
  rw [mem_listing_iff_of_sized rfl, betOrRaise]
  split <;> simp [*]

/-- Sorted actions of earlier kinds and then sorted actions of one kind are sorted. -/
theorem pairwise_append_of_kind {xs ys : List Action} (kind : Nat)
    (first : xs.Pairwise (fun a b => a.preferredTo b = true) ∧ ∀ a ∈ xs, a.preferenceKind < kind)
    (second : ys.Pairwise (fun a b => a.preferredTo b = true) ∧ ∀ b ∈ ys, b.preferenceKind = kind) :
    (xs ++ ys).Pairwise (fun a b => a.preferredTo b = true) ∧
      ∀ a ∈ xs ++ ys, a.preferenceKind < kind + 1 := by
  obtain ⟨first, below⟩ := first
  obtain ⟨second, same⟩ := second
  refine ⟨List.pairwise_append.2 ⟨first, second, fun a inFirst b inSecond => ?_⟩,
    List.forall_mem_append.2 ⟨fun a mem => Nat.lt_succ_of_lt (below a mem),
      fun b mem => same b mem ▸ Nat.lt_succ_self _⟩⟩
  have kinds : a.preferenceKind < b.preferenceKind := same b inSecond ▸ below a inFirst
  simp [Action.preferredTo, kinds]

/-- Increasing sizes are listed in the order of preference. -/
theorem pairwise_listing (increasing : sizes.Pairwise (· < ·)) :
    (t.listing seat sizes opened).Pairwise (fun a b => a.preferredTo b = true) := by
  refine (pairwise_append_of_kind 4 (pairwise_append_of_kind 3 (pairwise_append_of_kind 2
    ?quiet ?call) ?larger) ?shove).1
  case quiet =>
    exact ⟨List.pairwise_singleton _ _, List.forall_mem_singleton.2 preferenceKind_quiet_lt⟩
  case call => split <;> simp [Action.preferenceKind]
  case larger =>
    refine ⟨List.pairwise_map.2 (increasing.imp (fun less => ?_)), by simp⟩
    simp [Action.preferredTo, less]
  case shove => split <;> simp [Action.preferenceKind]

/-- What is lacking to the player due is what a call costs. -/
theorem toCall_eq (due : t.nextToAct = some seat.player) : t.toCall = t.deficit seat.player := by
  rw [Table.toCall, due]
  rfl

/-- Checking or folding comes first. -/
theorem passive_eq (due : t.nextToAct = some seat.player) : t.passive = t.quiet seat := by
  rw [Table.passive, toCall_eq due, Table.quiet]

/-- The passive action is always listed. -/
theorem passive_mem_listing (due : t.nextToAct = some seat.player) :
    t.passive ∈ t.listing seat sizes opened :=
  mem_listing_iff.2 (.inl (passive_eq due))

/-! ## Lists of legal actions -/

/-- An action may be chosen if it is listed without sizes, or bets or raises by an amount between
the minimum and all in where raises are open. -/
theorem isAllowed_iff (acts : t.actor? = some seat)
    (fits : ∀ n, a.size? = some n → t.deficit seat.player + n < chipLimit) :
    t.isAllowed a = .ok true ↔ a ∈ t.listing seat [] t.mayRaise ∨
      ∃ n, a = t.betOrRaise n ∧ t.mayRaise = true ∧ t.minimum ≤ n ∧
        t.deficit seat.player + n < seat.stack := by
  rw [mem_listing_iff]
  unfold isAllowed
  rw [acts]
  by_cases first : t.largestBet = 0
  · have owes := deficit_eq_zero first seat.player
    cases a <;> simp [quiet, betOrRaise, first, owes, and_assoc, pure, Except.pure]
  · have bet := Nat.pos_of_ne_zero first
    cases a with
    | raise n =>
      have other : Action.raise n ≠ t.quiet seat := by
        intro same
        have unsized : Action.size? (.raise n) = none := same ▸ size?_quiet
        cases unsized
      have sum := addChips_eq_ok_iff.2 ⟨rfl, fits n rfl⟩
      by_cases opened : t.mayRaise = true ∧ t.minimum ≤ n
      · simp [betOrRaise, first, bet, opened, other, sum]
      · simp [betOrRaise, first, bet, opened, other, ← and_assoc, pure, Except.pure]
    | call n =>
      by_cases owes : t.deficit seat.player = 0
      · simp [quiet, betOrRaise, first, owes, pure, Except.pure]
      · simpa [quiet, betOrRaise, first, owes, Nat.pos_iff_ne_zero, and_assoc, pure, Except.pure]
          using fun same : n = t.deficit seat.player => by rw [same]
    | _ => by_cases owes : t.deficit seat.player = 0 <;>
        simp [quiet, betOrRaise, first, owes, Nat.pos_iff_ne_zero, and_assoc, pure, Except.pure]

/-- An action without a size is allowed exactly if it is listed. -/
theorem isAllowed_iff_of_unsized (acts : t.actor? = some seat) (unsized : a.size? = none) :
    t.isAllowed a = .ok true ↔ a ∈ t.listing seat [] t.mayRaise := by
  rw [isAllowed_iff acts (fun n sized => by cases unsized.symm.trans sized)]
  refine or_iff_left ?_
  rintro ⟨n, rfl, -⟩
  cases (size?_betOrRaise n).symm.trans unsized

/-- What is listed without sizes is allowed. -/
theorem isAllowed_of_mem_listing_nil (acts : t.actor? = some seat)
    (listed : a ∈ t.listing seat [] t.mayRaise) : t.isAllowed a = .ok true :=
  (isAllowed_iff_of_unsized acts (size?_of_mem_listing_nil listed)).2 listed

/-- All listed actions may be chosen if the sizes are amounts between the minimum and all in, and
those and all in are listed only where raises are open. -/
theorem isAllowed_of_mem_listing (acts : t.actor? = some seat)
    (between : ∀ n ∈ sizes, t.mayRaise = true ∧ t.minimum ≤ n ∧
      t.deficit seat.player + n < seat.stack ∧ t.deficit seat.player + n < chipLimit)
    (may : opened = true → t.mayRaise = true) (mem : a ∈ t.listing seat sizes opened) :
    t.isAllowed a = .ok true := by
  obtain listed | ⟨n, among, rfl⟩ := mem_listing_iff_sized.1 mem
  · exact isAllowed_of_mem_listing_nil acts (mem_listing_nil_of_le may listed)
  · obtain ⟨raises, least, leaves, fits⟩ := between n among
    refine (isAllowed_iff acts (fun m sized => ?_)).2 (.inr ⟨n, rfl, raises, least, leaves⟩)
    obtain rfl := Option.some.inj ((size?_betOrRaise n).symm.trans sized)
    exact fits

end Table

end Holdem
