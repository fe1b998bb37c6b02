import Holdem.Proofs.Opponent.Separation
import Holdem.Proofs.Scalar
import Holdem.Proofs.Within

/-!
# What a tally expects

A tally gives each style that some actions have a weight, one more than its count, and these weights
make up a whole. An action has the weight of its style, in parts of the whole, shared evenly among
the actions of the style (`Tally.share`). In exact arithmetic these shares make up one, styles stand
to each other as their weights do, and one more sight of a style makes its actions likelier and the
others less likely.
-/

set_option autoImplicit false

namespace Holdem

/-- The list of styles is complete. -/
theorem Style.mem_all (s : Style) : s ∈ Style.all := by cases s <;> decide

/-- A sum over the chosen members of a list is a sum over the whole list, the others counting
nothing. -/
theorem sum_map_filter {α : Type} (l : List α) (P : α → Prop) [DecidablePred P] (f : α → Nat) :
    ((l.filter P).map f).sum = (l.map (fun a => if P a then f a else 0)).sum := by
  induction l with
  | nil => rfl
  | cons a l ih =>
    by_cases holds : P a
    · rw [List.filter_cons_of_pos (by simpa using holds)]
      simp [holds, ih]
    · rw [List.filter_cons_of_neg (by simpa using holds)]
      simp [holds, ih]

namespace Tally

variable {t : Tally} {actions : List Action} {s s' : Style} {a : Action}

/-! ## Styles of some actions -/

/-- The styles that some actions have. -/
def present (actions : List Action) : List Style :=
  Style.all.filter (fun s => 0 < members actions s)

/-- A style is present exactly when some action has it. -/
theorem mem_present_iff : s ∈ present actions ↔ 0 < members actions s := by
  simp [present, s.mem_all]

/-- The style of a listed action is present. -/
theorem style_mem_present (mem : a ∈ actions) : a.style ∈ present actions :=
  mem_present_iff.2 (List.countP_pos_iff.2 ⟨a, mem, beq_self_eq_true _⟩)

/-- One more action adds one to the count of its style. -/
theorem members_cons (a : Action) (actions : List Action) (s : Style) :
    members (a :: actions) s = members actions s + if a.style = s then 1 else 0 := by
  simp [members, List.countP_cons]

/-- What depends on an action's style alone is summed style by style. -/
theorem sum_map_style (actions : List Action) (f : Style → ℚ) :
    (actions.map (fun a => f a.style)).sum =
      (Style.all.map (fun s => members actions s * f s)).sum := by
  induction actions with
  | nil => simp [members]
  | cons a actions ih =>
    rw [List.map_cons, List.sum_cons, ih]
    simp only [members_cons, Style.all, List.map_cons, List.map_nil, List.sum_cons, List.sum_nil]
    cases a.style <;> simp <;> ring

/-! ## Weights -/

/-- The weight of a style among some actions, none if none of them has it. -/
def weightAmong (t : Tally) (actions : List Action) (s : Style) : Nat :=
  if 0 < members actions s then t.count s + 1 else 0

/-- The weights of the styles of some actions, all together. -/
def whole (t : Tally) (actions : List Action) : Nat :=
  (Style.all.map (t.weightAmong actions)).sum

/-- A present style weighs one more than its counter. -/
theorem weightAmong_of_mem (mem : s ∈ present actions) : t.weightAmong actions s = t.count s + 1 :=
  if_pos (mem_present_iff.1 mem)

/-- The weights of the present styles sum to the whole. -/
theorem sum_present (t : Tally) (actions : List Action) :
    ((present actions).map (fun s => t.count s + 1)).sum = t.whole actions :=
  sum_map_filter ..

/-- The weights of the present styles sum to the whole among the rationals too. -/
theorem sum_present_rat (t : Tally) (actions : List Action) :
    ((present actions).map (fun s => ((t.count s + 1 : ℕ) : ℚ))).sum = t.whole actions := by
  rw [← sum_present, Nat.cast_list_sum, List.map_map]
  rfl

/-- With another style present, a style's weight is less than the whole. -/
theorem lt_whole (mem : s ∈ present actions) (mem' : s' ∈ present actions) (other : s ≠ s') :
    t.count s + 1 < t.whole actions := by
  have first := weightAmong_of_mem (t := t) mem
  have second := weightAmong_of_mem (t := t) mem'
  simp only [whole, Style.all, List.map_cons, List.map_nil, List.sum_cons, List.sum_nil]
  cases s <;> cases s' <;> first | exact absurd rfl other | omega

/-- A style's weight is at most the whole. -/
theorem le_whole (mem : s ∈ present actions) : t.count s + 1 ≤ t.whole actions := by
  rw [← weightAmong_of_mem mem]
  exact List.le_sum_of_mem (List.mem_map.2 ⟨s, s.mem_all, rfl⟩)

/-- Where a style is present the whole is positive. -/
theorem whole_pos (mem : s ∈ present actions) : 0 < t.whole actions :=
  (Nat.succ_pos _).trans_le (le_whole mem)

/-- The part of the whole that each action of a style has. -/
def share (t : Tally) (actions : List Action) (s : Style) : ℚ :=
  (t.count s + 1 : ℕ) / t.whole actions / members actions s

/-- The actions of a style together have the style's part of the whole. -/
theorem members_mul_share (t : Tally) (actions : List Action) (s : Style) :
    members actions s * t.share actions s = t.weightAmong actions s / t.whole actions := by
  unfold weightAmong
  split
  · next some =>
    have some : (members actions s : ℚ) ≠ 0 := Nat.cast_ne_zero.2 some.ne'
    exact mul_div_cancel₀ _ some
  · next none => simp [Nat.eq_zero_of_not_pos none]

/-- The shares of the actions sum to one. -/
theorem sum_share (some : actions ≠ []) :
    (actions.map (fun a => t.share actions a.style)).sum = 1 := by
  obtain ⟨a, mem⟩ := List.exists_mem_of_ne_nil actions some
  have pos : (t.whole actions : ℚ) ≠ 0 :=
    Nat.cast_ne_zero.2 (whole_pos (style_mem_present mem)).ne'
  rw [sum_map_style]
  simp only [members_mul_share, Style.all, List.map_cons, List.map_nil, List.sum_cons,
    List.sum_nil, add_zero, ← add_div]
  rw [div_eq_one_iff_eq pos]
  simp [whole, Style.all]

/-- What the actions of a style get together. -/
def mass (actions : List Action) (chance : Action → ℚ) (s : Style) : ℚ :=
  ((actions.filter (fun a => a.style = s)).map chance).sum

/-- The mass of a present style is its weight in proportion to the whole. -/
theorem mass_share (mem : s ∈ present actions) :
    mass actions (fun a => t.share actions a.style) s = (t.count s + 1) / t.whole actions := by
  have same : (actions.filter (fun a => a.style = s)).map (fun a => t.share actions a.style) =
      List.replicate (members actions s) (t.share actions s) := by
    refine List.eq_replicate_iff.2 ⟨?_, ?_⟩
    · rw [List.length_map, members, List.countP_eq_length_filter]
      rfl
    · intro q listed
      obtain ⟨a, chosen, rfl⟩ := List.mem_map.1 listed
      rw [of_decide_eq_true (List.mem_filter.1 chosen).2]
  rw [mass, same, List.sum_replicate, nsmul_eq_mul, members_mul_share, weightAmong_of_mem mem]
  norm_cast

/-! ## One more sight -/

/-- A style that is seen is counted once more, round to zero after the last count. -/
theorem count_record_mod (t : Tally) (s s' : Style) :
    (t.record s).count s' = if s' = s then (t.count s' + 1) % countLimit else t.count s' := by
  cases s <;> cases s' <;> rfl

/-- Recording a move adds one to the counter of its style and to no other. -/
theorem count_record (room : t.count s + 1 < countLimit) (s' : Style) :
    (t.record s).count s' = t.count s' + if s' = s then 1 else 0 := by
  rw [count_record_mod]
  split
  · next same => rw [same, Nat.mod_eq_of_lt room]
  · rfl

/-- Recording a move adds one to the whole where its style is present. -/
theorem whole_record (room : t.count s + 1 < countLimit) (actions : List Action) :
    (t.record s).whole actions = t.whole actions + if s ∈ present actions then 1 else 0 := by
  simp only [whole, weightAmong, count_record room, mem_present_iff, Style.all, List.map_cons,
    List.map_nil, List.sum_cons, List.sum_nil]
  cases s <;> simp <;> split_ifs <;> omega

/-- The share of a style that is seen once more grows, if another style has a share as well. -/
theorem share_record_self (room : t.count s + 1 < countLimit) (mem : s ∈ present actions) :
    t.share actions s ≤ (t.record s).share actions s ∧
      ((∃ s' ∈ present actions, s' ≠ s) →
        t.share actions s < (t.record s).share actions s) := by
  have members : (0 : ℚ) < members actions s := Nat.cast_pos.2 (mem_present_iff.1 mem)
  have pos : (0 : ℚ) < t.whole actions := Nat.cast_pos.2 (whole_pos mem)
  have pos' : (0 : ℚ) < (t.whole actions + 1 : ℕ) := Nat.cast_pos.2 (Nat.succ_pos _)
  unfold share
  rw [count_record room, whole_record room, if_pos rfl, if_pos mem]
  constructor
  · have below := le_whole (t := t) mem
    rw [div_le_div_iff_of_pos_right members, div_le_div_iff₀ pos pos']
    norm_cast
    nlinarith
  · rintro ⟨s', mem', other⟩
    have below := lt_whole (t := t) mem mem' other.symm
    rw [div_lt_div_iff_of_pos_right members, div_lt_div_iff₀ pos pos']
    norm_cast
    nlinarith

/-- The share of another style shrinks, if the style that is seen once more has a share. -/
theorem share_record_other (room : t.count s + 1 < countLimit) (mem : s' ∈ present actions)
    (other : s' ≠ s) :
    (t.record s).share actions s' ≤ t.share actions s' ∧
      (s ∈ present actions → (t.record s).share actions s' < t.share actions s') := by
  have members : (0 : ℚ) < members actions s' := Nat.cast_pos.2 (mem_present_iff.1 mem)
  have pos : (0 : ℚ) < t.whole actions := Nat.cast_pos.2 (whole_pos mem)
  have weight : (0 : ℚ) < (t.count s' + 1 : ℕ) := Nat.cast_pos.2 (Nat.succ_pos _)
  have less : s ∈ present actions → (t.record s).share actions s' < t.share actions s' := by
    intro listed
    unfold share
    rw [count_record room, whole_record room, if_neg other, if_pos listed, Nat.add_zero,
      div_lt_div_iff_of_pos_right members]
    refine div_lt_div_of_pos_left weight pos ?_
    exact_mod_cast Nat.lt_succ_self _
  refine ⟨?_, less⟩
  by_cases listed : s ∈ present actions
  · exact (less listed).le
  · simp only [share, count_record room, whole_record room, if_neg other, if_neg listed,
      Nat.add_zero, le_refl]

/-! ## What a tally answers -/

/-- No count of a style that some actions have is the last one. -/
def HasRoom (t : Tally) (actions : List Action) : Prop :=
  ∀ a ∈ actions, t.count a.style + 1 < countLimit

/-- Room for all the actions' counters is room for each present style's. -/
theorem HasRoom.of_present (room : t.HasRoom actions) (mem : s ∈ present actions) :
    t.count s + 1 < countLimit := by
  obtain ⟨a, listed, same⟩ := List.countP_pos_iff.1 (mem_present_iff.1 mem)
  obtain rfl := beq_iff_eq.1 same
  exact room a listed

section Answers

variable {α : Type} [Scalar α]

/-- The answer for an action is computed from the weights of the styles. Only a count that is the
last one keeps it from being given. -/
theorem within_probability (t : Tally) (mem : a ∈ actions) :
    Outcome.Within (fun e => e = .fault .addOverflow ∧ ¬ t.HasRoom actions)
      (fun x : α => t.HasRoom actions ∧ x = Scalar.ofNat (t.count a.style + 1) /
        Scalar.sum ((present actions).map (fun s => Scalar.ofNat (t.count s + 1))) /
        Scalar.ofNat (members actions a.style)) (t.probability a actions) := by
  have weights : ∀ s ∈ present actions, Outcome.Within
      (fun e => e = .fault .addOverflow ∧ ¬ t.HasRoom actions)
      (fun x : α => t.count s + 1 < countLimit ∧ Scalar.ofNat (t.count s + 1) = x)
      (t.weight s) := by
    intro s listed
    unfold weight
    cases sum : addCounts (t.count s) 1 with
    | error failure =>
      obtain ⟨overflow, last⟩ := (Outcome.within_addCounts _ _).error sum
      exact ⟨overflow, fun room : t.HasRoom actions => (room.of_present listed).not_ge last⟩
    | ok n =>
      obtain ⟨rfl, room⟩ := addCounts_eq_ok_iff.1 sum
      exact ⟨room, rfl⟩
  refine (Outcome.within_mapM weights).bind (fun values listed => ?_)
  refine (weights _ (style_mem_present mem)).bind (fun share weight => ?_)
  have room : t.HasRoom actions := fun a' mem' => by
    obtain ⟨x, -, room, -⟩ := exists_left_of_forall₂ listed.flip (style_mem_present mem')
    exact room
  have sums : (present actions).map (fun s => Scalar.ofNat (t.count s + 1)) = values.map id :=
    map_eq_of_forall₂ listed (fun s x related => related.2)
  refine ⟨room, ?_⟩
  rw [sums, List.map_id, weight.2]

/-- Where there is room, the chance of an action is its style's weight over the whole, split among
the actions of that style. -/
theorem probability_eq (room : t.HasRoom actions) (mem : a ∈ actions) : t.probability a actions =
    .ok (Scalar.ofNat (t.count a.style + 1) /
      Scalar.sum ((present actions).map (fun s => (Scalar.ofNat (t.count s + 1) : α))) /
      Scalar.ofNat (members actions a.style)) := by
  have ends := t.within_probability (α := α) mem
  cases ended : (t.probability a actions : Outcome α) with
  | error failure => exact absurd room (ends.error ended).2
  | ok x => rw [(ends.ok ended).2]

end Answers

/-- In exact arithmetic the answer for an action is the share of its style. -/
theorem probability_rat (room : t.HasRoom actions) (mem : a ∈ actions) :
    t.probability a actions = .ok (t.share actions a.style) := by
  have sum : Scalar.sum ((present actions).map (fun s => (Scalar.ofNat (t.count s + 1) : ℚ))) =
      t.whole actions := (Scalar.sum_rat _).trans (t.sum_present_rat actions)
  rw [probability_eq room mem, sum]
  rfl

end Tally

/-! ## Plain models -/

/-- A model that finds all actions equally likely, or counts habits. -/
def Model.Plain {α : Type} : Model α → Prop
  | .uniform | .habits _ => True
  | .rule _ => False

/-- About an action that is among others, a tally is asked as it is. -/
theorem Model.probability_habits {α : Type} [Scalar α] (tally : Tally) (p : Player) {a : Action}
    (t : Table) {actions : List Action} (mem : a ∈ actions) :
    (Model.habits tally : Model α).probability p a t actions = tally.probability a actions := by
  have some : actions.isEmpty = false := List.isEmpty_eq_false_iff.2 (List.ne_nil_of_mem mem)
  simp [probability, some, mem]

/-- A plain model faults only if it is a tally that can count no more of a style it is asked
about. -/
theorem Model.Plain.probability_eq_fault {α : Type} [Scalar α] {m : Model α} (plain : m.Plain)
    {p : Player} {a : Action} {t : Table} {actions : List Action} {cause : Fault}
    (ends : m.probability p a t actions = .error (.fault cause)) :
    cause = .addOverflow ∧ ∃ tally, m = .habits tally ∧ ¬ tally.HasRoom actions := by
  cases m with
  | uniform =>
    unfold probability at ends
    dsimp only at ends
    split_ifs at ends
    cases ends
  | habits tally =>
    by_cases mem : a ∈ actions
    · rw [probability_habits tally p t mem] at ends
      obtain ⟨overflow, full⟩ := (tally.within_probability mem).error ends
      exact ⟨Failure.fault.inj overflow, tally, rfl, full⟩
    · -- about any other action no tally is asked
      unfold probability at ends
      dsimp only at ends
      rw [if_neg (mt List.contains_iff_mem.1 mem)] at ends
      split_ifs at ends
      cases ends
  | rule answer => exact plain.elim

/-! ## Learning -/

/-- A model answers for each of some actions. -/
def Model.Answers (m : Model ℚ) (p : Player) (t : Table) (actions : List Action)
    (chance : Action → ℚ) : Prop :=
  ∀ a ∈ actions, m.probability p a t actions = .ok (chance a)

/-- What is seen of a player is seen by the model that answers for the player. -/
theorem Book.model_observe_self {α : Type} (b : Book α) (p : Player) (m : Move) :
    (b.observe (.move p m)).model p = (b.model p).observe m := by
  cases seen : b.model? p with
  | none => rw [model_observe_of_strangers seen seen, model_eq_fallback seen]
  | some own =>
    have kept := b.model?_enter (.observe (.move p m)) p
    simp only [enter, Entry.own, if_pos, seen] at kept
    rw [model, model, kept, seen]
    rfl

/-- A fresh tally has counted the checks it saw, as long as they can be counted. -/
theorem Book.foldl_observe_checks {α : Type} (p : Player) {n : Nat} (few : n < countLimit) :
    (List.replicate n (Event.move p .check)).foldl Book.observe
      ({ fallback := .habits {} } : Book α) = { fallback := .habits { passive := n } } := by
  induction n with
  | zero => rfl
  | succ n ih =>
    rw [List.replicate_succ', List.foldl_append, ih (Nat.lt_of_succ_lt few)]
    show ({ fallback := .habits { passive := (n + 1) % countLimit } } : Book α) = _
    rw [Nat.mod_eq_of_lt few]

namespace Tally

/-- A tally shares out one and learns. Actions of one style are equally likely, styles stand to each
other as their counts and one do, and one more sight of a style makes its actions likelier and the
others less likely, unless all the actions are of that style or none is. The move that an action
becomes is counted for the style of the action and for no other. -/
theorem shares_out_and_learns (tally : Tally) (room : ∀ s, tally.count s + 1 < countLimit)
    (p : Player) (t : Table) {actions : List Action} (some : actions ≠ []) :
    ∃ chance, (Model.habits tally).Answers p t actions chance ∧
      (actions.map chance).sum = 1 ∧
      (∀ a ∈ actions, ∀ a' ∈ actions, a.style = a'.style → chance a = chance a') ∧
      (∀ a ∈ actions, ∀ a' ∈ actions,
        mass actions chance a.style / mass actions chance a'.style =
          (tally.count a.style + 1) / (tally.count a'.style + 1)) ∧
      (∀ move : Move, tally.count move.style + 2 < countLimit →
        ∃ chance', ((Model.habits tally).observe move).Answers p t actions chance' ∧
          ∀ a ∈ actions,
            (a.style = move.style → chance a ≤ chance' a ∧
              ((∃ a' ∈ actions, a'.style ≠ move.style) → chance a < chance' a)) ∧
            (a.style ≠ move.style → chance' a ≤ chance a ∧
              ((∃ a' ∈ actions, a'.style = move.style) → chance' a < chance a))) ∧
      (∀ (b : Book ℚ) (q : Player) (a : Action), b.model q = .habits tally →
        ∃ seen, (b.observe (a.event q)).model q = .habits seen ∧
          ∀ s, seen.count s = tally.count s + if s = a.style then 1 else 0) := by
  have answers : ∀ tally : Tally, (∀ s, tally.count s + 1 < countLimit) →
      (Model.habits tally).Answers p t actions (fun a => tally.share actions a.style) := by
    intro tally room a mem
    rw [Model.probability_habits tally p t mem]
    exact probability_rat (fun a _ => room a.style) mem
  refine ⟨fun a => tally.share actions a.style, answers tally room, sum_share some,
    fun a _ a' _ same => congrArg (tally.share actions) same, fun a mem a' mem' => ?_,
    fun move more => ?_, fun b q a bound => ?_⟩
  · have whole : (tally.whole actions : ℚ) ≠ 0 :=
      Nat.cast_ne_zero.2 (whole_pos (style_mem_present mem)).ne'
    rw [mass_share (style_mem_present mem), mass_share (style_mem_present mem'),
      div_div_div_cancel_right₀ whole]
  · have seen : ∀ s, (tally.record move.style).count s + 1 < countLimit := by
      intro s
      rw [count_record (room _)]
      split
      · next same => rwa [same]
      · exact room s
    refine ⟨_, answers (tally.record move.style) seen, fun a mem => ⟨fun same => ?_,
      fun other => ?_⟩⟩
    · have listed := style_mem_present mem
      dsimp only
      rw [same] at listed ⊢
      obtain ⟨above, more⟩ := share_record_self (room _) listed
      refine ⟨above, ?_⟩
      rintro ⟨a', mem', other⟩
      exact more ⟨a'.style, style_mem_present mem', other⟩
    · obtain ⟨below, less⟩ := share_record_other (room _) (style_mem_present mem) other
      refine ⟨below, ?_⟩
      rintro ⟨a', mem', same⟩
      exact less (same ▸ style_mem_present mem')
  · refine ⟨tally.record a.style, ?_, count_record (room _)⟩
    rw [Action.event, Book.model_observe_self, bound, Model.observe, Action.style_move]

/-- Three folds, one raise and no call were seen of a player who may fold, call, or raise in one of
two ways. -/
theorem shares_out_and_learns_headsUp :
    ∃ t, Table.ofSnapshot (.headsUp 0) = .ok t ∧
      (∀ s, (⟨3, 0, 1⟩ : Tally).count s + 1 < countLimit) ∧
      [Action.fold, .call 1, .raise 2, .raise 4] ≠ [] ∧
      ∃ chance, (Model.habits ⟨3, 0, 1⟩).Answers ⟨0⟩ t [.fold, .call 1, .raise 2, .raise 4] chance ∧
        ([Action.fold, .call 1, .raise 2, .raise 4].map chance).sum = 1 := by
  have start : ∃ t, Table.ofSnapshot (.headsUp 0) = .ok t := ⟨_, rfl⟩
  obtain ⟨t, start⟩ := start
  have room : ∀ s, (⟨3, 0, 1⟩ : Tally).count s + 1 < countLimit := by
    intro s
    cases s <;> decide
  have some : [Action.fold, .call 1, .raise 2, .raise 4] ≠ [] := by decide
  obtain ⟨chance, answers, sum, -⟩ := shares_out_and_learns ⟨3, 0, 1⟩ room ⟨0⟩ t some
  exact ⟨t, start, room, some, chance, answers, sum⟩

end Tally

end Holdem
