import Holdem.Proofs.Betting.Candidates
import Holdem.Proofs.Opponent.Replies
import Holdem.Proofs.Search.Mishaps
import Holdem.Proofs.Search.Sampling
import Holdem.Proofs.Table.Overflow

/-!
# The children of a choice

Unless something goes wrong, a choice has children: each plays a candidate of the player who is due,
and is the node of the table this leads to. No candidate is played twice as long as none is listed
twice, and the children together have no more tokens than the choice. What can go wrong is listed
first; at a table of a search at which somebody is due, it is one of the mishaps.
-/

set_option autoImplicit false

namespace Holdem

variable {σ α : Type} [Scalar α]

/-- What the children of a choice are before they are expanded. -/
structure Choice.Splits (ctx : Context σ α) (c : Choice α) (children : List (Child α)) : Prop where
  some : children ≠ []
  plays : ∀ child ∈ children, ∃ u seed, c.table.play child.edge.action = .ok u ∧
    child.node = Node.ofTable ctx.bot u child.edge.tokens seed
  tokens_sum : (children.map (fun child => child.edge.tokens)).sum ≤ c.tokens
  count_pos : ∀ child ∈ children, 0 < child.edge.count
  weight : ∀ child ∈ children, child.edge.weight =
    Scalar.ratio child.edge.count (children.map (fun child => child.edge.count)).sum
  listed : ∃ actions, ctx.sizing.candidates c.table = .ok actions ∧
    (children.map (fun child => child.edge.action)).Subperm actions ∧
    (c.turn = .decision → ctx.decisions = .exhaustive →
      children.map (fun child => child.edge.action) = actions)
  /-- As many draws as the tokens buy, unless every candidate is a child. -/
  draws : c.turn = .chance ∨ ctx.decisions = .sampled →
    (children.map (fun child => child.edge.count)).sum = ctx.sampling.draws c.tokens

/-- A child has at most the tokens of its choice, whichever way they are split. -/
theorem Choice.Splits.tokens_le {ctx : Context σ α} {c : Choice α} {children : List (Child α)}
    (splits : c.Splits ctx children) (child : Child α) (mem : child ∈ children) :
    child.edge.tokens ≤ c.tokens :=
  (List.le_sum_of_mem (List.mem_map_of_mem (f := fun child => child.edge.tokens) mem)).trans
    splits.tokens_sum

/-! ## What can go wrong -/

/-- Where the children of a choice are made within some failures. -/
structure Choice.Risks (ctx : Context σ α) (F : Failure → Prop) (c : Choice α) : Prop where
  options : Outcome.Within F (fun actions => actions ≠ [] ∧
    ctx.sizing.candidates c.table = .ok actions ∧
    ∀ a ∈ actions, Outcome.Within F (fun _ => True) (c.table.play a)) (c.options ctx)
  nobody : c.turn = .chance → c.table.nextToAct = none → F (.defect .noActor)
  model : ∀ p a actions cause, c.turn = .chance → c.table.nextToAct = some p →
    ctx.sizing.candidates c.table = .ok actions → a ∈ actions →
    (ctx.book.model p).probability p a c.table actions = .error (.fault cause) → F (.fault cause)
  spill : ctx.sampling.split = .proportional →
    countLimit ≤ c.tokens * max ctx.sampling.samples 1 → F (.fault .mulOverflow)

/-- Whatever may go wrong, children that are made are what they are. -/
theorem Choice.risks_any (ctx : Context σ α) (c : Choice α) : c.Risks ctx (fun _ => True) where
  options := by
    have plays : ∀ a, Outcome.Within (fun _ => True) (fun _ => True) (c.table.play a) := fun a =>
      (Outcome.within_any _).mono (fun _ => id) (fun _ _ => trivial)
    unfold options
    cases listed : ctx.sizing.candidates c.table with
    | error e => trivial
    | ok actions =>
      cases actions with
      | nil => trivial
      | cons a rest => exact ⟨List.cons_ne_nil a rest, rfl, fun a _ => plays a⟩
  nobody := fun _ _ => trivial
  model := fun _ _ _ _ _ _ _ _ _ => trivial
  spill := fun _ _ => trivial

namespace Choice.Risks

variable {ctx : Context σ α} {F : Failure → Prop} {c : Choice α}

/-! ## Branches -/

/-- Every action is a branch of its own, with an even share of the tokens. -/
theorem within_evenBranches {actions : List Action} (some : actions ≠ [])
    (plays : ∀ a ∈ actions, Outcome.Within F (fun _ => True) (c.table.play a)) :
    Random.Within F
      (fun branches => Branches c.table c.tokens actions branches ∧
        branches.map Branch.action = actions)
      (actions.mapM (fun a => (c.evenBranch actions.length a : Outcome (Branch α))) :
        Random σ (List (Branch α))) := by
  have pos : 0 < actions.length := List.length_pos_of_ne_nil some
  have each : ∀ a ∈ actions, Outcome.Within F
      (fun b => b.action = a ∧ b.count = 1 ∧ b.From c.table actions.length ∧
        b.tokens * actions.length ≤ c.tokens * b.count)
      (c.evenBranch actions.length a) := by
    intro a mem
    unfold Choice.evenBranch
    cases played : c.table.play a with
    | error e => exact (plays a mem).error played
    | ok u => exact ⟨rfl, rfl, ⟨played, Nat.one_pos, rfl⟩, by simpa using Nat.div_mul_le_self _ _⟩
  refine (Random.within_mapM (fun a mem => Random.within_lift (each a mem))).mono (fun _ => id)
    (fun branches made => ?_)
  have same : actions = branches.map Branch.action := by
    rw [← map_eq_of_forall₂ (f := id) made (fun _ _ spec => spec.1.symm), List.map_id]
  -- as many draws as there are branches, one for each
  have total : (branches.map Branch.count).sum = actions.length := by
    rw [← map_eq_of_forall₂ (f := fun _ => 1) made (fun _ _ spec => spec.2.1.symm)]
    simp
  refine ⟨⟨?_, ?_, ?_, fun b mem => ?_⟩, same.symm⟩
  · rintro rfl
    exact some same
  · exact same ▸ .refl _
  · refine sum_shares_le pos total.le (fun b mem => ?_)
    obtain ⟨_, _, _, _, _, fits⟩ := exists_left_of_forall₂ made mem
    exact fits
  · obtain ⟨_, _, _, _, origin, _⟩ := exists_left_of_forall₂ made mem
    exact total ▸ origin

variable [SeededSource σ]

/-- The branches of a decision are the candidate actions: all of them, or as many draws as the
tokens allow. -/
theorem within_decisions (risks : c.Risks ctx F) :
    Random.Within F
      (fun branches => ∃ actions, ctx.sizing.candidates c.table = .ok actions ∧
        Branches c.table c.tokens actions branches ∧
        (ctx.decisions = .exhaustive → branches.map Branch.action = actions) ∧
        (ctx.decisions = .sampled →
          (branches.map Branch.count).sum = ctx.sampling.draws c.tokens))
      (c.decisions ctx) := by
  unfold Choice.decisions
  refine (Random.within_lift risks.options).bind (fun actions spec => ?_)
  obtain ⟨some, listed, plays⟩ := spec
  have uniform := Candidate.map_action_uniform (α := α) actions
  cases ctx.decisions with
  | sampled =>
    have cs : (Candidate.uniform actions : List (Candidate α)) ≠ [] := by
      simpa [Candidate.uniform] using some
    refine (ctx.sampling.within_expand cs (fun c mem => plays _ ?_) risks.spill).mono (fun _ => id)
      (fun branches made => ⟨actions, listed, uniform ▸ made.1, ?_, fun _ => made.2⟩)
    · exact uniform ▸ List.mem_map_of_mem mem
    · rintro ⟨⟩
  | exhaustive =>
    refine (within_evenBranches some plays).mono (fun _ => id)
      (fun branches made => ⟨actions, listed, made.1, fun _ => made.2, ?_⟩)
    rintro ⟨⟩

/-- The branches of a reply are as many draws from the candidate actions as the tokens allow. -/
theorem within_responses (risks : c.Risks ctx F) (turn : c.turn = .chance) :
    Random.Within F
      (fun branches => ∃ actions, ctx.sizing.candidates c.table = .ok actions ∧
        Branches c.table c.tokens actions branches ∧
        (branches.map Branch.count).sum = ctx.sampling.draws c.tokens) (c.responses ctx) := by
  unfold Choice.responses
  cases next : c.table.nextToAct with
  | none => exact fun _ => risks.nobody turn next
  | some p =>
    refine (Random.within_lift risks.options).bind (fun actions spec => ?_)
    obtain ⟨some, listed, plays⟩ := spec
    have replies := (ctx.book.within_replies p c.table actions).mono
      (G := F) (by
        rintro _ ⟨a, mem, cause, rfl, ends⟩
        exact risks.model p a actions cause turn next listed mem ends)
      (fun _ => And.left)
    refine (Random.within_lift replies).bind ?_
    rintro cs rfl
    have asked : cs ≠ [] := fun none => some (by rw [none]; rfl)
    exact (ctx.sampling.within_expand asked (fun c mem => plays _ (List.mem_map_of_mem mem))
      risks.spill).mono (fun _ => id) (fun branches made => ⟨_, listed, made⟩)

/-- Seeds turn branches into children. -/
theorem within_children {actions : List Action}
    {branches : List (Branch α)} (listed : ctx.sizing.candidates c.table = .ok actions)
    (made : Branches c.table c.tokens actions branches)
    (all : c.turn = .decision → ctx.decisions = .exhaustive →
      branches.map Branch.action = actions)
    (drawn : c.turn = .chance ∨ ctx.decisions = .sampled →
      (branches.map Branch.count).sum = ctx.sampling.draws c.tokens) :
    Random.Within F (c.Splits ctx)
      (branches.mapM (Choice.childOf ctx.bot) : Random σ (List (Child α))) := by
  have each : ∀ b ∈ branches, Random.Within F
      (fun child => child.edge = ⟨b.action, b.weight, b.count, b.tokens⟩ ∧
        ∃ seed, child.node = Node.ofTable ctx.bot b.table b.tokens seed)
      (Choice.childOf ctx.bot b : Random σ (Child α)) := fun b _ =>
    Random.within_word.bind (fun seed _ => Random.within_pure ⟨rfl, seed, rfl⟩)
  refine (Random.within_mapM each).mono (fun _ => id) (fun children grown => ?_)
  have counts : branches.map Branch.count = children.map (fun child => child.edge.count) :=
    map_eq_of_forall₂ grown (fun b child spec => by rw [spec.1])
  have same : branches.map Branch.action = children.map (fun child => child.edge.action) :=
    map_eq_of_forall₂ grown (fun b child spec => by rw [spec.1])
  have tokens : branches.map Branch.tokens = children.map (fun child => child.edge.tokens) :=
    map_eq_of_forall₂ grown (fun b child spec => by rw [spec.1])
  have origin : ∀ child ∈ children, ∃ b ∈ branches,
      child.edge = ⟨b.action, b.weight, b.count, b.tokens⟩ ∧
        ∃ seed, child.node = Node.ofTable ctx.bot b.table b.tokens seed :=
    fun child mem => exists_left_of_forall₂ grown mem
  refine ⟨?_, ?_, tokens ▸ made.tokens_sum, ?_, ?_,
    ⟨actions, listed, same ▸ made.sub, fun own every => same ▸ all own every⟩, counts ▸ drawn⟩
  · rintro rfl
    exact made.some (List.forall₂_nil_right_iff.1 grown)
  · intro child mem
    obtain ⟨b, inBranches, edge, seed, node⟩ := origin child mem
    rw [edge]
    exact ⟨b.table, seed, (made.each b inBranches).plays, node⟩
  · intro child mem
    obtain ⟨b, inBranches, edge, _⟩ := origin child mem
    rw [edge]
    exact (made.each b inBranches).count_pos
  · intro child mem
    obtain ⟨b, inBranches, edge, _⟩ := origin child mem
    rw [edge, ← counts]
    exact (made.each b inBranches).weight

/-- The children of a choice, unless something goes wrong. -/
theorem within_freshChildren (risks : c.Risks ctx F) :
    Outcome.Within F (c.Splits ctx) (c.freshChildren ctx) := by
  unfold Choice.freshChildren
  refine Outcome.Within.bind (P := fun ended => c.Splits ctx ended.1) ?draws
    (fun ended splits => ?children)
  case draws =>
    cases turn : c.turn with
    | decision =>
      refine (risks.within_decisions.bind ?_ :
        Random.Within F (c.Splits ctx) _) (SeededSource.ofSeed c.seed)
      rintro branches ⟨actions, listed, made, all, drawn⟩
      refine within_children listed made (fun _ => all)
        (fun sampled => drawn (sampled.resolve_left ?_))
      rw [turn]
      rintro ⟨⟩
    | chance =>
      refine ((risks.within_responses turn).bind ?_ :
        Random.Within F (c.Splits ctx) _) (SeededSource.ofSeed c.seed)
      rintro branches ⟨actions, listed, made, drawn⟩
      exact within_children listed made (fun own => by rw [turn] at own; cases own) (fun _ => drawn)
  case children => exact splits

end Choice.Risks

/-- Children that are made split their choice. -/
theorem Choice.splits_of_freshChildren [SeededSource σ] {ctx : Context σ α} {c : Choice α}
    {children : List (Child α)} (made : c.freshChildren ctx = .ok children) :
    c.Splits ctx children :=
  (c.risks_any ctx).within_freshChildren.ok made

/-! ## At a table at which somebody is due -/

section

variable {ctx : Context σ α} {f : Flat} {p : Player} {budget : Nat}

/-- A legal action is played, or the chips or the raises do not fit. -/
theorem Table.Shows.within_legal_play (ctx : Context σ α) (budget : Nat) {t : Table}
    (h : t.Shows f) (sound : f.Sound) (due : f.next = some p) {a : Action}
    (allowed : t.isAllowed a = .ok true) :
    Outcome.Within (ctx.Mishap budget t) (fun _ => True) (t.play a) := by
  refine (h.within_play sound due allowed).mono ?_ (fun _ => id)
  have answers := h.answers sound
  rintro _ ⟨rfl, large | many⟩
  · exact .chips (answers.total_eq ▸ large)
  · exact .raises (answers.raises ▸ many)

/-- Only a mishap at its table keeps a choice from having children. -/
theorem Table.Shows.risks {c : Choice α} (h : c.table.Shows f) (sound : f.Sound)
    (due : f.next = some p) (turn : c.turn = .decision ↔ p = ctx.bot)
    (fits : c.tokens ≤ budget) : c.Risks ctx (ctx.Mishap budget c.table) where
  options := by
    obtain ⟨seat, acts, rfl⟩ := h.exists_actor sound due
    have next : c.table.nextToAct = some seat.player := (h.answers sound).nextToAct.trans due
    unfold Choice.options
    cases listed : ctx.sizing.candidates c.table with
    | error e =>
      obtain ⟨rfl, spill⟩ := Sizing.candidates_eq_error acts listed
      exact .sizes next spill
    | ok actions =>
      have passive := Sizing.passive_mem_candidates acts next listed
      have legal := fun a mem => h.within_legal_play ctx budget sound due
        (Sizing.isAllowed_of_candidate acts listed (a := a) mem)
      cases actions with
      | nil => exact absurd passive List.not_mem_nil
      | cons a rest => exact ⟨List.cons_ne_nil a rest, rfl, legal⟩
  nobody := by
    intro _ none
    rw [(h.answers sound).nextToAct, due] at none
    cases none
  model := by
    intro q a actions cause chance next listed mem ends
    refine .model next (fun own => ?_) listed mem ends
    -- at a choice of chance somebody else is due
    obtain rfl : q = p := Option.some.inj (next.symm.trans ((h.answers sound).nextToAct.trans due))
    cases chance.symm.trans (turn.2 own)
  spill := fun split spill => .tokens split (spill.trans (Nat.mul_le_mul_right _ fits))

end

end Holdem
