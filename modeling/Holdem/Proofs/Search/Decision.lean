import Holdem.Chance.Xoshiro
import Holdem.Proofs.Search.Failures

/-!
# A decision is a legal action

Whatever ends a search early, the player checks or folds, which the one who is due may always do. A
search that ends well chooses among the children of its root, and these are candidates. So a
decision can only fail for a fault: an amount that does not fit, or a model of the book that ends in
a fault.
-/

set_option autoImplicit false

namespace Holdem

/-- Nothing but a fault gets out of an attempt. -/
theorem Outcome.Within.attempt {α : Type} {F : Failure → Prop} {P : α → Prop} {x : Outcome α}
    (h : Within F P x) :
    Within (fun e => ∃ cause, e = .fault cause ∧ F (.fault cause))
      (fun ended => ∀ a ∈ ended, P a) x.attempt := by
  cases x with
  | ok a =>
    rintro _ ⟨⟩
    exact h
  | error e =>
    cases e with
    | fault cause => exact ⟨cause, rfl, h⟩
    | _ => rintro _ ⟨⟩

variable {σ α : Type} [Scalar α]

/-- A mishap that is a fault is an amount that does not fit, or the fault of a model. -/
theorem Context.Mishap.fault_cases {ctx : Context σ α} {tokens : Nat} {t : Table} {cause : Fault}
    (wrong : ctx.Mishap tokens t (.fault cause)) :
    cause = .addOverflow ∨ cause = .mulOverflow ∨
      ∃ p a actions, (ctx.book.model p).probability p a t actions = .error (.fault cause) := by
  cases wrong with
  | cards want => cases want
  | chips | raises | sizes => exact Or.inl rfl
  | tokens => exact Or.inr (Or.inl rfl)
  | model _ _ _ _ ends => exact Or.inr (Or.inr ⟨_, _, _, ends⟩)

namespace Search

/-! ## Choosing from a ranking -/

/-- The most preferred action is one of the actions. -/
theorem mem_of_mostPreferred {actions : List Action} {a : Action}
    (chosen : mostPreferred actions = some a) : a ∈ actions := by
  have fold : ∀ (rest : List Action) (b : Action),
      rest.foldl (fun best b => if b.preferredTo best then b else best) b ∈ b :: rest := by
    intro rest
    induction rest with
    | nil => exact List.mem_singleton_self
    | cons c rest ih =>
      intro b
      rw [List.foldl_cons]
      rcases List.mem_cons.1 (ih (if c.preferredTo b then c else b)) with kept | later
      · rw [kept]
        split
        · exact List.mem_cons_of_mem b List.mem_cons_self
        · exact List.mem_cons_self
      · exact List.mem_cons_of_mem b (List.mem_cons_of_mem c later)
  cases actions with
  | nil => cases chosen
  | cons b rest =>
    obtain rfl := Option.some.inj chosen
    exact fold rest b

/-- The best action of a ranking is in the ranking. -/
theorem mem_of_best {ranking : List (Action × α)} {a : Action} (chosen : best ranking = some a) :
    a ∈ ranking.map Prod.fst := by
  unfold best at chosen
  split at chosen
  · cases chosen
  · obtain ⟨entry, mem, rfl⟩ := List.mem_map.1 (mem_of_mostPreferred chosen)
    exact List.mem_map_of_mem (List.mem_filter.1 mem).1

/-- What a ranking says of a child: its action and its value. -/
def Lists (child : Child α) (e : Action × α) : Prop :=
  child.edge.action = e.1 ∧ child.node.value = some e.2

/-- A ranking lists the children of a node, sorted. -/
theorem within_rankingOf (n : Node α) :
    Outcome.Within (· = .defect .unexpanded)
      (fun ranking => ∃ listed, List.Forall₂ Lists n.children listed ∧
        ranking = Order.insertionSort rankedBefore listed)
      (rankingOf n) := by
  have each : ∀ child ∈ n.children, Outcome.Within (· = .defect .unexpanded) (Lists child)
      (do return (child.edge.action, ← child.node.readValue)) := by
    intro child _
    unfold Node.readValue
    cases valued : child.node.value with
    | some value => exact ⟨rfl, valued⟩
    | none => rfl
  unfold rankingOf
  exact (Outcome.within_mapM each).bind (fun listed entries => ⟨listed, entries, rfl⟩)

/-! ## The children of the root -/

end Search

/-- The children of an expanded node play legal actions. -/
def Node.Legal (n : Node α) (_ : α) (n' : Node α) : Prop :=
  ∀ child ∈ n'.children, n.table.isAllowed child.edge.action = .ok true

/-- That all children play legal actions is hereditary. -/
theorem Node.hereditary_legal (ctx : Context σ α) (total : Chips) :
    Node.Hereditary ctx total Node.Legal where
  leaf := fun _ _ _ _ _ _ _ _ _ mem => absurd mem List.not_mem_nil
  cut := fun _ _ _ _ _ _ _ _ _ mem => absurd mem List.not_mem_nil
  split := by
    intro c g p fresh values grown value here _ next _ splits grows _ child mem
    obtain ⟨seat, acts, rfl⟩ := here.shows.exists_actor here.sound next
    obtain ⟨actions, listed, offered, _⟩ := splits.listed
    -- expanding the children leaves their edges
    have edge : child.edge ∈ fresh.map Child.edge := grows.map_edge ▸ List.mem_map_of_mem mem
    obtain ⟨origin, inFresh, same⟩ := List.mem_map.1 edge
    exact Sizing.isAllowed_of_candidate acts listed
      (same ▸ offered.subset (List.mem_map_of_mem inFresh))

namespace Search

variable [SeededSource σ] {s : Search σ α} {t : Table} {f : Flat} {tokens : Nat}

/-- Where the bot is due its ranking names allowed actions only, and ranking fails only as the
search below the table does. -/
theorem within_ranking (host : t.Hosts s.bot f) (due : t.nextToAct = some s.bot) :
    Outcome.Within
      (fun e => e = .defect .unexpanded ∨ ∃ u, t.LeadsTo u ∧ s.context.Mishap tokens u e)
      (fun ranking => ∀ a ∈ ranking.map Prod.fst, t.isAllowed a = .ok true)
      (s.ranking t tokens) := by
  have tree : Outcome.Within _ (fun root => ∃ value, (Node.root t tokens s.seed).Legal value root)
      (s.tree t tokens) := within_tree host due (Node.hereditary_legal s.context f.total)
  unfold ranking
  refine (tree.mono (fun _ => Or.inr) (fun _ => id)).bind (fun root legal => ?_)
  obtain ⟨_, legal⟩ := legal
  refine (within_rankingOf root).mono (fun _ => Or.inl) ?_
  rintro _ ⟨listed, entries, rfl⟩ a mem
  obtain ⟨entry, ranked, rfl⟩ := List.mem_map.1 mem
  obtain ⟨child, below, same, _⟩ :=
    exists_left_of_forall₂ entries ((Order.insertionSort_perm _ listed).mem_iff.1 ranked)
  exact same ▸ legal child below

/-! ## The decision -/

/-- A fault for something that goes wrong at a table that play leads to. -/
def Faults (s : Search σ α) (t : Table) (tokens : Nat) (e : Failure) : Prop :=
  ∃ cause, e = .fault cause ∧ ∃ u, t.LeadsTo u ∧ s.context.Mishap tokens u (.fault cause)

/-- When somebody is due, a decision is a legal action or ends in a fault. -/
theorem within_decide (shown : t.Shows f) (sound : f.Sound) {p : Player} (next : f.next = some p)
    (seated : p = s.bot → t.Hosts s.bot f) :
    Outcome.Within (s.Faults t tokens) (fun a => t.isAllowed a = .ok true)
      (s.decide t tokens) := by
  obtain ⟨seat, acts, rfl⟩ := shown.exists_actor sound next
  have due : t.nextToAct = some seat.player := (shown.answers sound).nextToAct.trans next
  have passive : t.isAllowed t.passive = .ok true := Sizing.isAllowed_passive acts due
  unfold decide
  split
  · exact passive
  · rename_i own
    have own : t.nextToAct = some s.bot := not_not.1 own
    have host := seated (Option.some.inj (due.symm.trans own))
    have ranked : Outcome.Within (s.Faults t tokens)
        (fun ended => ∀ ranking ∈ ended, ∀ a ∈ ranking.map Prod.fst, t.isAllowed a = .ok true)
        (s.ranking t tokens).attempt := by
      refine (within_ranking host own).attempt.mono ?_ (fun _ => id)
      rintro _ ⟨cause, rfl, unexpanded | wrong⟩
      · cases unexpanded
      · exact ⟨cause, rfl, wrong⟩
    cases listed : s.settings.sizing.candidates t with
    | error e =>
      obtain ⟨rfl, spill⟩ := Sizing.candidates_eq_error acts listed
      exact ⟨.addOverflow, rfl, t, .refl t, .sizes due spill⟩
    | ok actions =>
      have legal := fun a mem => Sizing.isAllowed_of_candidate acts listed (a := a) mem
      match actions with
      | [] => exact passive
      | [only] => exact legal only (List.mem_singleton_self only)
      | _ :: _ :: _ =>
        refine ranked.bind (fun ended actions => ?_)
        cases ended with
        | none => exact passive
        | some ranking =>
          show t.isAllowed ((best ranking).getD t.passive) = .ok true
          cases chosen : best ranking with
          | none => exact passive
          | some a => exact actions ranking rfl a (mem_of_best chosen)

/-- At every table that is reached by playing from an accepted snapshot and where somebody is due, a
search decides on a legal action, whatever its settings, its book, its judge, its tokens and its
time. The only other endings are amounts that do not fit and the fault of a model. -/
theorem decide_isAllowed {snapshot : Snapshot} {t₀ t : Table} {actions : List Action}
    {s : Search σ α} {tokens : Nat} {p : Player} (start : Table.ofSnapshot snapshot = .ok t₀)
    (played : t₀.playAll actions = .ok t) (due : t.nextToAct = some p) :
    (∃ a, s.decide t tokens = .ok a ∧ t.isAllowed a = .ok true) ∨
      ∃ cause, s.decide t tokens = .error (.fault cause) ∧
        (cause = .addOverflow ∨ cause = .mulOverflow ∨ ∃ u q a actions, t.LeadsTo u ∧
          (s.book.model q).probability q a u actions = .error (.fault cause)) := by
  have reached : t.Played := ⟨snapshot, t₀, actions, start, played⟩
  obtain ⟨f, host⟩ := reached.hosts due
  have next : f.next = some p := (host.shows.answers host.sound).nextToAct.symm.trans due
  have decided : Outcome.Within (s.Faults t tokens) _ (s.decide t tokens) :=
    within_decide host.shows host.sound next (fun own => own ▸ host)
  cases ended : s.decide t tokens with
  | ok a => exact Or.inl ⟨a, rfl, decided.ok ended⟩
  | error e =>
    obtain ⟨cause, rfl, u, leads, wrong⟩ := decided.error ended
    refine Or.inr ⟨cause, rfl, wrong.fault_cases.imp_right (Or.imp_right ?_)⟩
    rintro ⟨q, a, actions, ends⟩
    exact ⟨u, q, a, actions, leads, ends⟩

/-- Two aces after a bet that was raised, and no tokens to think with. -/
theorem decide_isAllowed_aces : ∃ t₀ t a, Table.ofSnapshot Table.aces = .ok t₀ ∧
    t₀.playAll [.bet 2, .raise 2] = .ok t ∧ t.nextToAct = some ⟨0⟩ ∧
    (ofSettings ⟨0⟩ { trials := 1 } Judge.standard {} 1 : Search Xoshiro ℚ).decide t 0 = .ok a ∧
    t.isAllowed a = .ok true := by
  have dealt : ∃ t₀ t, Table.ofSnapshot Table.aces = .ok t₀ ∧
      t₀.playAll [.bet 2, .raise 2] = .ok t ∧ t.nextToAct = some ⟨0⟩ ∧
      ((ofSettings ⟨0⟩ { trials := 1 } Judge.standard {} 1 : Search Xoshiro ℚ).decide t 0).isOk =
        true :=
    ⟨_, _, rfl, rfl, rfl, by decide +kernel⟩
  obtain ⟨t₀, t, start, played, due, ends⟩ := dealt
  obtain ⟨a, decided, legal⟩ | ⟨cause, fault, _⟩ := @decide_isAllowed Xoshiro ℚ _ _ _ _ _ _
    (ofSettings ⟨0⟩ { trials := 1 } Judge.standard {} 1) 0 _ start played due
  · exact ⟨t₀, t, a, start, played, due, decided, legal⟩
  · rw [fault] at ends
    cases ends

end Search

end Holdem
