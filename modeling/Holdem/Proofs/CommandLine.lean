import Holdem.CommandLine
import Holdem.Proofs.Search.Decision
import Holdem.Proofs.Search.Game

/-!
# The program decides like the driver

The program ranks the hero's actions and takes the best, without asking whose turn it is and without
a shortcut for a single option. It comes to the decision of the driver all the same. At its tables
the hero is due; a single option is to check or to fold, which is also what is left when nothing was
ranked; and whatever is ranked is an option. What the program prints above the decision can only
fail for an amount that does not fit.
-/

set_option autoImplicit false

namespace Holdem

/-- The failure ends the whole computation. -/
def Failure.IsFault (e : Failure) : Prop := ∃ cause, e = .fault cause

namespace Outcome

variable {α β : Type} {x : Outcome α}

/-- An attempt that brought a value is a computation that ended well. -/
theorem eq_ok_of_attempt {a : α} (ended : x.attempt = .ok (some a)) : x = .ok a := by
  cases x with
  | ok b =>
    obtain rfl := Option.some.inj (Except.ok.inj ended)
    rfl
  | error e => cases e <;> cases ended

/-- An attempt at two steps is an attempt at the second where the attempt at the first succeeds. -/
theorem attempt_bind (next : α → Outcome β) :
    (x >>= next).attempt = x.attempt >>= fun
      | some a => (next a).attempt
      | none => pure none := by
  cases x with
  | ok a => rfl
  | error e => cases e <;> rfl

/-- Only a fault is left of the failures of an attempt. -/
theorem within_attempt : Within Failure.IsFault (fun _ => True) x.attempt :=
  (within_any x).attempt.mono (fun _ ⟨cause, same, _⟩ => ⟨cause, same⟩) (fun _ _ => trivial)

end Outcome

/-! ## Deciding without a shortcut -/

namespace Search

variable {σ α : Type} [SeededSource σ] [Scalar α] {s : Search σ α} {t : Table} {tokens : Nat}

/-- Whatever is ranked is a candidate. -/
theorem mem_candidates_of_ranking {ranking : List (Action × α)} {actions : List Action}
    (ranked : s.ranking t tokens = .ok ranking)
    (listed : s.settings.sizing.candidates t = .ok actions) {a : Action}
    (mem : a ∈ ranking.map Prod.fst) : a ∈ actions := by
  obtain ⟨root, found, ended⟩ := bind_eq_ok.1 ranked
  obtain ⟨entries, lists, rfl⟩ := (within_rankingOf root).ok ended
  obtain ⟨entry, among, rfl⟩ := List.mem_map.1 mem
  obtain ⟨child, below, same, -⟩ :=
    exists_left_of_forall₂ lists ((Order.insertionSort_perm _ entries).mem_iff.1 among)
  obtain ⟨value, unfolds⟩ := unfolds_tree found
  have table : root.table = t := by rw [← Node.table_bare, unfolds.bare]; rfl
  obtain ⟨actions', listed', sub⟩ :=
    (unfolds.all root (.self root)).subperm_candidates (List.ne_nil_of_mem below)
  rw [table] at listed'
  obtain rfl := Except.ok.inj (listed'.symm.trans listed)
  exact same ▸ sub.subset (List.mem_map_of_mem below)

/-- The driver decides on the best action of its ranking, and to check or fold without one; a single
option is no exception. -/
theorem within_decide_of_attempt {seat : Seat} (acts : t.actor? = some seat)
    (due : t.nextToAct = some seat.player) (own : seat.player = s.bot)
    {ranked : Option (List (Action × α))} (ended : (s.ranking t tokens).attempt = .ok ranked) :
    Outcome.Within Failure.IsFault (· = (ranked.bind best).getD t.passive) (s.decide t tokens) := by
  unfold decide
  rw [if_neg (not_not.2 (due.trans (congrArg some own)))]
  cases listed : s.settings.sizing.candidates t with
  | error e =>
    obtain ⟨rfl, -⟩ := Sizing.candidates_eq_error acts listed
    exact ⟨.addOverflow, rfl⟩
  | ok actions =>
    have passive := Sizing.passive_mem_candidates acts due listed
    match actions with
    | [] => exact absurd passive List.not_mem_nil
    | [only] =>
      -- the shortcut gives the passive action, and so does any ranking: it lists nothing else
      obtain rfl := List.mem_singleton.1 passive
      show t.passive = (ranked.bind best).getD t.passive
      cases chosen : ranked.bind best with
      | none => rfl
      | some a =>
        obtain ⟨ranking, rfl, chosen⟩ := Option.bind_eq_some_iff.1 chosen
        have among := mem_candidates_of_ranking (Outcome.eq_ok_of_attempt ended) listed
          (mem_of_best chosen)
        exact (List.mem_singleton.1 among).symm
    | _ :: _ :: _ =>
      show Outcome.Within _ _ ((s.ranking t tokens).attempt >>= _)
      rw [ended]
      cases ranked with
      | none => rfl
      | some ranking => rfl

end Search

/-! ## What the program finds out -/

namespace Arguments

variable {a : Arguments} {t : Table} {settings : Settings} {seed : UInt64}

/-- The hero is due at the table of the arguments. -/
theorem exists_shows_of_table (opened : a.table = .ok t) :
    ∃ f, t.Shows f ∧ f.Sound ∧ f.next = some hero := by
  simp only [table, refuse_eq_ok, bind_eq_ok] at opened
  obtain ⟨_, _, _, _, _, _, _, _, _, start⟩ := opened
  obtain ⟨shown, sound⟩ := Table.ofSnapshot_shows start
  exact ⟨_, shown, sound, rfl⟩

variable {σ α : Type} [SeededSource σ] [Scalar α]

/-- The program decides on the best action of the ranking, and to check or fold without one. -/
theorem analyse_eq_ok {x : Analysis α} (found : a.analyse settings seed = .ok x) :
    a.table = .ok x.table ∧ ∃ ranked : Option (List (Action × α)),
      ((a.search settings seed).ranking x.table (a.override settings).tokens).attempt = .ok ranked ∧
        x.decision = (ranked.bind Search.best).getD x.table.passive := by
  obtain ⟨t, opened, found⟩ := bind_eq_ok.1 found
  obtain ⟨tree, searched, found⟩ := bind_eq_ok.1 found
  cases tree with
  | none =>
    obtain rfl := Except.ok.inj found
    refine ⟨opened, none, ?_, rfl⟩
    rw [Search.ranking, Outcome.attempt_bind, searched]
    rfl
  | some tree =>
    obtain ⟨ranked, listed, same⟩ := bind_eq_ok.1 found
    obtain rfl := Except.ok.inj same
    refine ⟨opened, ranked, ?_, ?_⟩
    · rw [Search.ranking, Outcome.attempt_bind, searched]
      exact listed
    · cases ranked with
      | none => rfl
      | some ranking => rfl

/-- Nothing but a fault keeps the program from an analysis of its table. -/
theorem within_analyse (opened : a.table = .ok t) :
    Outcome.Within Failure.IsFault (fun x => x.table = t)
      (a.analyse settings seed : Outcome (Analysis α)) := by
  unfold analyse
  rw [opened]
  refine Outcome.within_attempt.bind (fun tree _ => ?_)
  cases tree with
  | none => exact rfl
  | some tree => exact Outcome.within_attempt.bind (fun _ _ => rfl)

end Arguments

/-! ## What the program prints -/

/-- Adding up the pot can only fault. -/
theorem Table.within_pot (t : Table) : Outcome.Within Failure.IsFault (fun _ => True) t.pot :=
  (Outcome.within_addChips _ _).mono (fun _ overflow => ⟨.addOverflow, overflow.1⟩)
    (fun _ _ => trivial)

/-- Writing out a shown table can only fault. -/
theorem Table.Shows.within_text {t : Table} {f : Flat} (h : t.Shows f) (sound : f.Sound) :
    Outcome.Within Failure.IsFault (fun _ => True) t.text := by
  unfold Table.text
  rw [h.seats_eq sound]
  exact t.within_pot.bind (fun _ _ => trivial)

namespace Node

/-- Writing the line of a node can only fault, as it adds up the pot. -/
theorem within_lineText (n : Node Float) (depth : Nat) (edge : String) :
    Outcome.Within Failure.IsFault (fun _ => True) (n.lineText depth edge) :=
  n.table.within_pot.bind (fun _ _ => trivial)

mutual

/-- Writing the outline of a node can only fault. -/
theorem within_outlineAt (depth : Nat) (edge : String) : ∀ n : Node Float,
    Outcome.Within Failure.IsFault (fun _ => True) (outlineAt depth edge n)
  | .choice here children =>
    (within_lineText (.choice here children) depth edge).bind fun _ _ =>
      (within_outlineOfChildren (depth + 1) children).bind fun _ _ => trivial
  | .leaf here => within_lineText (.leaf here) depth edge

/-- Writing the outline of some children can only fault. -/
theorem within_outlineOfChildren (depth : Nat) : ∀ children : List (Child Float),
    Outcome.Within Failure.IsFault (fun _ => True) (outlineOfChildren depth children)
  | [] => trivial
  | child :: children =>
    (within_outlineOfChild depth child).bind fun _ _ =>
      (within_outlineOfChildren depth children).bind fun _ _ => trivial

/-- Writing the outline of a child can only fault. -/
theorem within_outlineOfChild (depth : Nat) : ∀ child : Child Float,
    Outcome.Within Failure.IsFault (fun _ => True) (outlineOfChild depth child)
  | .mk _ node => within_outlineAt depth _ node

end

end Node

namespace Arguments

variable {a : Arguments} {t : Table} {settings : Settings} {seed : UInt64}

/-- The report of an analysis ends with the decision. -/
theorem Analysis.getLast?_lines {x : Analysis Float} {report : Report}
    (reported : x.report = .ok report) :
    report.code = 0 ∧ report.lines.getLast? = some ("decision: " ++ x.decision.text) := by
  have lines : (answerLines x.ranking x.decision).getLast? =
      some ("decision: " ++ x.decision.text) := List.getLast?_concat
  obtain ⟨table, -, rest⟩ := bind_eq_ok.1 reported
  cases tree : x.tree with
  | none =>
    simp only [tree] at rest
    obtain rfl := Except.ok.inj rest
    exact ⟨rfl, lines⟩
  | some root =>
    simp only [tree] at rest
    obtain ⟨outline, -, same⟩ := bind_eq_ok.1 rest
    obtain rfl := Except.ok.inj same
    exact ⟨rfl, lines⟩

/-- Once the arguments describe a table, answering can only fault. -/
theorem within_answer (opened : a.table = .ok t) :
    Outcome.Within Failure.IsFault (fun _ => True) (a.answer settings seed) := by
  obtain ⟨f, shown, sound, -⟩ := exists_shows_of_table opened
  refine (within_analyse opened).bind (fun x same => ?_)
  unfold Analysis.report
  rw [same]
  refine (shown.within_text sound).bind (fun _ _ => ?_)
  cases x.tree with
  | none => trivial
  | some tree => exact (tree.within_outlineAt 0 "*").bind (fun _ _ => trivial)

/-- For all arguments that describe settings and a table: unless the program or the driver ends in a
fault, the program ends well, and the decision in its last line is the one of the driver for the
same settings, seed and tokens. Time is no matter: it is over from the start for both, or for
neither. -/
theorem run_decides_alike {read : String → Except ReadError String}
    (loaded : a.loadSettings read = .ok settings) (opened : a.table = .ok t)
    (printed : (a.run read seed).code ≠ 101)
    (decided : ∀ cause, (a.search settings seed : Search Xoshiro Float).decide t
      (a.override settings).tokens ≠ .error (.fault cause)) :
    ∃ (d : Action) (x : Analysis Float),
      (a.search settings seed : Search Xoshiro Float).decide t (a.override settings).tokens =
        .ok d ∧
        a.analyse settings seed = .ok x ∧ x.decision = d ∧ (a.run read seed).code = 0 ∧
          (a.run read seed).lines.getLast? = some ("decision: " ++ d.text) := by
  cases answered : a.answer settings seed with
  | error e =>
    obtain ⟨cause, rfl⟩ := (within_answer opened).error answered
    have ran : a.run read seed = { code := 101 } := by
      simp only [run, loaded, answered]
    exact absurd (congrArg Report.code ran) printed
  | ok report =>
    have ran : a.run read seed = report := by
      simp only [run, loaded, answered]
    obtain ⟨x, found, reported⟩ := bind_eq_ok.1 answered
    obtain ⟨code, last⟩ := Analysis.getLast?_lines reported
    obtain ⟨opened', ranked, ended, decision⟩ := analyse_eq_ok found
    obtain rfl : x.table = t := Except.ok.inj (opened'.symm.trans opened)
    obtain ⟨f, shown, sound, next⟩ := exists_shows_of_table opened
    obtain ⟨seat, acts, own⟩ := shown.exists_actor sound next
    have due : x.table.nextToAct = some seat.player :=
      own ▸ (shown.answers sound).nextToAct.trans next
    have alike := Search.within_decide_of_attempt acts due own ended
    rw [← decision] at alike
    rw [ran]
    cases ends : (a.search settings seed : Search Xoshiro Float).decide x.table
        (a.override settings).tokens with
    | error e =>
      obtain ⟨cause, rfl⟩ := alike.error ends
      exact absurd ends (decided cause)
    | ok d =>
      obtain rfl : d = x.decision := alike.ok ends
      exact ⟨x.decision, x, rfl, found, rfl, code, last⟩

/-- Two aces on the river, and a bet of more than the stack to answer without tokens. -/
def riverAces : Arguments where
  hole := "As Ah"
  board := "Ks Qd 2c 7h 3d"
  pot := 3
  stack := 4
  villainStack := 8
  facing := 8
  tokens := some 0
  seed := some 1

/-- Both come to all in rather than to the fold. -/
theorem run_decides_alike_aces : ∃ (t : Table) (x : Analysis Float),
    riverAces.loadSettings (fun _ => .error .missing) = .ok {} ∧ riverAces.table = .ok t ∧
    (riverAces.search {} 0 : Search Xoshiro Float).decide t 0 = .ok (.shove 4) ∧
    riverAces.analyse {} 0 = .ok x ∧ x.decision = .shove 4 ∧
    (riverAces.run (fun _ => .error .missing) 0).code = 0 ∧
    (riverAces.run (fun _ => .error .missing) 0).lines.getLast? = some "decision: SHOVE 4" := by
  have dealt : ∃ t, riverAces.table = .ok t ∧
      (riverAces.search {} 0 : Search Xoshiro Float).decide t 0 = .ok (.shove 4) :=
    ⟨_, rfl, by decide +kernel⟩
  obtain ⟨t, opened, decided⟩ := dealt
  have loaded : riverAces.loadSettings (fun _ => .error .missing) = .ok {} := rfl
  have printed : (riverAces.run (fun _ => .error .missing) 0).code ≠ 101 := by decide +kernel
  have noFault : ∀ cause, (riverAces.search {} 0 : Search Xoshiro Float).decide t 0 ≠
      .error (.fault cause) := by
    intro cause fault
    cases decided.symm.trans fault
  obtain ⟨d, x, same, found, decision, code, last⟩ :=
    run_decides_alike loaded opened printed noFault
  obtain rfl : d = .shove 4 := Except.ok.inj (same.symm.trans decided)
  exact ⟨t, x, loaded, opened, decided, found, decision, code, last⟩

end Arguments

end Holdem
