import Holdem.Failure

/-!
# Outcomes

How an outcome computed in steps came about, what it means that a computation which says why it
fails agrees with one that only fails, and what it means that two computations match down to the
reason why they fail.
-/

set_option autoImplicit false

namespace Holdem

/-- A computation in two steps ends well if both steps do. -/
theorem bind_eq_ok {ε α β : Type} {x : Except ε α} {next : α → Except ε β} {b : β} :
    (x >>= next) = .ok b ↔ ∃ a, x = .ok a ∧ next a = .ok b := by
  cases x with
  | error e => simp [bind, Except.bind]
  | ok a => simp [bind, Except.bind]

/-- A computation that starts by refusing a condition ends well if the condition fails and the rest
ends well. -/
theorem refuse_eq_ok {ε α β : Type} {c : Prop} [Decidable c] {e : ε} {next : α → Except ε β}
    {rest : Except ε β} {b : β} :
    (if c then (throw e : Except ε α) >>= next else rest) = .ok b ↔ ¬ c ∧ rest = .ok b := by
  by_cases h : c
  · rw [if_pos h]
    constructor
    · intro ended
      cases ended
    · rintro ⟨not, _⟩
      exact absurd h not
  · simp [h]

/-- A computation in two steps does not fail in a way in which neither of its steps does. -/
theorem bind_ne_error {ε α β : Type} {x : Except ε α} {next : α → Except ε β} {e : ε}
    (first : x ≠ .error e) (rest : ∀ a, next a ≠ .error e) : (x >>= next) ≠ .error e := by
  cases x with
  | error e' =>
    intro failed
    cases failed
    exact first rfl
  | ok a => exact rest a

/-- A list of computations does not fail in a way in which none of them does. -/
theorem mapM_ne_error {ε α β : Type} {xs : List α} {f : α → Except ε β} {e : ε}
    (each : ∀ a, f a ≠ .error e) : xs.mapM f ≠ .error e := by
  induction xs with
  | nil =>
    rw [List.mapM_nil]
    simp [pure, Except.pure]
  | cons a xs ih =>
    rw [List.mapM_cons]
    apply bind_ne_error (each a)
    intro b
    apply bind_ne_error ih
    intro bs
    simp [pure, Except.pure]

/-- A computation fails if it does once something is made of its value. -/
theorem eq_error_of_map {ε α β : Type} {x : Except ε α} {f : α → β} {e : ε}
    (failed : x.map f = .error e) : x = .error e := by
  cases x with
  | ok a => cases failed
  | error failure =>
    cases failed
    rfl

/-- A computation ends in a value if it does once something is made of it. -/
theorem exists_ok_of_map {ε α β : Type} {x : Except ε α} {f : α → β} {b : β}
    (ended : x.map f = .ok b) : ∃ a, x = .ok a ∧ f a = b := by
  cases x with
  | ok a => exact ⟨a, rfl, Except.ok.inj ended⟩
  | error failure => cases ended

/-- A list of computations that all end well ends in the list of their values. -/
theorem mapM_eq_ok {ε α β : Type} {xs : List α} {f : α → Except ε β} {g : α → β}
    (h : ∀ a ∈ xs, f a = .ok (g a)) : xs.mapM f = .ok (xs.map g) := by
  induction xs with
  | nil => rfl
  | cons a xs ih =>
    have rest := ih (fun b mem => h b (List.mem_cons_of_mem a mem))
    rw [List.mapM_cons, h a List.mem_cons_self, rest]
    rfl

namespace Outcome

variable {α β γ δ : Type}

/-- Both computations end, in values that are related, or neither does. -/
def Agrees (R : α → β → Prop) : Outcome α → Option β → Prop
  | .ok a, some b => R a b
  | .error _, none => True
  | .ok _, none => False
  | .error _, some _ => False

variable {R : α → β → Prop} {S : γ → δ → Prop} {x : Outcome α} {y : Option β}

/-- Computations that agree keep agreeing when what follows them agrees. -/
theorem Agrees.bind {next : α → Outcome γ} {next' : β → Option δ} (first : Agrees R x y)
    (rest : ∀ a b, x = .ok a → y = some b → R a b → Agrees S (next a) (next' b)) :
    Agrees S (x >>= next) (y >>= next') := by
  cases x with
  | error e =>
    cases y with
    | none => trivial
    | some b => exact first.elim
  | ok a =>
    cases y with
    | none => exact first.elim
    | some b => exact rest a b rfl rfl first

/-- Agreement up to a relation is agreement up to any weaker one. -/
theorem Agrees.mono {R' : α → β → Prop} (h : Agrees R x y) (weaker : ∀ a b, R a b → R' a b) :
    Agrees R' x y := by
  cases x with
  | error e =>
    cases y with
    | none => trivial
    | some b => exact h.elim
  | ok a =>
    cases y with
    | none => exact h.elim
    | some b => exact weaker a b h

/-- Computations that answer the same values agree on them. -/
theorem agrees_eq {x : Outcome α} {y : Option α} (h : ∀ a, x = .ok a ↔ y = some a) :
    Agrees Eq x y := by
  cases x with
  | error e =>
    cases y with
    | none => trivial
    | some a => exact absurd ((h a).2 rfl) (by simp)
  | ok a =>
    rw [(h a).1 rfl]
    rfl

/-- A computation that answers nothing agrees with one that has nothing to answer. -/
theorem agrees_none (h : ∀ a, x ≠ .ok a) : Agrees R x none := by
  cases x with
  | error e => trivial
  | ok a => exact absurd rfl (h a)

/-- Of two computations that agree one answers exactly when the other does. -/
theorem Agrees.exists_ok_iff (h : Agrees R x y) : (∃ a, x = .ok a) ↔ ∃ b, y = some b := by
  cases x with
  | error e =>
    cases y with
    | none => simp
    | some b => exact h.elim
  | ok a =>
    cases y with
    | none => exact h.elim
    | some b => simp

/-- What one computation answers, the one that agrees with it answers up to the relation. -/
theorem Agrees.exists_some {a : α} (h : Agrees R x y) (ended : x = .ok a) :
    ∃ b, y = some b ∧ R a b := by
  subst ended
  cases y with
  | none => exact h.elim
  | some b => exact ⟨b, rfl, h⟩

/-- An answer of the second computation is one of the first up to the relation. -/
theorem Agrees.exists_ok {b : β} (h : Agrees R x y) (ended : y = some b) :
    ∃ a, x = .ok a ∧ R a b := by
  subst ended
  cases x with
  | error e => exact h.elim
  | ok a => exact ⟨a, rfl, h⟩

/-! ## Computations that say why they fail -/

/-- Both computations end, in values that are related, or both fail in the same way. -/
def Matches (R : α → γ → Prop) : Outcome α → Outcome γ → Prop
  | .ok a, .ok c => R a c
  | .error e, .error e' => e = e'
  | .ok _, .error _ => False
  | .error _, .ok _ => False

section Matches

variable {R : α → γ → Prop} {S : β → δ → Prop} {x : Outcome α} {y : Outcome γ}

/-- Every computation matches itself where the relation is reflexive. -/
theorem matches_refl {R : α → α → Prop} (refl : ∀ a, R a a) (x : Outcome α) : Matches R x x := by
  cases x with
  | error e => rfl
  | ok a => exact refl a

/-- Computations that match keep matching when what follows them matches. -/
theorem Matches.bind {next : α → Outcome β} {next' : γ → Outcome δ} (first : Matches R x y)
    (rest : ∀ a c, R a c → Matches S (next a) (next' c)) :
    Matches S (x >>= next) (y >>= next') := by
  cases x with
  | error e =>
    cases y with
    | error e' => exact first
    | ok c => exact first.elim
  | ok a =>
    cases y with
    | error e' => exact first.elim
    | ok c => exact rest a c first

/-- Matching up to a relation is matching up to any weaker one. -/
theorem Matches.mono {R' : α → γ → Prop} (h : Matches R x y) (weaker : ∀ a c, R a c → R' a c) :
    Matches R' x y := by
  cases x with
  | error e =>
    cases y with
    | error e' => exact h
    | ok c => exact h.elim
  | ok a =>
    cases y with
    | error e' => exact h.elim
    | ok c => exact weaker a c h

/-- Steps that keep a relation keep it however many there are. -/
theorem matches_foldlM {step : α → β → Outcome α} {step' : γ → β → Outcome γ}
    (each : ∀ a c b, R a c → Matches R (step a b) (step' c b)) (bs : List β) {a : α} {c : γ}
    (start : R a c) : Matches R (bs.foldlM step a) (bs.foldlM step' c) := by
  induction bs generalizing a c with
  | nil => exact start
  | cons b bs ih =>
    rw [List.foldlM_cons, List.foldlM_cons]
    exact (each a c b start).bind (fun a' c' related => ih related)

end Matches

end Outcome

end Holdem
