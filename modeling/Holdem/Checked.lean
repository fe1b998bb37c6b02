import Holdem.Failure

/-!
# Checked operations

Amounts of chips fit in thirty-two bits, counts and token budgets in sixty-four. An operation whose
result does not fit, or whose assumption is broken, faults instead of giving a wrong answer.
-/

set_option autoImplicit false

namespace Holdem

/-- One more than the largest amount of chips. -/
def chipLimit : Nat := Nat.pow 2 32

/-- One more than the largest count. -/
def countLimit : Nat := Nat.pow 2 64

/-- The sum of two amounts of chips. -/
def addChips (a b : Chips) : Outcome Chips :=
  if a + b < chipLimit then .ok (a + b) else .error (.fault .addOverflow)

/-- The sum of a list of amounts of chips. -/
def sumChips (amounts : List Chips) : Outcome Chips := amounts.foldlM addChips 0

/-- The sum of two counts. -/
def addCounts (a b : Nat) : Outcome Nat :=
  if a + b < countLimit then .ok (a + b) else .error (.fault .addOverflow)

/-- The product of two counts. -/
def mulCounts (a b : Nat) : Outcome Nat :=
  if a * b < countLimit then .ok (a * b) else .error (.fault .mulOverflow)

/-- The union of two hands that share no card. -/
def Hand.join (h k : Hand) : Outcome Hand :=
  if h.overlaps k then .error (.fault (.overlap h k)) else .ok (h.union k)

/-- The street that follows; nothing follows the showdown. -/
def Street.next (s : Street) : Outcome Street :=
  match s.next? with
  | some t => .ok t
  | none => .error (.fault .terminal)

/-- The suit with a given place. -/
def Suit.ofIndex (n : Nat) : Outcome Suit :=
  match Suit.ofIndex? n with
  | some s => .ok s
  | none => .error (.fault (.outOfBounds 4 n))

/-- The rank with a given place. -/
def Rank.ofIndex (n : Nat) : Outcome Rank :=
  match Rank.ofIndex? n with
  | some r => .ok r
  | none => .error (.fault (.outOfBounds 13 n))

/-- The card with a given number. -/
def Card.ofCode (n : Nat) : Outcome Card :=
  match Card.ofCode? n with
  | some c => .ok c
  | none => .error (.fault .badCardCode)

/-- A sum of two amounts that fits is their sum, and no other sum ends well. -/
theorem addChips_eq_ok_iff {a b c : Chips} :
    addChips a b = .ok c ↔ c = a + b ∧ a + b < chipLimit := by
  unfold addChips
  split
  · next h => simp [h, eq_comm]
  · next h => simp [h]

/-- A sum of two amounts that does not fit overflows. -/
theorem addChips_eq_fault {a b : Chips} (large : chipLimit ≤ a + b) :
    addChips a b = .error (.fault .addOverflow) :=
  if_neg (Nat.not_lt.2 large)

/-- A sum of two counts that fits is their sum, and no other sum ends well. -/
theorem addCounts_eq_ok_iff {a b c : Nat} :
    addCounts a b = .ok c ↔ c = a + b ∧ a + b < countLimit := by
  unfold addCounts
  split
  · next h => simp [h, eq_comm]
  · next h => simp [h]

end Holdem
