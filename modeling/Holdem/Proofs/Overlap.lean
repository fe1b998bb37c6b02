import Holdem.Proofs.Hand.Counting
import Holdem.Proofs.Within

/-!
# Hands that share no card

Hands are joined only if they share no card, and a computation in which two joined hands do share
one ends in a fault. What is shown here is when two hands share no card, and that joining them then
does not fail and adds up their sizes.
-/

set_option autoImplicit false

namespace Holdem

namespace Hand

variable {h k l : Hand}

/-- No card is in both hands. -/
def Apart (h k : Hand) : Prop := ∀ c, c ∈ h → c ∉ k

/-- Sharing no card is symmetric. -/
theorem Apart.symm (apart : h.Apart k) : k.Apart h := fun c second first => apart c first second

/-- A hand is empty exactly when no card is in it. -/
theorem isEmpty_iff : h.isEmpty = true ↔ ∀ c, c ∉ h := by
  constructor
  · intro none c mem
    obtain rfl : h = empty := by
      obtain ⟨x⟩ := h
      exact congrArg Hand.mk (beq_iff_eq.1 none)
    rw [mem_def, contains_empty] at mem
    cases mem
  · intro none
    obtain rfl : h = empty := ext (fun c => by
      rw [contains_empty, Bool.eq_false_iff]
      exact none c)
    rfl

/-- Two hands do not overlap exactly when they share no card. -/
theorem overlaps_eq_false_iff : h.overlaps k = false ↔ h.Apart k := by
  rw [overlaps, Bool.not_eq_false', isEmpty_iff]
  simp only [mem_def, contains_inter, Bool.and_eq_true, not_and]
  rfl

/-- No card is in the empty hand. -/
theorem not_mem_empty (c : Card) : c ∉ empty := by
  rw [mem_def, contains_empty]
  exact Bool.false_ne_true

/-- A card is in a union exactly when it is in one of the hands. -/
theorem mem_union {c : Card} : c ∈ h.union k ↔ c ∈ h ∨ c ∈ k := by
  rw [mem_def, contains_union, Bool.or_eq_true]
  rfl

/-- Uniting with the empty hand changes nothing. -/
theorem union_empty (h : Hand) : h.union empty = h :=
  ext (fun c => by rw [contains_union, contains_empty, Bool.or_false])

/-- Uniting the empty hand with another gives the other. -/
theorem empty_union (h : Hand) : empty.union h = h :=
  ext (fun c => by rw [contains_union, contains_empty, Bool.false_or])

/-- Uniting hands is associative. -/
theorem union_assoc (h k l : Hand) : (h.union k).union l = h.union (k.union l) :=
  ext (fun c => by simp only [contains_union, Bool.or_assoc])

/-- The only card in the hand of one card is that card. -/
theorem mem_single {c d : Card} : d ∈ single c ↔ c = d := by
  rw [mem_def, contains_single, decide_eq_true_iff]

/-- What is left without a card is every other card. -/
theorem mem_erase {c d : Card} : d ∈ h.erase c ↔ d ∈ h ∧ c ≠ d := by
  rw [mem_def, contains_erase, Bool.and_eq_true, Bool.not_eq_true', decide_eq_false_iff_not]
  rfl

/-- A card is in the complement exactly when it is not in the hand. -/
theorem mem_complement {c : Card} : c ∈ h.complement ↔ c ∉ h := by
  rw [mem_def, contains_complement, Bool.not_eq_true', Bool.eq_false_iff]
  rfl

/-- A union shares no card with a hand exactly when neither part does. -/
theorem apart_union : (h.union k).Apart l ↔ h.Apart l ∧ k.Apart l := by
  simp only [Apart, mem_union]
  exact ⟨fun both => ⟨fun c mem => both c (.inl mem), fun c mem => both c (.inr mem)⟩,
    fun both c mem => mem.elim (both.1 c) (both.2 c)⟩

/-- Hands that share no card have as many cards together as both have. -/
theorem size_union (apart : h.Apart k) : (h.union k).size = h.size + k.size := by
  have count : ∀ cs : List Card,
      cs.countP (h.union k).contains = cs.countP h.contains + cs.countP k.contains := by
    intro cs
    induction cs with
    | nil => rfl
    | cons c cs ih =>
      have once : ¬ (h.contains c = true ∧ k.contains c = true) := fun both => apart c both.1 both.2
      simp only [List.countP_cons, contains_union, ih]
      cases first : h.contains c <;> cases second : k.contains c
      · simp
      · simp [Nat.add_assoc]
      · simp [Nat.add_right_comm]
      · exact absurd ⟨first, second⟩ once
  exact count Card.all

/-- The empty hand has no cards. -/
theorem size_empty : empty.size = 0 := by decide

/-- The hand of one card has one. -/
theorem size_single (c : Card) : (single c).size = 1 := by
  have distinct : Card.all.Nodup :=
    Card.all_sorted.imp (fun below same => absurd (same ▸ below) (Nat.lt_irrefl _))
  calc (single c).size
      = Card.all.count c := by
        refine List.countP_congr (fun d _ => ?_)
        rw [contains_single, decide_eq_true_iff, beq_iff_eq, eq_comm]
    _ = 1 := List.count_eq_one_of_mem distinct c.mem_all

/-- The cards outside a hand are the rest of the fifty-two. -/
theorem size_complement (h : Hand) : h.complement.size + h.size = 52 := by
  have outside : h.complement.size = Card.all.countP (fun c => ¬ h.contains c = true) := by
    refine List.countP_congr (fun c _ => ?_)
    simp [contains_complement]
  have all := List.length_eq_countP_add_countP h.contains (l := Card.all)
  have deck : Card.all.length = 52 := by decide
  rw [outside, size]
  lia

/-- A hand has at most the fifty-two cards. -/
theorem size_le (h : Hand) : h.size ≤ 52 := by
  have all := h.size_complement
  lia

/-- Hands that share no card join to their union. -/
theorem join_eq_ok (apart : h.Apart k) : h.join k = .ok (h.union k) := by
  rw [join, overlaps_eq_false_iff.2 apart]
  rfl

end Hand

/-! ## Computations -/

/-- The failure is not that of two hands with a card in common. -/
def Failure.NoOverlap (e : Failure) : Prop := ∀ h k, e ≠ .fault (.overlap h k)

namespace Outcome

variable {α : Type} {F : Failure → Prop} {P : α → Prop} {x : Outcome α}

/-- A computation that fails for other reasons only does not report an overlap. -/
theorem Within.ne_overlap (ends : Within Failure.NoOverlap P x) (h k : Hand) :
    x ≠ .error (.fault (.overlap h k)) := fun failed => ends.error failed h k rfl

/-- Joining hands that share no card ends well. -/
theorem within_join {h k : Hand} (apart : h.Apart k) :
    Within F (fun joined => joined = h.union k) (h.join k) :=
  within_of_ok (Hand.join_eq_ok apart) rfl

end Outcome

end Holdem
