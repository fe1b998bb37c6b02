import Holdem.Table.Ledger
import Mathlib

/-!
# Ledgers read from another seat on

The rows of a ledger lie in a circle, of which a list shows one cut. A ledger that is cut elsewhere
has the same rows and the same order of the turns: whoever comes after a player comes after that
player wherever the list begins. Each operation on a ledger does the same to one that is cut
elsewhere, down to the reason why it fails.
-/

set_option autoImplicit false

namespace Holdem

/-- Where no key occurs twice, a search by key does not depend on the order. -/
theorem find?_key_perm {α : Type} {key : α → Player} {l m : List α} (perm : l.Perm m)
    (distinct : (l.map key).Nodup) (p : Player) :
    m.find? (fun a => key a == p) = l.find? (fun a => key a == p) := by
  cases found : l.find? (fun a => key a == p) with
  | none =>
    rw [List.find?_eq_none] at found ⊢
    exact fun a mem => found a (perm.mem_iff.2 mem)
  | some a =>
    have mem := List.mem_of_find?_eq_some found
    have own : key a = p := by simpa using List.find?_some found
    have some : (m.find? (fun a => key a == p)).isSome :=
      List.find?_isSome.2 ⟨a, perm.mem_iff.1 mem, by simp [own]⟩
    obtain ⟨b, other⟩ := Option.isSome_iff_exists.1 some
    have mem' := perm.mem_iff.2 (List.mem_of_find?_eq_some other)
    have own' : key b = p := by simpa using List.find?_some other
    rw [other, List.inj_on_of_nodup_map distinct mem' mem (own'.trans own.symm)]

namespace Ledger

variable {l : Ledger} {n : Nat} {p : Player}

/-- The ledger with its rows listed from another one on. -/
def turned (l : Ledger) (n : Nat) : Ledger := { l with rows := l.rows.rotate n }

/-- Turning by no seat changes nothing. -/
theorem turned_zero (l : Ledger) : l.turned 0 = l := by
  rw [turned, List.rotate_zero]

/-- Turning goes on one seat at a time. -/
theorem turned_succ (l : Ledger) (n : Nat) : l.turned (n + 1) = (l.turned n).turned 1 := by
  simp [turned, List.rotate_rotate]

/-! ## What a ledger answers -/

/-- Turning leaves each player's row as it is. -/
theorem row?_turned (distinct : (l.rows.map Row.player).Nodup) :
    (l.turned n).row? p = l.row? p :=
  find?_key_perm (List.rotate_perm l.rows n).symm distinct p

/-- Turning leaves each player's deficit as it is. -/
theorem deficit_turned (distinct : (l.rows.map Row.player).Nodup) :
    (l.turned n).deficit p = l.deficit p := by
  rw [deficit, row?_turned distinct]
  rfl

/-- Around a row lie those after it, then those before it. -/
theorem around_of_split (before after : List Row) {r : Row} (rows : l.rows = before ++ r :: after)
    (first : ∀ s ∈ before, s.player ≠ r.player) : l.around r.player = after ++ before := by
  have passed : ∀ s ∈ before, (s.player != r.player) = true := by simpa using first
  rw [around, rows, List.dropWhile_append_of_pos passed, List.takeWhile_append_of_pos passed]
  simp

/-- Nobody sits around a stranger. -/
theorem around_of_stranger (stranger : p ∉ l.rows.map Row.player) : l.around p = [] := by
  have passed : ∀ r ∈ l.rows, (r.player != p) = true := by
    intro r mem
    simpa using fun same : r.player = p => stranger (same ▸ List.mem_map_of_mem mem)
  rw [around, List.dropWhile_eq_nil_iff.2 passed]

/-- The first row listed last: the circle is the same. -/
theorem around_turned_one (distinct : (l.rows.map Row.player).Nodup) :
    (l.turned 1).around p = l.around p := by
  by_cases mem : p ∈ l.rows.map Row.player
  · cases listed : l.rows with
    | nil => simp [listed] at mem
    | cons x rows =>
      have turn : (l.turned 1).rows = rows ++ [x] := by simp [turned, listed]
      rw [listed, List.map_cons, List.nodup_cons] at distinct
      obtain ⟨r, inRows, rfl⟩ := List.mem_map.1 mem
      rw [listed, List.mem_cons] at inRows
      rcases inRows with rfl | later
      · have first : ∀ s ∈ rows, s.player ≠ r.player := fun s inRows same =>
          distinct.1 (same ▸ List.mem_map_of_mem inRows)
        rw [around_of_split [] rows listed (by simp), around_of_split rows [] turn first]
        simp
      · obtain ⟨before, after, rfl⟩ := List.append_of_mem later
        have first : ∀ s ∈ before, s.player ≠ r.player := by
          have apart := distinct.2
          rw [List.map_append, List.map_cons, List.nodup_append] at apart
          exact fun s inBefore => apart.2.2 _ (List.mem_map_of_mem inBefore) _ List.mem_cons_self
        have other : x.player ≠ r.player := fun same =>
          distinct.1 (same ▸ List.mem_map_of_mem later)
        have here := around_of_split (x :: before) after listed
          (List.forall_mem_cons.2 ⟨other, first⟩)
        have there := around_of_split (l := l.turned 1) before (after ++ [x])
          (by simpa using turn) first
        rw [here, there]
        simp
  · have mem' : p ∉ (l.turned 1).rows.map Row.player := by
      simpa [turned, List.map_rotate] using mem
    rw [around_of_stranger mem, around_of_stranger mem']

/-- Turning leaves the seats around a player in their order. -/
theorem around_turned (distinct : (l.rows.map Row.player).Nodup) :
    (l.turned n).around p = l.around p := by
  induction n with
  | zero => rw [turned_zero]
  | succ n ih =>
    have apart : ((l.turned n).rows.map Row.player).Nodup := by
      simpa [turned, List.map_rotate] using distinct
    rw [turned_succ, around_turned_one apart, ih]

/-- Turning leaves who acts after a player as it is. -/
theorem nextAfter_turned (distinct : (l.rows.map Row.player).Nodup) :
    (l.turned n).nextAfter p = l.nextAfter p := by
  rw [nextAfter, nextAfter, around_turned distinct]

/-- Turning leaves who opens after a player as it is. -/
theorem firstAfter_turned (distinct : (l.rows.map Row.player).Nodup) :
    (l.turned n).firstAfter p = l.firstAfter p := by
  rw [firstAfter, firstAfter, around_turned distinct, row?_turned distinct]

/-- Turning leaves the number of active players as it is. -/
@[simp] theorem activeCount_turned (l : Ledger) (n : Nat) :
    (l.turned n).activeCount = l.activeCount :=
  (List.rotate_perm l.rows n).countP_eq _

/-- Turning leaves the number of players who can still act as it is. -/
@[simp] theorem liveCount_turned (l : Ledger) (n : Nat) : (l.turned n).liveCount = l.liveCount :=
  (List.rotate_perm l.rows n).countP_eq _

/-- What holds of all members of a list holds of all after a rotation. -/
theorem all_rotate {α : Type} (xs : List α) (n : Nat) (f : α → Bool) :
    (xs.rotate n).all f = xs.all f := by
  rw [Bool.eq_iff_iff, List.all_eq_true, List.all_eq_true]
  simp

/-- Turning leaves the end of the round as it is. -/
@[simp] theorem isRoundOver_turned (l : Ledger) (n : Nat) :
    (l.turned n).isRoundOver = l.isRoundOver := by
  have matched : (l.turned n).isMatched = l.isMatched := all_rotate l.rows n _
  have acted : (l.turned n).allActed = l.allActed := all_rotate l.rows n _
  rw [isRoundOver, activeCount_turned, liveCount_turned, matched, acted, isRoundOver]

/-- Turning leaves the end of the hand as it is. -/
@[simp] theorem isHandOver_turned (l : Ledger) (n : Nat) :
    (l.turned n).isHandOver = l.isHandOver := by
  rw [isHandOver, activeCount_turned]
  rfl

/-! ## What is done to a ledger -/

/-- Turning passes through an update of one row. -/
theorem update_turned (l : Ledger) (n : Nat) (p : Player) (f : Row → Row) :
    (l.turned n).update p f = (l.update p f).turned n := by
  simp [update, turned, List.map_rotate]

/-- Turning passes through the end of a turn. -/
theorem closeTurn_turned (l : Ledger) (n : Nat) (p : Player) :
    (l.turned n).closeTurn p = (l.closeTurn p).turned n := by
  rw [closeTurn, update_turned]
  rfl

/-- Turning passes through a fold. -/
theorem fold_turned (l : Ledger) (n : Nat) (p : Player) :
    (l.turned n).fold p = (l.fold p).turned n := by
  rw [fold, update_turned, closeTurn_turned]
  rfl

/-- Turning passes through the reopening of the betting. -/
theorem reopen_turned (l : Ledger) (n : Nat) (p : Player) (stake : Chips) :
    (l.turned n).reopen p stake = (l.reopen p stake).map (turned · n) := by
  show (addCounts l.raises 1 >>= _) = _
  rw [reopen]
  cases addCounts l.raises 1 with
  | error e => rfl
  | ok raises => simp [turned, List.map_rotate, bind, Except.bind, Except.map, pure, Except.pure]

/-- Turning passes through a wager, which fails alike. -/
theorem wager_turned (l : Ledger) (n : Nat) (seat : Seat) (k : Chips) :
    (l.turned n).wager seat k =
      (l.wager seat k).map (fun after => (after.1.turned n, after.2)) := by
  rw [wager, wager]
  cases seat.bet k with
  | error e => rfl
  | ok new =>
    show (addChips l.round k >>= _) = Except.map _ (addChips l.round k >>= _)
    cases addChips l.round k with
    | error e => rfl
    | ok round =>
      have staked := update_turned { l with round } n new.player (fun r =>
        { r with stake := new.stake, live := r.live && new.status != Status.allIn })
      have flat : ({ l.turned n with round } : Ledger) = ({ l with round } : Ledger).turned n := rfl
      show (do
        let opened ← if l.largest < new.stake then
            (({ l.turned n with round } : Ledger).update new.player _).reopen new.player new.stake
          else pure (({ l.turned n with round } : Ledger).update new.player _)
        pure (opened.closeTurn new.player, new)) = _
      rw [flat, staked]
      by_cases above : l.largest < new.stake
      · rw [if_pos above, reopen_turned]
        show _ = Except.map _ (if l.largest < new.stake then _ else _)
        rw [if_pos above]
        cases reopen _ new.player new.stake with
        | error e => rfl
        | ok opened =>
          show Except.ok ((opened.turned n).closeTurn new.player, new) = _
          rw [closeTurn_turned]
          rfl
      · rw [if_neg above]
        show _ = Except.map _ (if l.largest < new.stake then _ else _)
        rw [if_neg above]
        show Except.ok ((turned _ n).closeTurn new.player, new) = _
        rw [closeTurn_turned]
        rfl

/-- Turning passes through the opening of a round, which fails alike. -/
theorem newRound_turned (distinct : (l.rows.map Row.player).Nodup) (street : Street)
    (board : Board) (dealer : Player) (bigBlind : Chips) :
    (l.turned n).newRound street board dealer bigBlind =
      (l.newRound street board dealer bigBlind).map (turned · n) := by
  rw [newRound, newRound, firstAfter_turned distinct]
  show (addChips l.carried l.round >>= _) = Except.map _ (addChips l.carried l.round >>= _)
  cases addChips l.carried l.round with
  | error e => rfl
  | ok carried => simp [turned, List.map_rotate, bind, Except.bind, Except.map, pure, Except.pure]

end Ledger

end Holdem
