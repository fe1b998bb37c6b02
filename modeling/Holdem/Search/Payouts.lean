import Holdem.Scalar
import Holdem.Table.Player

/-!
# Payouts

A bag of payouts counts how often each payout came up. It is kept in increasing order of the
payouts, each listed once.
-/

set_option autoImplicit false

namespace Holdem

/-- How often each payout came up, in increasing order of the payouts. -/
structure Payouts where
  counts : List (Chips × Nat) := []
  deriving DecidableEq, Repr

namespace Payouts

/-- Some counts with one more of a payout. -/
def addTo (payout : Chips) : List (Chips × Nat) → List (Chips × Nat)
  | [] => [(payout, 1)]
  | (other, n) :: rest =>
    if payout < other then (payout, 1) :: (other, n) :: rest
    else if payout = other then (other, n + 1) :: rest
    else (other, n) :: addTo payout rest

/-- The bag with one more payout. -/
def add (b : Payouts) (payout : Chips) : Payouts := ⟨addTo payout b.counts⟩

/-- The bag of a list of payouts. -/
def ofList (payouts : List Chips) : Payouts := payouts.foldl add {}

/-- How many payouts there are. -/
def size (b : Payouts) : Nat := (b.counts.map Prod.snd).foldr (· + ·) 0

/-- Whether nothing was paid. -/
def isEmpty (b : Payouts) : Bool := b.counts.isEmpty

/-- The mean payout, if there is any. -/
def mean? {α : Type} [Scalar α] (b : Payouts) : Option α :=
  match b.size with
  | 0 => none
  | n =>
    let terms := b.counts.map (fun (payout, count) =>
      (Scalar.ofNat payout : α) * Scalar.ofNat count)
    some (Scalar.sum terms / Scalar.ofNat n)

/-- The text of a bag: each payout with its count, in braces. -/
def text (b : Payouts) : String :=
  let entries := b.counts.map (fun (payout, count) => s!"{payout}x{count}")
  "\x7b" ++ String.intercalate " " entries ++ "\x7d"

end Payouts

end Holdem
