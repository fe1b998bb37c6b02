import Holdem.Card
import Holdem.Text.Blank

/-!
# Reading cards

A card is written as a rank symbol and a suit symbol. Letters may be of either case, a suit may be
given by its playing card symbol, and blanks are free. A text that is no card is refused with the
reason, which quotes the text as it was given.
-/

set_option autoImplicit false

namespace Holdem

/-- Why a text was refused as a rank, a suit, a card or a collection of cards. -/
inductive CardError where
  | badRank (text : String)
  | badSuit (text : String)
  /-- A card has exactly two symbols. -/
  | badShape (text : String)
  /-- A run of cards has an even number of symbols. -/
  | dangling (text : String)
  | duplicates (text : String)
  /-- A hole has exactly two cards. -/
  | badHole (size : Nat)
  deriving DecidableEq, Repr

namespace CardError

/-- The wording of a refusal. -/
def message : CardError → String
  | badRank text => "invalid rank: " ++ text
  | badSuit text => "invalid suit: " ++ text
  | badShape text => "card needs a rank and a suit: " ++ text
  | dangling text => "dangling symbol in " ++ text
  | duplicates text => "duplicate cards in " ++ text
  | badHole size => s!"hole needs exactly two cards, got {size}"

end CardError

namespace Rank

/-- The rank with a given symbol, in either case. -/
def ofSymbol? (c : Char) : Option Rank := all.find? (fun r => r.symbol == c.toUpper)

/-- Reads a rank from a text of one symbol, blanks around it aside. -/
def read (text : String) : Except CardError Rank :=
  match Text.trim text.toList with
  | [c] =>
    match ofSymbol? c with
    | some r => .ok r
    | none => .error (.badRank text)
  | _ => .error (.badRank text)

end Rank

namespace Suit

/-- The suit with a given letter, in either case, or a given playing card symbol. -/
def ofSymbol? (c : Char) : Option Suit :=
  all.find? (fun s => s.letter == c.toLower || s.glyph == c)

/-- Reads a suit from a text of one symbol, blanks around it aside. -/
def read (text : String) : Except CardError Suit :=
  match Text.trim text.toList with
  | [c] =>
    match ofSymbol? c with
    | some s => .ok s
    | none => .error (.badSuit text)
  | _ => .error (.badSuit text)

end Suit

namespace Card

/-- The card of a rank symbol and a suit symbol. -/
def ofSymbols (r s : Char) : Except CardError Card := do
  let rank ← Rank.read (String.singleton r)
  let suit ← Suit.read (String.singleton s)
  return ⟨rank, suit⟩

/-- Reads one card; nothing but its two symbols may stand between the blanks around it. -/
def read (text : String) : Except CardError Card :=
  match Text.trim text.toList with
  | [r, s] => ofSymbols r s
  | symbols => .error (.badShape (String.ofList symbols))

/-- The cards of a run of symbols taken two by two; a last symbol without a partner is left. -/
def ofPairs : List Char → Except CardError (List Card)
  | r :: s :: rest => do
    let card ← ofSymbols r s
    let cards ← ofPairs rest
    return card :: cards
  | _ => .ok []

/-- Reads any number of cards, one after the other, with blanks anywhere. -/
def readMany (text : String) : Except CardError (List Card) :=
  let symbols := Text.squeeze text.toList
  if symbols.length % 2 = 0 then ofPairs symbols else .error (.dangling text)

end Card

end Holdem
