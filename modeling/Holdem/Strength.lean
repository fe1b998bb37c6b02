import Holdem.Hand
import Holdem.Text.Column

/-!
# The strength of a hand

A hand of any size is worth the best five cards in it. Its category is the first that applies,
from the straight flush down: how often a rank occurs decides pairs, trips and quads, five ranks in
a row make a straight, and five cards of one suit a flush. A category names the ranks that make it;
the highest other ranks, as many as are needed to fill five cards, are the kickers. Strengths are
compared by category, then by its ranks, then by the kickers.
-/

set_option autoImplicit false

namespace Holdem

/-- The category of a hand, with the ranks that make it. -/
inductive Category where
  | highCard (top : Rank)
  | onePair (pair : Rank)
  | twoPair (high low : Rank)
  | trips (rank : Rank)
  | straight (top : Rank)
  | flush (top : Rank)
  | fullHouse (triple pair : Rank)
  | quads (rank : Rank)
  | straightFlush (top : Rank)
  deriving DecidableEq, Repr

namespace Category

/-- The place of the category's kind, from the high card up. -/
def kind : Category → Nat
  | highCard _ => 0
  | onePair _ => 1
  | twoPair _ _ => 2
  | trips _ => 3
  | straight _ => 4
  | flush _ => 5
  | fullHouse _ _ => 6
  | quads _ => 7
  | straightFlush _ => 8

/-- The ranks that make the category, the deciding one first. -/
def ranks : Category → List Rank
  | twoPair high low => [high, low]
  | fullHouse triple pair => [triple, pair]
  | highCard r | onePair r | trips r | straight r | flush r | quads r | straightFlush r => [r]

/-- How many cards outside the category count. -/
def kickers : Category → Nat
  | highCard _ | flush _ => 4
  | onePair _ => 3
  | trips _ => 2
  | quads _ | twoPair _ _ => 1
  | straight _ | fullHouse _ _ | straightFlush _ => 0

/-- The ranks that may serve as kickers: those that do not make the category. -/
def outside (c : Category) : RankSet := (RankSet.ofRanks c.ranks).complement

/-- The name of the category's kind. -/
def name : Category → String
  | highCard _ => "high card"
  | onePair _ => "pair"
  | twoPair _ _ => "two pair"
  | trips _ => "trips"
  | straight _ => "straight"
  | flush _ => "flush"
  | fullHouse _ _ => "full house"
  | quads _ => "quads"
  | straightFlush _ => "straight flush"

/-- The text of a category: its name in a column of fifteen, then its ranks in a column of two. -/
def text (c : Category) : String :=
  Text.padRight 15 c.name ++ Text.padRight 2 (String.join (c.ranks.map Rank.text))

end Category

/-- What a hand is worth: its category and its kickers. -/
structure Strength where
  category : Category
  kickers : RankSet
  deriving DecidableEq, Repr

namespace Strength

/-- A number that orders strengths: the category's kind, then its ranks, then the kickers. -/
def value (s : Strength) : Nat :=
  let first := match s.category.ranks with
    | r :: _ => r.index
    | [] => 0
  let second := match s.category.ranks with
    | [_, r] => r.index
    | _ => 0
  ((s.category.kind * 13 + first) * 13 + second) * Nat.pow 2 16 + s.kickers.value

/-- The order of two strengths. -/
def compare (s t : Strength) : Ordering := Ord.compare s.value t.value

/-- The text of a strength: its category, then its kickers. -/
def text (s : Strength) : String := s.category.text ++ s.kickers.text

end Strength

/-- The ranks of a straight with a given top. The ace opens the lowest straight, which the five
tops; below it there is none. -/
def straightTo (top : Rank) : List Rank :=
  if top.index < 3 then []
  else if top = .five then [.ace, .two, .three, .four, .five]
  else (Rank.all.drop (top.index - 4)).take 5

/-- The top of the highest straight in a set of ranks. -/
def RankSet.straightTop? (a : RankSet) : Option Rank :=
  (Rank.all.drop 3).reverse.find? (fun top => (straightTo top).all a.contains)

namespace Hand

/-- The first suit in which a hand has five cards. -/
def flushSuit? (h : Hand) : Option Suit := Suit.all.find? (fun s => 5 ≤ (h.inSuit s).size)

/-- The highest rank, other than a given one, that a hand holds `n` times or more. -/
def topOf? (h : Hand) (n : Nat) (other : Option Rank) : Option Rank :=
  Rank.all.reverse.find? (fun r => other != some r && n ≤ h.multiplicity r)

/-- A full house: the highest trips, and the highest other rank held twice. -/
def fullHouse? (h : Hand) : Option Category := do
  let triple ← h.topOf? 3 none
  let pair ← h.topOf? 2 (some triple)
  return .fullHouse triple pair

/-- The highest pair, with the second highest if there is one. -/
def pairs? (h : Hand) : Option Category :=
  (h.topOf? 2 none).map fun high =>
    match h.topOf? 2 (some high) with
    | some low => .twoPair high low
    | none => .onePair high

/-- The category of a hand; a hand without cards has none. -/
def category? (h : Hand) : Option Category :=
  (h.flushSuit?.bind fun s => (h.suitRanks s).straightTop?).map .straightFlush
    <|> (h.topOf? 4 none).map .quads
    <|> h.fullHouse?
    <|> (h.flushSuit?.bind fun s => (h.suitRanks s).highest?).map .flush
    <|> h.rankSet.straightTop?.map .straight
    <|> (h.topOf? 3 none).map .trips
    <|> h.pairs?
    <|> (h.topOf? 1 none).map .highCard

/-- The ranks from which a category takes its kickers: those of the flush for a flush, and all of
the hand's ranks otherwise. -/
def kickerPool (h : Hand) : Category → RankSet
  | .flush _ => (h.flushSuit?.map h.suitRanks).getD RankSet.empty
  | _ => h.rankSet

/-- The kickers of a hand for a category: the highest ranks of its pool outside the category. -/
def kickers (h : Hand) (c : Category) : RankSet :=
  ((h.kickerPool c).inter c.outside).keepTop c.kickers

/-- The strength of a hand; a hand without cards has none. -/
def strength? (h : Hand) : Option Strength := h.category?.map fun c => ⟨c, h.kickers c⟩

end Hand

/-- A rule that ranks hands, and may fail to. -/
abbrev Judge := Hand → Option Strength

/-- The rule of the game: every hand that has a card is ranked. -/
def Judge.standard : Judge := Hand.strength?

end Holdem
