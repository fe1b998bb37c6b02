/-!
# Playing cards

A card is a rank in a suit. Cards are numbered rank by rank: the four deuces come first, then the
treys, up to the four aces, and within a rank clubs come before diamonds, hearts and spades. The
number of a card is its place in that order, and every order on cards in this library is that one.
-/

set_option autoImplicit false

namespace Holdem

/-- The four suits, lowest first. -/
inductive Suit where
  | clubs | diamonds | hearts | spades
  deriving DecidableEq, Repr, Inhabited

namespace Suit

/-- Every suit, in order. -/
def all : List Suit := [clubs, diamonds, hearts, spades]

/-- The place of a suit in the order. -/
def index : Suit → Nat
  | clubs => 0
  | diamonds => 1
  | hearts => 2
  | spades => 3

/-- The letter a suit is written with. -/
def letter : Suit → Char
  | clubs => 'c'
  | diamonds => 'd'
  | hearts => 'h'
  | spades => 's'

/-- The playing card symbol of a suit. -/
def glyph : Suit → Char
  | clubs => '♣'
  | diamonds => '♦'
  | hearts => '♥'
  | spades => '♠'

/-- The suit with a given place. -/
def ofIndex? (n : Nat) : Option Suit := all[n]?

/-- The text of a suit. -/
def text (s : Suit) : String := String.singleton s.letter

/-- The list of suits is complete. -/
theorem mem_all (s : Suit) : s ∈ all := by cases s <;> decide

/-- There are four suits. -/
theorem index_lt (s : Suit) : s.index < 4 := by cases s <;> decide

/-- A suit is known by its place. -/
theorem index_injective {s t : Suit} (h : s.index = t.index) : s = t := by
  cases s <;> cases t <;> first | rfl | simp [index] at h

/-- Reading the place of a suit finds it again. -/
theorem ofIndex?_index (s : Suit) : ofIndex? s.index = some s := by cases s <;> rfl

end Suit

/-- The thirteen ranks, lowest first. -/
inductive Rank where
  | two | three | four | five | six | seven | eight | nine | ten | jack | queen | king | ace
  deriving DecidableEq, Repr, Inhabited

namespace Rank

/-- Every rank, in order. -/
def all : List Rank :=
  [two, three, four, five, six, seven, eight, nine, ten, jack, queen, king, ace]

/-- The place of a rank in the order. -/
def index : Rank → Nat
  | two => 0
  | three => 1
  | four => 2
  | five => 3
  | six => 4
  | seven => 5
  | eight => 6
  | nine => 7
  | ten => 8
  | jack => 9
  | queen => 10
  | king => 11
  | ace => 12

/-- The character a rank is written with. -/
def symbol : Rank → Char
  | two => '2'
  | three => '3'
  | four => '4'
  | five => '5'
  | six => '6'
  | seven => '7'
  | eight => '8'
  | nine => '9'
  | ten => 'T'
  | jack => 'J'
  | queen => 'Q'
  | king => 'K'
  | ace => 'A'

/-- The rank with a given place. -/
def ofIndex? (n : Nat) : Option Rank := all[n]?

/-- The text of a rank. -/
def text (r : Rank) : String := String.singleton r.symbol

/-- The list of ranks is complete. -/
theorem mem_all (r : Rank) : r ∈ all := by cases r <;> decide

/-- There are thirteen ranks. -/
theorem index_lt (r : Rank) : r.index < 13 := by cases r <;> decide

/-- A rank is known by its place. -/
theorem index_injective {r s : Rank} (h : r.index = s.index) : r = s := by
  cases r <;> cases s <;> first | rfl | simp [index] at h

/-- Reading the place of a rank finds it again. -/
theorem ofIndex?_index (r : Rank) : ofIndex? r.index = some r := by cases r <;> rfl

end Rank

/-- A playing card. -/
structure Card where
  rank : Rank
  suit : Suit
  deriving DecidableEq, Repr, Inhabited

namespace Card

/-- Every card, lowest first. -/
def all : List Card := Rank.all.flatMap (fun r => Suit.all.map (fun s => ⟨r, s⟩))

/-- The number of a card, its place in the order of the deck. -/
def code (c : Card) : Nat := 4 * c.rank.index + c.suit.index

/-- The card with a given number. -/
def ofCode? (n : Nat) : Option Card :=
  match Rank.ofIndex? (n / 4), Suit.ofIndex? (n % 4) with
  | some r, some s => some ⟨r, s⟩
  | _, _ => none

/-- The text of a card: its rank, then its suit. -/
def text (c : Card) : String := c.rank.text ++ c.suit.text

/-- The list of cards is complete. -/
theorem mem_all (c : Card) : c ∈ all := by
  obtain ⟨r, s⟩ := c
  exact List.mem_flatMap.2 ⟨r, r.mem_all, List.mem_map.2 ⟨s, s.mem_all, rfl⟩⟩

/-- There are fifty-two cards. -/
theorem code_lt (c : Card) : c.code < 52 := by
  have hr := c.rank.index_lt
  have hs := c.suit.index_lt
  unfold code
  omega

/-- Two cards with one number are one card. -/
theorem code_injective {c d : Card} (h : c.code = d.code) : c = d := by
  obtain ⟨r, s⟩ := c
  obtain ⟨q, t⟩ := d
  have hs := s.index_lt
  have ht := t.index_lt
  simp only [code] at h
  have hr : r = q := Rank.index_injective (by omega)
  have hu : s = t := Suit.index_injective (by omega)
  rw [hr, hu]

/-- Reading a card's number gives the card back. -/
theorem ofCode?_code (c : Card) : ofCode? c.code = some c := by
  obtain ⟨r, s⟩ := c
  have hs := s.index_lt
  have hq : (4 * r.index + s.index) / 4 = r.index := by omega
  have hm : (4 * r.index + s.index) % 4 = s.index := by omega
  simp only [code, ofCode?, hq, hm, Rank.ofIndex?_index, Suit.ofIndex?_index]

/-- Every number below fifty-two is the number of a card. -/
theorem exists_code {n : Nat} (h : n < 52) : ∃ c : Card, c.code = n := by
  have all : ∀ n, n < 52 → (Card.all[n]?).map code = some n := by decide
  obtain ⟨c, _, hc⟩ := Option.map_eq_some_iff.1 (all n h)
  exact ⟨c, hc⟩

/-- The deck is listed in increasing order of the cards' numbers. -/
theorem all_sorted : all.Pairwise (fun c d => c.code < d.code) := by decide

end Card

end Holdem
