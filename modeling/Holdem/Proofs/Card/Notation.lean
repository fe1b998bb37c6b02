import Holdem.Card.Reader
import Holdem.Proofs.Outcome
import Mathlib

/-!
# How cards are written

A rank is written as its symbol and a suit as its letter, both in either case, or a suit as its
playing card symbol. Characters spell cards if they are such pairs, one pair after the other. Each
spelling stands for one list of cards, and what can be read is what is spelled: reading many cards
finds those that are spelled by what the blanks leave (`Card.readMany_eq_ok_iff`), and a text that
is read as one card is read as many to the same end (`Card.readMany_of_read`).
-/

set_option autoImplicit false

namespace Holdem

/-! ## Letters of either case -/

/-- Capitals are thirty-two places below small letters. -/
theorem toNat_toUpper (c : Char) :
    c.toUpper.toNat = if 97 ≤ c.toNat ∧ c.toNat ≤ 122 then c.toNat - 32 else c.toNat := by
  have first : 'a'.val.toNat = 97 := rfl
  have last : 'z'.val.toNat = 122 := rfl
  have shift : ('A'.val - 'a'.val).toNat = 2 ^ 32 - 32 := rfl
  simp only [Char.toUpper, ← Char.toNat_val, UInt32.le_iff_toNat_le, first, last]
  split_ifs with small
  · rw [UInt32.toNat_add, shift]
    omega
  · rfl

/-- Small letters are thirty-two places above capitals. -/
theorem toNat_toLower (c : Char) :
    c.toLower.toNat = if 65 ≤ c.toNat ∧ c.toNat ≤ 90 then c.toNat + 32 else c.toNat := by
  have first : 'A'.val.toNat = 65 := rfl
  have last : 'Z'.val.toNat = 90 := rfl
  have shift : ('a'.val - 'A'.val).toNat = 32 := rfl
  simp only [Char.toLower, ← Char.toNat_val, ge_iff_le, UInt32.le_iff_toNat_le, first, last]
  split_ifs with capital
  · rw [UInt32.toNat_add, shift]
    omega
  · rfl

/-- A letter becomes a capital if it is this capital or its small letter. -/
theorem toUpper_eq_iff {c d : Char} (capital : d.toUpper = d) :
    c.toUpper = d ↔ c = d ∨ c = d.toLower := by
  simp only [← Char.toNat_inj, toNat_toUpper, toNat_toLower] at capital ⊢
  split_ifs at * <;> omega

/-- A letter becomes a small letter if it is this letter or its capital. -/
theorem toLower_eq_iff {c d : Char} (small : d.toLower = d) :
    c.toLower = d ↔ c = d ∨ c = d.toUpper := by
  simp only [← Char.toNat_inj, toNat_toUpper, toNat_toLower] at small ⊢
  split_ifs at * <;> omega

/-! ## Symbols -/

/-- What is looked for in a list of everything is found if there is only one such thing. -/
theorem find?_eq_some_iff_of_unique {α : Type} {l : List α} {P : α → Bool} {Q : α → Prop} {a : α}
    (mem : ∀ a, a ∈ l) (same : ∀ a, P a = true ↔ Q a) (unique : ∀ a b, Q a → Q b → a = b) :
    l.find? P = some a ↔ Q a := by
  constructor
  · intro found
    exact (same a).1 (List.find?_some found)
  · intro holds
    have found : (l.find? P).isSome := List.find?_isSome.2 ⟨a, mem a, (same a).2 holds⟩
    obtain ⟨b, found⟩ := Option.isSome_iff_exists.1 found
    rw [found, unique b a ((same b).1 (List.find?_some found)) holds]

namespace Rank

/-- The characters a rank can be written with: its symbol, as a capital or a small letter. -/
def IsWritten (r : Rank) (c : Char) : Prop := c = r.symbol ∨ c = r.symbol.toLower

/-- A character writes one rank at most. -/
theorem IsWritten.unique {r s : Rank} {c : Char} (first : r.IsWritten c) (second : s.IsWritten c) :
    r = s := by
  rcases first with rfl | rfl <;> rcases second with same | same <;> revert same <;>
    cases r <;> cases s <;> decide

/-- No rank is written with a blank. -/
theorem IsWritten.not_blank {r : Rank} {c : Char} (written : r.IsWritten c) :
    Text.isBlank c = false := by
  rcases written with rfl | rfl <;> cases r <;> rfl

/-- A rank is read from the characters that write it, and from no others. -/
theorem ofSymbol?_eq_some_iff {c : Char} {r : Rank} : ofSymbol? c = some r ↔ r.IsWritten c := by
  refine find?_eq_some_iff_of_unique mem_all (fun s => ?_) (fun s t => IsWritten.unique)
  have capital : s.symbol.toUpper = s.symbol := by cases s <;> rfl
  rw [beq_iff_eq, eq_comm, toUpper_eq_iff capital]
  rfl

end Rank

namespace Suit

/-- The characters a suit can be written with: its letter, small or capital, or its playing card
symbol. -/
def IsWritten (s : Suit) (c : Char) : Prop :=
  (c = s.letter ∨ c = s.letter.toUpper) ∨ c = s.glyph

/-- A character writes one suit at most. -/
theorem IsWritten.unique {s t : Suit} {c : Char} (first : s.IsWritten c) (second : t.IsWritten c) :
    s = t := by
  rcases first with (rfl | rfl) | rfl <;> rcases second with (same | same) | same <;>
    revert same <;> cases s <;> cases t <;> decide

/-- No suit is written with a blank. -/
theorem IsWritten.not_blank {s : Suit} {c : Char} (written : s.IsWritten c) :
    Text.isBlank c = false := by
  rcases written with (rfl | rfl) | rfl <;> cases s <;> rfl

/-- A suit is read from the characters that write it, and from no others. -/
theorem ofSymbol?_eq_some_iff {c : Char} {s : Suit} : ofSymbol? c = some s ↔ s.IsWritten c := by
  refine find?_eq_some_iff_of_unique mem_all (fun t => ?_) (fun t u => IsWritten.unique)
  have small : t.letter.toLower = t.letter := by cases t <;> rfl
  rw [Bool.or_eq_true, beq_iff_eq, beq_iff_eq, eq_comm, toLower_eq_iff small, eq_comm (b := c)]
  rfl

end Suit

/-! ## Blanks -/

namespace Text

/-- Blanks in front are lost by squeezing anyway. -/
theorem squeeze_trimLeft (cs : List Char) : squeeze (trimLeft cs) = squeeze cs := by
  induction cs with
  | nil => rfl
  | cons c cs ih =>
    cases blank : isBlank c with
    | true => simpa [squeeze, trimLeft, List.dropWhile_cons, blank] using ih
    | false => simp [trimLeft, blank]

/-- Squeezing does not depend on the direction of the text. -/
theorem squeeze_reverse (cs : List Char) : squeeze cs.reverse = (squeeze cs).reverse :=
  List.filter_reverse ..

/-- Trimming takes away blanks only. -/
theorem squeeze_trim (cs : List Char) : squeeze (trim cs) = squeeze cs := by
  rw [trim, squeeze_reverse, squeeze_trimLeft, squeeze_reverse, squeeze_trimLeft,
    List.reverse_reverse]

/-- A single character is trimmed to itself, or to nothing if it is blank. -/
theorem trim_singleton (c : Char) : trim [c] = if isBlank c then [] else [c] := by
  cases blank : isBlank c <;> simp [trim, trimLeft, blank]

end Text

/-- A text of one character is read as the rank that the character writes. -/
theorem Rank.read_singleton_eq_ok_iff {c : Char} {r : Rank} :
    Rank.read (String.singleton c) = .ok r ↔ r.IsWritten c := by
  rw [Rank.read, String.toList_singleton, Text.trim_singleton]
  cases blank : Text.isBlank c with
  | true =>
    have never : ¬ r.IsWritten c := fun written => by simp [written.not_blank] at blank
    simp [never]
  | false =>
    rw [← Rank.ofSymbol?_eq_some_iff]
    cases found : Rank.ofSymbol? c <;> simp [found]

/-- A text of one character is read as the suit that the character writes. -/
theorem Suit.read_singleton_eq_ok_iff {c : Char} {s : Suit} :
    Suit.read (String.singleton c) = .ok s ↔ s.IsWritten c := by
  rw [Suit.read, String.toList_singleton, Text.trim_singleton]
  cases blank : Text.isBlank c with
  | true =>
    have never : ¬ s.IsWritten c := fun written => by simp [written.not_blank] at blank
    simp [never]
  | false =>
    rw [← Suit.ofSymbol?_eq_some_iff]
    cases found : Suit.ofSymbol? c <;> simp [found]

/-! ## Cards -/

namespace Card

/-- Characters that spell cards: for each card a character of its rank and one of its suit. -/
inductive Spelled : List Char → List Card → Prop
  | nil : Spelled [] []
  | cons {r s : Char} {card : Card} {rest : List Char} {cards : List Card}
      (rank : card.rank.IsWritten r) (suit : card.suit.IsWritten s) (spelled : Spelled rest cards) :
      Spelled (r :: s :: rest) (card :: cards)

variable {cs ds : List Char} {cards others : List Card} {card : Card}

namespace Spelled

/-- Spellings one after the other spell the cards one after the other. -/
theorem append (first : Spelled cs cards) (second : Spelled ds others) :
    Spelled (cs ++ ds) (cards ++ others) := by
  induction first with
  | nil => exact second
  | cons rank suit spelled ih => exact cons rank suit ih

/-- Spelled cards have no blank between or in them. -/
theorem not_blank (spelled : Spelled cs cards) : ∀ c ∈ cs, Text.isBlank c = false := by
  induction spelled with
  | nil => simp
  | cons rank suit spelled ih =>
    exact List.forall_mem_cons.2 ⟨rank.not_blank, List.forall_mem_cons.2 ⟨suit.not_blank, ih⟩⟩

/-- Squeezing leaves spelled cards as they are. -/
theorem squeeze_eq (spelled : Spelled cs cards) : Text.squeeze cs = cs :=
  List.filter_eq_self.2 fun c mem => by simp [spelled.not_blank c mem]

/-- Each spelled card takes two characters. -/
theorem even (spelled : Spelled cs cards) : cs.length % 2 = 0 := by
  induction spelled with
  | nil => rfl
  | cons rank suit spelled ih => exact (Nat.add_mod_right _ 2).trans ih

end Spelled

/-- Two characters are read as a card if the first writes its rank and the second its suit. -/
theorem ofSymbols_eq_ok_iff {r s : Char} :
    ofSymbols r s = .ok card ↔ card.rank.IsWritten r ∧ card.suit.IsWritten s := by
  rw [ofSymbols, bind_eq_ok]
  constructor
  · rintro ⟨rank, readRank, rest⟩
    obtain ⟨suit, readSuit, same⟩ := bind_eq_ok.1 rest
    obtain rfl := Except.ok.inj same
    exact ⟨Rank.read_singleton_eq_ok_iff.1 readRank, Suit.read_singleton_eq_ok_iff.1 readSuit⟩
  · rintro ⟨rank, suit⟩
    exact ⟨card.rank, Rank.read_singleton_eq_ok_iff.2 rank,
      bind_eq_ok.2 ⟨card.suit, Suit.read_singleton_eq_ok_iff.2 suit, rfl⟩⟩

/-- An even number of characters is read in pairs just as it spells cards. -/
theorem ofPairs_eq_ok_iff (even : cs.length % 2 = 0) :
    ofPairs cs = .ok cards ↔ Spelled cs cards := by
  fun_induction ofPairs cs generalizing cards with
  | case1 r s rest ih =>
    have even : rest.length % 2 = 0 := (Nat.add_mod_right _ 2).symm.trans even
    rw [bind_eq_ok]
    constructor
    · rintro ⟨card, first, later⟩
      obtain ⟨cards, second, same⟩ := bind_eq_ok.1 later
      obtain rfl := Except.ok.inj same
      obtain ⟨rank, suit⟩ := ofSymbols_eq_ok_iff.1 first
      exact .cons rank suit ((ih even).1 second)
    · intro spelled
      cases spelled with
      | cons rank suit spelled =>
        exact ⟨_, ofSymbols_eq_ok_iff.2 ⟨rank, suit⟩, bind_eq_ok.2 ⟨_, (ih even).2 spelled, rfl⟩⟩
  | case2 cs other =>
    have empty : cs = [] := by
      match cs with
      | [] => rfl
      | [_] => exact absurd even (by simp)
      | r :: s :: rest => exact absurd rfl (other r s rest)
    subst empty
    constructor
    · intro read
      obtain rfl := Except.ok.inj read
      exact .nil
    · intro spelled
      cases spelled
      rfl

/-- Many cards are read just as they are spelled when the blanks are left out. -/
theorem readMany_eq_ok_iff {text : String} :
    readMany text = .ok cards ↔ Spelled (Text.squeeze text.toList) cards := by
  unfold readMany
  dsimp only
  split
  · next even => exact ofPairs_eq_ok_iff even
  · next odd => exact iff_of_false (by simp) (fun spelled => odd spelled.even)

/-- Texts one after the other are read one after the other. -/
theorem readMany_append {first second : String} (read : readMany first = .ok cards)
    (read' : readMany second = .ok others) :
    readMany (first ++ second) = .ok (cards ++ others) := by
  rw [readMany_eq_ok_iff] at *
  rw [String.toList_append, Text.squeeze_append]
  exact read.append read'

/-- A text read as one card is the card's two characters between blanks. -/
theorem readMany_of_read {text : String} (read : Card.read text = .ok card) :
    readMany text = .ok [card] := by
  unfold Card.read at read
  split at read
  · next r s trimmed =>
    obtain ⟨rank, suit⟩ := ofSymbols_eq_ok_iff.1 read
    have spelled : Spelled [r, s] [card] := .cons rank suit .nil
    rw [readMany_eq_ok_iff, ← Text.squeeze_trim, trimmed, spelled.squeeze_eq]
    exact spelled
  · cases read

/-- A card is spelled by its text. -/
theorem spelled_text (card : Card) : Spelled card.text.toList [card] := by
  rw [text, Rank.text, Suit.text, String.toList_append, String.toList_singleton,
    String.toList_singleton]
  exact .cons (.inl rfl) (.inl (.inl rfl)) .nil

end Card

end Holdem
