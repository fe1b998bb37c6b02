import Holdem.Text.Blank

/-!
# Streets

A hand of hold'em is played in four betting rounds, after which the hands are shown. Each street
is known by how many community cards lie open while it is played.
-/

set_option autoImplicit false

namespace Holdem

/-- The betting rounds in order, and the showdown after them. -/
inductive Street where
  | preflop | flop | turn | river | showdown
  deriving DecidableEq, Repr, Inhabited

/-- Why no street was found. -/
inductive StreetError where
  | unknown (text : String)
  /-- No street has this many community cards. -/
  | noStreet (boardSize : Nat)
  deriving DecidableEq, Repr

namespace StreetError

/-- The wording of a refusal. -/
def message : StreetError → String
  | unknown text => "invalid street: " ++ text
  | noStreet boardSize => s!"no street has {boardSize} board cards"

end StreetError

namespace Street

/-- Every street, in order. -/
def all : List Street := [preflop, flop, turn, river, showdown]

/-- The place of a street in the order. -/
def index : Street → Nat
  | preflop => 0
  | flop => 1
  | turn => 2
  | river => 3
  | showdown => 4

/-- How many streets follow. -/
def left (s : Street) : Nat := 4 - s.index

/-- The street that follows, unless the hand is over. -/
def next? : Street → Option Street
  | preflop => some flop
  | flop => some turn
  | turn => some river
  | river => some showdown
  | showdown => none

/-- How many community cards are opened when the street begins. -/
def revealed : Street → Nat
  | preflop => 0
  | flop => 3
  | turn => 1
  | river => 1
  | showdown => 0

/-- How many community cards lie open once the street has begun. -/
def boardSize : Street → Nat
  | preflop => 0
  | flop => 3
  | turn => 4
  | river => 5
  | showdown => 5

/-- Whether there is betting on the street. -/
def isBetting (s : Street) : Bool := s != showdown

/-- The betting round with a given number of open community cards. -/
def ofBoardSize : Nat → Except StreetError Street
  | 0 => .ok preflop
  | 3 => .ok flop
  | 4 => .ok turn
  | 5 => .ok river
  | n => .error (.noStreet n)

/-- The name of a street. -/
def text : Street → String
  | preflop => "preflop"
  | flop => "flop"
  | turn => "turn"
  | river => "river"
  | showdown => "showdown"

/-- The short name of a street, of four letters. -/
def shortName : Street → String
  | preflop => "Pref"
  | flop => "Flop"
  | turn => "Turn"
  | river => "Rive"
  | showdown => "Show"

/-- The names under which each street is known. -/
def names : Street → List String
  | preflop => ["p", "pref", "preflop"]
  | flop => ["f", "flop"]
  | turn => ["t", "turn"]
  | river => ["r", "rive", "river"]
  | showdown => ["s", "show", "showdown"]

/-- Reads a street's name in letters of either case, blanks around it aside. Only the letters of
the Latin alphabet lower to a letter that occurs in a name. -/
def read (text : String) : Except StreetError Street :=
  let name := String.ofList ((Text.trim text.toList).map Char.toLower)
  match all.find? (fun s => s.names.contains name) with
  | some s => .ok s
  | none => .error (.unknown text)

/-- The community cards are opened street by street. -/
theorem boardSize_next {s t : Street} (h : s.next? = some t) :
    t.boardSize = s.boardSize + t.revealed := by
  cases s <;> simp [next?] at h <;> subst h <;> rfl

/-- A street has one more street after it than the next one has. -/
theorem left_next {s t : Street} (h : s.next? = some t) : s.left = t.left + 1 := by
  cases s <;> simp [next?] at h <;> subst h <;> rfl

end Street

end Holdem
