/-!
# JSON values

The values of JSON as they are written: a number keeps its digits, and an object its members in
order, repeated names included. A string may name half of a surrogate pair, and then stands for no
text.
-/

set_option autoImplicit false

namespace Holdem

/-- A JSON value. -/
inductive Json where
  | null
  | bool (b : Bool)
  /-- A number with the characters it is written with. -/
  | number (digits : List Char)
  /-- A string, with its text if it stands for one. -/
  | string (text : Option String)
  | array (items : List Json)
  | object (members : List (Option String × Json))

end Holdem
