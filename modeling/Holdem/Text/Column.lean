/-!
# Columns of text

Texts set in a column of a given width. A text wider than its column is kept whole.
-/

set_option autoImplicit false

namespace Holdem.Text

/-- `n` blanks. -/
def blanks (n : Nat) : String := String.ofList (List.replicate n ' ')

/-- The text at the left of a column of the given width. -/
def padRight (width : Nat) (text : String) : String := text ++ blanks (width - text.length)

/-- The text at the right of a column of the given width. -/
def padLeft (width : Nat) (text : String) : String := blanks (width - text.length) ++ text

end Holdem.Text
