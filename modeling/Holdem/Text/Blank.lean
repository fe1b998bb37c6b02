/-!
# Blank characters

Card and street texts may carry blanks anywhere a reader would put them. A blank is a character
with the Unicode property `White_Space`, so the no-break space and the ideographic space count,
while the zero width space and the byte order mark do not.
-/

set_option autoImplicit false

namespace Holdem.Text

/-- The characters with the Unicode property `White_Space`. -/
def isBlank (c : Char) : Bool :=
  let n := c.toNat
  (9 ≤ n && n ≤ 13) || n == 0x20 || n == 0x85 || n == 0xA0 || n == 0x1680 ||
    (0x2000 ≤ n && n ≤ 0x200A) || n == 0x2028 || n == 0x2029 || n == 0x202F ||
    n == 0x205F || n == 0x3000

/-- The text without its leading blanks. -/
def trimLeft (cs : List Char) : List Char := cs.dropWhile isBlank

/-- The text without its leading and trailing blanks. -/
def trim (cs : List Char) : List Char := (trimLeft (trimLeft cs).reverse).reverse

/-- The text without any of its blanks. -/
def squeeze (cs : List Char) : List Char := cs.filter (fun c => !isBlank c)

/-- Squeezing a joined text squeezes its parts. -/
theorem squeeze_append (xs ys : List Char) : squeeze (xs ++ ys) = squeeze xs ++ squeeze ys :=
  List.filter_append ..

end Holdem.Text
