import Holdem.Json.Value

/-!
# Reading JSON

A strict reader: no comments, no trailing commas, no leading zeros, nothing before or after the
value but spaces, tabs and line ends. Control characters must be escaped in strings. A reading
function returns what it read with the rest of the text, or nothing if the text is not as it must
be.
-/

set_option autoImplicit false

namespace Holdem.Json

/-- The characters that may stand between the tokens of a JSON text. -/
def isSpace (c : Char) : Bool := c == ' ' || c == '\n' || c == '\r' || c == '\t'

/-- The text without its leading space. -/
def skip (cs : List Char) : List Char := cs.dropWhile isSpace

/-- Reads one digit or more. -/
def readDigits (cs : List Char) : Option (List Char × List Char) :=
  match cs.span Char.isDigit with
  | ([], _) => none
  | (digits, rest) => some (digits, rest)

/-- Reads the whole part of a number: a zero, or digits that do not begin with one. -/
def readWhole : List Char → Option (List Char × List Char)
  | '0' :: rest => some (['0'], rest)
  | cs => readDigits cs

/-- Reads the part of a number after the point, if there is a point. -/
def readFraction : List Char → Option (List Char × List Char)
  | '.' :: rest => (readDigits rest).map (fun (digits, rest) => ('.' :: digits, rest))
  | cs => some ([], cs)

/-- Reads the sign of an exponent, if there is one. -/
def readSign : List Char → List Char × List Char
  | '+' :: rest => (['+'], rest)
  | '-' :: rest => (['-'], rest)
  | cs => ([], cs)

/-- Reads the exponent of a number, if there is one. -/
def readExponent : List Char → Option (List Char × List Char)
  | [] => some ([], [])
  | c :: rest =>
    if c == 'e' || c == 'E' then
      let (sign, rest) := readSign rest
      (readDigits rest).map (fun (digits, rest) => (c :: sign ++ digits, rest))
    else some ([], c :: rest)

/-- Reads a number without its sign. -/
def readUnsigned (cs : List Char) : Option (List Char × List Char) := do
  let (whole, cs) ← readWhole cs
  let (fraction, cs) ← readFraction cs
  let (exponent, cs) ← readExponent cs
  return (whole ++ fraction ++ exponent, cs)

/-- Reads a number. -/
def readNumber : List Char → Option (List Char × List Char)
  | '-' :: rest => (readUnsigned rest).map (fun (digits, rest) => ('-' :: digits, rest))
  | cs => readUnsigned cs

/-- The value of a hexadecimal digit. -/
def hexValue? (c : Char) : Option Nat :=
  if '0' ≤ c ∧ c ≤ '9' then some (c.toNat - '0'.toNat)
  else if 'a' ≤ c ∧ c ≤ 'f' then some (c.toNat - 'a'.toNat + 10)
  else if 'A' ≤ c ∧ c ≤ 'F' then some (c.toNat - 'A'.toNat + 10)
  else none

/-- A piece of a string: a character as it is, or a sixteen-bit unit given by its number. -/
inductive Piece where
  | char (c : Char)
  | unit (n : Nat)
  deriving DecidableEq, Repr

/-- The character that an escaping letter stands for. -/
def escaped? : Char → Option Char
  | '"' => some '"'
  | '\\' => some '\\'
  | '/' => some '/'
  | 'b' => some '\x08'
  | 'f' => some '\x0c'
  | 'n' => some '\n'
  | 'r' => some '\r'
  | 't' => some '\t'
  | _ => none

/-- Reads the pieces of a string up to its closing quote. -/
def readPieces : List Char → Option (List Piece × List Char)
  | [] => none
  | '"' :: rest => some ([], rest)
  | '\\' :: 'u' :: a :: b :: c :: d :: rest => do
    let unit := (((← hexValue? a) * 16 + (← hexValue? b)) * 16 + (← hexValue? c)) * 16 +
      (← hexValue? d)
    let (pieces, rest) ← readPieces rest
    return (.unit unit :: pieces, rest)
  | '\\' :: e :: rest => do
    let c ← escaped? e
    let (pieces, rest) ← readPieces rest
    return (.char c :: pieces, rest)
  | c :: rest =>
    if c.toNat < 0x20 then none
    else (readPieces rest).map (fun (pieces, rest) => (.char c :: pieces, rest))

/-- The characters that some pieces stand for. Two halves of a surrogate pair stand for one
character; a half without its other stands for none. -/
def charsOf : List Piece → Option (List Char)
  | [] => some []
  | .char c :: rest => (charsOf rest).map (c :: ·)
  | .unit high :: rest =>
    if high < 0xD800 ∨ 0xDFFF < high then (charsOf rest).map (Char.ofNat high :: ·)
    else
      match rest with
      | .unit low :: rest =>
        if high < 0xDC00 ∧ 0xDC00 ≤ low ∧ low ≤ 0xDFFF then
          let c := Char.ofNat (0x10000 + (high - 0xD800) * 0x400 + (low - 0xDC00))
          (charsOf rest).map (c :: ·)
        else none
      | _ => none

/-- Reads the rest of a string after its opening quote. -/
def readString (cs : List Char) : Option (Option String × List Char) :=
  (readPieces cs).map (fun (pieces, rest) => ((charsOf pieces).map String.ofList, rest))

mutual

/-- Reads a value; the number bounds the steps. -/
def readValue : Nat → List Char → Option (Json × List Char)
  | 0, _ => none
  | n + 1, cs =>
    match skip cs with
    | 'n' :: 'u' :: 'l' :: 'l' :: rest => some (.null, rest)
    | 't' :: 'r' :: 'u' :: 'e' :: rest => some (.bool true, rest)
    | 'f' :: 'a' :: 'l' :: 's' :: 'e' :: rest => some (.bool false, rest)
    | '"' :: rest => (readString rest).map (fun (text, rest) => (.string text, rest))
    | '[' :: rest =>
      match skip rest with
      | ']' :: rest => some (.array [], rest)
      | rest => (readItems n rest).map (fun (items, rest) => (.array items, rest))
    | '{' :: rest =>
      match skip rest with
      | '}' :: rest => some (.object [], rest)
      | rest => (readMembers n rest).map (fun (members, rest) => (.object members, rest))
    | cs => (readNumber cs).map (fun (digits, rest) => (.number digits, rest))

/-- Reads the items of an array, at least one, up to its closing bracket. -/
def readItems : Nat → List Char → Option (List Json × List Char)
  | 0, _ => none
  | n + 1, cs => do
    let (item, rest) ← readValue n cs
    match skip rest with
    | ',' :: rest =>
      let (items, rest) ← readItems n rest
      return (item :: items, rest)
    | ']' :: rest => return ([item], rest)
    | _ => none

/-- Reads the members of an object, at least one, up to its closing brace. -/
def readMembers : Nat → List Char → Option (List (Option String × Json) × List Char)
  | 0, _ => none
  | n + 1, cs => do
    match skip cs with
    | '"' :: rest =>
      let (name, rest) ← readString rest
      match skip rest with
      | ':' :: rest =>
        let (value, rest) ← readValue n rest
        match skip rest with
        | ',' :: rest =>
          let (members, rest) ← readMembers n rest
          return ((name, value) :: members, rest)
        | '}' :: rest => return ([(name, value)], rest)
        | _ => none
      | _ => none
    | _ => none

end

/-- Reads a text that is one JSON value. Every character takes at most two steps. -/
def read (text : String) : Option Json :=
  let cs := text.toList
  match readValue (2 * cs.length + 2) cs with
  | some (value, rest) => if (skip rest).isEmpty then some value else none
  | none => none

end Holdem.Json
