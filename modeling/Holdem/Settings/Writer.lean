import Holdem.Settings.Reader

/-!
# Writing settings

Settings are written as a JSON object without any space, with every setting in the order of its
declaration.
-/

set_option autoImplicit false

namespace Holdem

namespace Settings

/-- The text of a truth value. -/
def boolText (b : Bool) : String := if b then "true" else "false"

/-- The text of a number that may be missing. -/
def optionText : Option Nat → String
  | none => "null"
  | some n => toString n

/-- The name of a value that is listed with its name, in quotes. -/
def nameText {α : Type} [DecidableEq α] (values : List (String × α)) (a : α) : String :=
  match values.find? (fun e => e.2 == a) with
  | some (name, _) => "\"" ++ name ++ "\""
  | none => "null"

/-- The text of a list of fractions of the pot. -/
def sizesText (sizes : List PotFraction) : String :=
  let texts := sizes.map (fun f => s!"[{f.numer},{f.denom}]")
  "[" ++ String.intercalate "," texts ++ "]"

/-- The texts of the settings, in the order of their declaration. -/
def valueTexts (s : Settings) : List String :=
  [toString s.trials, toString s.samples, nameText splits s.split,
    nameText decisionNames s.decisions, sizesText s.sizes, boolText s.shove,
    toString s.maxRaises, optionText s.deadline, optionText (s.seed.map UInt64.toNat),
    boolText s.exclusiveOpponents, boolText s.splitPots, toString s.tokens]

/-- The JSON text of settings. -/
def text (s : Settings) : String :=
  let members := names.zipWith (fun name value => "\"" ++ name ++ "\":" ++ value) s.valueTexts
  "\x7b" ++ String.intercalate "," members ++ "\x7d"

end Settings

end Holdem
