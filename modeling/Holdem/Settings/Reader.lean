import Holdem.Json.Reader
import Holdem.Settings

/-!
# Reading settings

Settings are read from a JSON object with a member for each setting; what is left out keeps its
usual value, and unknown members are passed over. Given as an array, the settings come in the order
of their declaration. Whole numbers must be written without a point, an exponent or a sign, and
fit. Only the deadline and the seed can be null. Nothing is known here of where the text comes from
but what reading it gives: a text, or the reason why there is none.
-/

set_option autoImplicit false

namespace Holdem

/-- Why no text could be read at a path. -/
inductive ReadError where
  /-- Nothing stands at the path. -/
  | missing
  | denied
  /-- A file stands where the path goes on. -/
  | notDirectory
  /-- A directory stands at the path. -/
  | directory
  | nameTooLong
  /-- What stands at the path is no text. -/
  | notText
  | other (why : String)
  deriving DecidableEq, Repr

namespace ReadError

/-- The wording of a reason. -/
def message : ReadError → String
  | missing => "No such file or directory (os error 2)"
  | denied => "Permission denied (os error 13)"
  | notDirectory => "Not a directory (os error 20)"
  | directory => "Is a directory (os error 21)"
  | nameTooLong => "File name too long (os error 36)"
  | notText => "stream did not contain valid UTF-8"
  | other why => why

end ReadError

namespace Json

/-- The value of a run of decimal digits. -/
def valueOfDigits (cs : List Char) : Nat :=
  cs.foldl (fun n c => 10 * n + (c.toNat - '0'.toNat)) 0

/-- A whole number below a limit. -/
def nat? (limit : Nat) : Json → Option Nat
  | number digits =>
    if digits.all Char.isDigit && valueOfDigits digits < limit then some (valueOfDigits digits)
    else none
  | _ => none

/-- The truth value that a JSON value is. -/
def bool? : Json → Option Bool
  | bool b => some b
  | _ => none

/-- A value that may be null. -/
def nullable {α : Type} (read : Json → Option α) : Json → Option (Option α)
  | null => some none
  | j => (read j).map some

/-- One of some named values: its name, or an object that has the name for its only member, with
nothing in it. -/
def oneOf? {α : Type} (values : List (String × α)) : Json → Option α
  | string (some name) => values.lookup name
  | object [(some name, null)] => values.lookup name
  | _ => none

/-- The values an object gives for a name: at most one, or the object is refused. -/
def given? (members : List (Option String × Json)) (name : String) : Option (Option Json) :=
  match members.filter (fun m => m.1 == some name) with
  | [] => some none
  | [(_, value)] => some (some value)
  | _ => none

end Json

namespace Settings

/-- A fraction of the pot, as an array of two numbers. -/
def fractionOfJson? : Json → Option PotFraction
  | .array [numer, denom] => do
    return ⟨← numer.nat? chipLimit, ← denom.nat? chipLimit⟩
  | _ => none

/-- A list of fractions of the pot. -/
def sizesOfJson? : Json → Option (List PotFraction)
  | .array items => items.mapM fractionOfJson?
  | _ => none

/-- The names of the settings, in the order of their declaration. -/
def names : List String :=
  ["trials", "samples", "split", "decisions", "sizes", "shove", "max_raises", "deadline_ms",
    "seed", "exclusive_opponents", "split_pots", "tokens"]

/-- The names of the ways to share tokens. -/
def splits : List (String × Split) :=
  [("proportional", .proportional), ("uniform", .uniform)]

/-- The names of the ways to expand decisions. -/
def decisionNames : List (String × Decisions) :=
  [("exhaustive", .exhaustive), ("sampled", .sampled)]

/-- What is given for a setting, or its usual value. -/
def settingOr {α : Type} (usual : α) (read : Json → Option α) : Option Json → Option α
  | none => some usual
  | some j => read j

/-- The settings from what is given for each of them, in the order of their declaration. -/
def ofGiven? (given : List (Option Json)) : Option Settings := do
  let entry := fun (i : Nat) => (given[i]?).join
  let usual : Settings := {}
  let count := Json.nat? countLimit
  return {
    trials := ← settingOr usual.trials count (entry 0)
    samples := ← settingOr usual.samples count (entry 1)
    split := ← settingOr usual.split (Json.oneOf? splits) (entry 2)
    decisions := ← settingOr usual.decisions (Json.oneOf? decisionNames) (entry 3)
    sizes := ← settingOr usual.sizes sizesOfJson? (entry 4)
    shove := ← settingOr usual.shove Json.bool? (entry 5)
    maxRaises := ← settingOr usual.maxRaises count (entry 6)
    deadline := ← settingOr usual.deadline (Json.nullable count) (entry 7)
    seed := (← settingOr (usual.seed.map UInt64.toNat) (Json.nullable count) (entry 8)).map
      UInt64.ofNat
    exclusiveOpponents := ← settingOr usual.exclusiveOpponents Json.bool? (entry 9)
    splitPots := ← settingOr usual.splitPots Json.bool? (entry 10)
    tokens := ← settingOr usual.tokens count (entry 11) }

/-- The settings of a JSON value. -/
def ofJson? : Json → Option Settings
  | .object members => do
    if members.any (fun m => m.1.isNone) then none
    else ofGiven? (← names.mapM (Json.given? members))
  | .array items =>
    if names.length < items.length then none else ofGiven? (items.map some)
  | _ => none

/-- Why settings could not be loaded. -/
inductive LoadError where
  /-- There is no text to read. -/
  | unreadable (cause : ReadError)
  /-- The text is no settings. -/
  | malformed
  | refused (cause : SettingsError)
  deriving DecidableEq, Repr

/-- Loads settings from what was read. -/
def load (source : Except ReadError String) : Except LoadError Settings := do
  let text ← source.mapError .unreadable
  let some json := Json.read text | throw .malformed
  let some settings := ofJson? json | throw .malformed
  match settings.check with
  | .ok _ => return settings
  | .error cause => throw (.refused cause)

end Settings

end Holdem
