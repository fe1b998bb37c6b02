import Holdem.Chance.Xoshiro
import Holdem.Search.Decision
import Holdem.Search.Outline
import Holdem.Settings.Reader

/-!
# The command line

The program ranks the actions of one seat, the hero's, and prints the decision. The hero acts first
after the dealer. Facing a bet, the dealer is the bettor and every other opponent has checked.

Options are read from left to right. Each may be given once, as `--name value` or `--name=value`;
a separate value must not look like an option itself. Asking for help or for the version ends the
program at once, and wrong arguments end it with their own exit code.
-/

set_option autoImplicit false

namespace Holdem

/-- The arguments of the program. -/
structure Arguments where
  /-- The hero's hole cards. -/
  hole : String
  /-- The community cards. -/
  board : String := ""
  /-- The chips of earlier rounds. -/
  pot : Chips := 100
  stack : Chips := 1000
  villainStack : Chips := 1000
  /-- The bet that the hero must answer. -/
  facing : Chips := 0
  opponents : Nat := 1
  /-- The search effort, in place of the one in the settings. -/
  tokens : Option Nat := none
  /-- The seed, in place of the one in the settings. -/
  seed : Option Nat := none
  /-- The path of the settings. -/
  settings : Option String := none
  deriving DecidableEq, Repr

/-- Why arguments were not turned into a run of the program. -/
inductive Usage where
  /-- Help or the version was asked for. -/
  | information
  | wrong
  deriving DecidableEq, Repr

/-- What the program ends with. -/
structure Report where
  /-- The exit code. -/
  code : Nat
  /-- The lines of the answer. -/
  lines : List String := []
  /-- The message of an error. -/
  error : Option String := none
  /-- The table and the tree that were looked at. -/
  notes : List String := []
  deriving DecidableEq, Repr

namespace Arguments

/-! ## Reading arguments -/

/-- The options that take a value. -/
def optionNames : List String :=
  ["hole", "board", "pot", "stack", "villain-stack", "facing", "opponents", "tokens", "seed",
    "config"]

/-- A whole number below a limit, with or without a plus sign. -/
def natValue? (limit : Nat) (text : String) : Option Nat :=
  let digits := match text.toList with
    | '+' :: digits => digits
    | digits => digits
  if digits.isEmpty || !digits.all Char.isDigit then none
  else if Json.valueOfDigits digits < limit then some (Json.valueOfDigits digits)
  else none

/-- An amount of chips: a whole number; zero may carry a minus sign. -/
def chipsValue? (text : String) : Option Nat :=
  match text.toList with
  | '-' :: digits => natValue? 1 (String.ofList ('+' :: digits))
  | _ => natValue? chipLimit text

/-- Whether a value can be read for an option. -/
def isValueOf (name value : String) : Bool :=
  if ["hole", "board", "config"].contains name then true
  else if ["tokens", "seed"].contains name then (natValue? countLimit value).isSome
  else (chipsValue? value).isSome

/-- Whether an argument is an option rather than a value. -/
def looksLikeOption (arg : String) : Bool :=
  match arg.toList with
  | '-' :: _ :: _ => true
  | _ => false

/-- What a long option asks for: its name, and the value after the equals sign if there is one. -/
def splitOption (body : List Char) : String × Option String :=
  match body.span (· != '=') with
  | (name, []) => (String.ofList name, none)
  | (name, _ :: value) => (String.ofList name, some (String.ofList value))

/-- The given options with one more. -/
def give (given : List (String × String)) (name value : String) :
    Except Usage (List (String × String)) :=
  if (given.lookup name).isSome || !isValueOf name value then .error .wrong
  else .ok ((name, value) :: given)

/-- What an argument in the place of an option asks for. -/
inductive Request where
  /-- An option with its value. -/
  | complete (name value : String)
  /-- An option whose value is the next argument. -/
  | awaiting (name : String)
  /-- No options follow. -/
  | stop
  | information
  | wrong
  deriving DecidableEq, Repr

/-- What a long option asks for, from what follows its two dashes. -/
def requestOfLong (body : List Char) : Request :=
  let (name, attached) := splitOption body
  if name == "help" || name == "version" then
    if attached.isNone then .information else .wrong
  else if !optionNames.contains name then .wrong
  else
    match attached with
    | some value => .complete name value
    | none => .awaiting name

/-- What an argument in the place of an option asks for. -/
def requestOf (arg : String) : Request :=
  match arg.toList with
  | ['-', '-'] => .stop
  | '-' :: '-' :: body => requestOfLong body
  | '-' :: flag :: _ => if flag == 'h' || flag == 'V' then .information else .wrong
  | _ => .wrong

/-- The values given for the options. -/
def collect (given : List (String × String)) : List String → Except Usage (List (String × String))
  | [] => .ok given
  | arg :: rest =>
    match requestOf arg with
    | .complete name value =>
      match give given name value with
      | .ok given => collect given rest
      | .error usage => .error usage
    | .awaiting name =>
      match rest with
      | [] => .error .wrong
      | value :: rest =>
        if looksLikeOption value then .error .wrong
        else
          match give given name value with
          | .ok given => collect given rest
          | .error usage => .error usage
    | .stop => if rest.isEmpty then .ok given else .error .wrong
    | .information => .error .information
    | .wrong => .error .wrong

/-- The arguments of a command line. -/
def ofList (args : List String) : Except Usage Arguments := do
  let given ← collect [] args
  let some hole := given.lookup "hole" | throw .wrong
  let usual : Arguments := { hole }
  let amount := fun (name : String) (usual : Nat) =>
    ((given.lookup name).bind chipsValue?).getD usual
  return {
    hole
    board := (given.lookup "board").getD usual.board
    pot := amount "pot" usual.pot
    stack := amount "stack" usual.stack
    villainStack := amount "villain-stack" usual.villainStack
    facing := amount "facing" usual.facing
    opponents := amount "opponents" usual.opponents
    tokens := (given.lookup "tokens").bind (natValue? countLimit)
    seed := (given.lookup "seed").bind (natValue? countLimit)
    settings := given.lookup "config" }

/-! ## The table and the answer -/

/-- The hero's number. -/
def hero : Player := ⟨0⟩

/-- The seat of an opponent; the dealer has put in the bet that the hero faces. -/
def villainSeat (a : Arguments) (id : Nat) : Seat :=
  if id = a.opponents ∧ 0 < a.facing then
    { player := ⟨id⟩, stack := a.villainStack - a.facing, stake := min a.facing a.villainStack }
  else { player := ⟨id⟩, stack := a.villainStack }

/-- The table that the arguments describe. -/
def table (a : Arguments) : Outcome Table := do
  if a.opponents = 0 then throw (.refusal .noOpponents)
  let hole ← Hole.read a.hole
  let board ← Board.ofHand (← Hand.read a.board)
  let street ← Street.ofBoardSize board.size
  let dealer : Player := ⟨a.opponents⟩
  let heroSeat : Seat := { player := hero, stack := a.stack, hole := some hole }
  let bettor := if 0 < a.facing then some dealer else none
  Table.ofSnapshot {
    seats := heroSeat :: (List.range a.opponents).map (fun i => a.villainSeat (i + 1))
    board
    pot := a.pot
    street
    dealer
    raises := if 0 < a.facing then 1 else 0
    next := some hero
    bettor
    acted := bettor.toList }

/-- The settings with the arguments that stand in for some of them. -/
def override (a : Arguments) (s : Settings) : Settings :=
  { s with
    tokens := a.tokens.getD s.tokens
    seed := (a.seed.map UInt64.ofNat).orElse (fun _ => s.seed) }

/-- The line of an action with its value. -/
def rankingLine (entry : Action × Float) : String :=
  Text.padRight 16 entry.1.text ++ " " ++ Text.padLeft 10 (Text.fixed 2 entry.2)

/-- The lines of the answer. -/
def answerLines (ranking : List (Action × Float)) (decision : Action) : List String :=
  (Text.padRight 16 "ACTION" ++ " " ++ Text.padLeft 10 "EV") :: ranking.map rankingLine ++
    ["decision: " ++ decision.text]

/-- What the program finds out at a table. -/
structure Analysis (α : Type) where
  table : Table
  /-- The tree that was searched, if the search succeeded. -/
  tree : Option (Node α)
  /-- The hero's actions with their values, best first. -/
  ranking : List (Action × α)
  decision : Action

/-- The search on behalf of the hero, who knows nothing of the opponents' habits. -/
def search {α : Type} [Scalar α] (a : Arguments) (settings : Settings) (seed : UInt64) :
    Search Xoshiro α :=
  .ofSettings hero (a.override settings) Judge.standard {} seed

/-- Ranks the hero's actions and decides. A search that fails ranks nothing, and without a ranking
the hero checks or folds. -/
def analyse {α : Type} [Scalar α] (a : Arguments) (settings : Settings) (seed : UInt64) :
    Outcome (Analysis α) := do
  let table ← a.table
  let tree ← ((a.search settings seed).tree table (a.override settings).tokens).attempt
  let ranking ← match tree with
    | some tree => (Search.rankingOf tree).attempt
    | none => pure none
  let ranking := ranking.getD []
  return { table, tree, ranking, decision := (Search.best ranking).getD table.passive }

/-- The report of an analysis. -/
def Analysis.report (x : Analysis Float) : Outcome Report := do
  let table ← x.table.text
  let outline ← match x.tree with
    | some tree => tree.outline
    | none => pure ""
  return { code := 0, lines := answerLines x.ranking x.decision, notes := [table, outline] }

/-- Analyses the table that the arguments describe, and reports. -/
def answer (a : Arguments) (settings : Settings) (seed : UInt64) : Outcome Report := do
  (← a.analyse settings seed).report

/-- The settings at a path, given what reading a path gives; without a path, the usual ones. -/
def loadSettings (a : Arguments) (read : String → Except ReadError String) :
    Except String Settings :=
  match a.settings with
  | none => .ok {}
  | some path =>
    match Settings.load (read path) with
    | .ok settings => .ok settings
    | .error (.unreadable cause) => .error ("read config " ++ path ++ ": " ++ cause.message)
    | .error .malformed => .error "parse config"
    | .error (.refused cause) => .error cause.message

/-- The run of the program, given what reading a path gives, and a seed for a search without one.
A fault ends the program with an exit code of its own. -/
def run (a : Arguments) (read : String → Except ReadError String) (seed : UInt64) : Report :=
  match a.loadSettings read with
  | .error why => { code := 1, error := some ("Error: " ++ why) }
  | .ok settings =>
    match a.answer settings seed with
    | .ok report => report
    | .error (.fault _) => { code := 101 }
    | .error failure => { code := 1, error := some ("Error: " ++ failure.message) }

end Arguments

/-- The run of the program on a command line, given what reading a path gives. -/
def runCommandLine (args : List String) (read : String → Except ReadError String)
    (seed : UInt64) : Report :=
  match Arguments.ofList args with
  | .ok a => a.run read seed
  | .error .information => { code := 0 }
  | .error .wrong => { code := 2 }

end Holdem
