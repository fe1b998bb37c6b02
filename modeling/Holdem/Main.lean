import Holdem.CommandLine

/-!
# The program

Reads the settings, if a path is given, and prints the answer. What was looked at goes to the
standard error and to a file of the log directory.
-/

set_option autoImplicit false

open Holdem

/-- The name of the directory that holds the logs of the runs, in the working directory. -/
def logDirectory : String := "logs"

/-- The number of a system error, which may be given with either sign. -/
def errorNumber (code : UInt32) : UInt32 := if code < 0x80000000 then code else 0 - code

/-- Why reading a file failed. -/
def readErrorOf : IO.Error → ReadError
  | .noFileOrDirectory _ _ _ => .missing
  | .permissionDenied _ _ _ => .denied
  | .inappropriateType _ code _ => if errorNumber code = 20 then .notDirectory else .directory
  | e@(.invalidArgument _ code _) =>
    if errorNumber code = 36 then .nameTooLong else .other (toString e)
  | .userError _ => .notText
  | e => .other (toString e)

/-- What reading a path gives. -/
def readPath (path : String) : IO (Except ReadError String) := do
  try
    return .ok (← IO.FS.readFile path)
  catch e =>
    return .error (readErrorOf e)

/-- The program. -/
def main (args : List String) : IO UInt32 := do
  IO.FS.createDirAll logDirectory
  let log := logDirectory ++ "/" ++ toString (← IO.monoMsNow) ++ ".log"
  let source ← match Arguments.ofList args with
    | .ok { settings := some path, .. } => readPath path
    | _ => pure (.error .missing)
  let seed ← IO.rand 0 (Nat.pow 2 64 - 1)
  let report := runCommandLine args (fun _ => source) (UInt64.ofNat seed)
  IO.FS.writeFile log (String.join (report.notes.map (· ++ "\n")))
  for note in report.notes do
    IO.eprintln note
  for line in report.lines do
    IO.println line
  if let some error := report.error then
    IO.eprintln error
  return UInt32.ofNat report.code
