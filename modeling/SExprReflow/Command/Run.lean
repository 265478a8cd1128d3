import SExprReflow.Options
import SExprReflow.Transfer

/-!
# Running the command

`Arguments` are the values of the parameters of the command, and `Arguments.run` is a run of
it: together with the standard input and the files before the run they give the exit code,
what is said and written, and the files after it. The exit code is 1 for settings that are
refused and for all that makes a transfer fail.

The command reports settings that are refused and what the file system refuses. Other
failures it does not handle, and how they are shown is not its business.
-/

namespace SExprReflow

/-- The values of the parameters of the command. -/
structure Arguments where
  source : String
  destination : String := "-"
  wrapThreshold : Int := 72
  compactList : List String := []
  columnLimit : Int := 99
  shortform : List String := []
  profile : Option String := none

/-- The options among the arguments. -/
def Arguments.options (a : Arguments) : Options where
  wrapThreshold := .int a.wrapThreshold
  columnLimit := .int a.columnLimit
  compact := a.compactList.map .text
  shortform := a.shortform.map .text
  profile := a.profile

/-- The failure of a transfer in words. Only what the file system refuses has any. -/
def TransferError.message? : TransferError → Option String
  | .cannotOpen .nullCharacter _ => none
  | .cannotOpen cause path => some (cause.message ++ ": " ++ path)
  | .undecodable | .tooLong _ => none

/-- How the command reports an error. -/
def errorReport (message : String) : String := "Error: " ++ message

/-- What is left by a run of the command. -/
structure CommandResult where
  exitCode : Nat
  /-- What is written to the standard output. -/
  output : String := ""
  /-- The line that the command asks to be shown on the standard error stream. -/
  report : Option String := none
  warnings : List Warning := []
  /-- The failure that ends the run without being handled. -/
  uncaught : Option TransferError := none
  disk : Disk

/-- Runs the command. -/
def Arguments.run [Memory] (a : Arguments) (reader : TextReader) (input : ByteArray) (d : Disk) :
    CommandResult :=
  match a.options.settings with
  | .error e => { exitCode := 1, report := some (errorReport e.message), disk := d }
  | .ok (settings, warnings) =>
    let t := transfer reader settings input (.ofWord a.source) (.ofWord a.destination) d
    { exitCode := if t.error.isSome then 1 else 0
      output := String.ofList t.output
      report := (t.error.bind TransferError.message?).map errorReport
      warnings := warnings
      uncaught := t.error.filter fun e => e.message?.isNone
      disk := t.disk }

end SExprReflow
