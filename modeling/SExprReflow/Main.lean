import SExprReflow.Command.Line

/-!
# The command

The command on real files and streams. What it does is said by `runCommand`; here the same
steps are taken on handles, in the same order.
-/

namespace SExprReflow

/-- The memory that the command counts on. -/
abbrev Memory.assumed : Memory := ⟨1099511627775⟩

attribute [local instance] Memory.assumed

/-- The number of characters that the command reads at a time. -/
def portionSize : Nat := 8192

/-- Why a path cannot be opened or read, in words. -/
def ioMessage : IO.Error → String
  | .noFileOrDirectory _ _ details => details
  | .inappropriateType _ _ details => details
  | .permissionDenied _ _ details => details
  | .invalidArgument _ _ details => details
  | e => toString e

/-- Reports that a path cannot be opened. -/
def reportPath (message path : String) : IO Unit := do
  (← IO.getStderr).putStr (reportLine (errorReport (message ++ ": " ++ path)))

/-- Opens a path, or reports why that is not possible. -/
def openPath (path : String) (mode : IO.FS.Mode) : IO (Option IO.FS.Handle) := do
  match ← (IO.FS.Handle.mk path mode).toBaseIO with
  | .ok h => return some h
  | .error e =>
    reportPath (ioMessage e) path
    return none

/-- Opens a path for reading. A folder could be opened, though not read: it is told by the
folder that it holds itself. -/
def openToRead (path : String) : IO (Option IO.FS.Handle) := do
  match ← (IO.FS.Handle.mk (path ++ "/.") .read).toBaseIO with
  | .ok _ =>
    reportPath FileError.isFolder.message path
    return none
  | .error _ => openPath path .read

/-- The bytes of a stream. -/
def readStream (stream : IO.FS.Stream) : IO ByteArray := do
  let mut done := ByteArray.empty
  repeat
    let bytes ← stream.read portionSize.toUSize
    if bytes.isEmpty then break
    done := done ++ bytes
  return done

/-- The bytes of an open source; none stands for the standard input. -/
def readSource : Option IO.FS.Handle → IO ByteArray
  | some h => h.readBinToEnd
  | none => do readStream (← IO.getStdin)

/-- Writes to an open destination; none stands for the standard output. -/
def writeDestination (dst : Option IO.FS.Handle) (ps : List Piece) : IO Unit := do
  let bytes := encodeText (Piece.textOf ps)
  match dst with
  | some h => h.write bytes
  | none => (← IO.getStdout).write bytes

/-- Prints portions of a text as they come, and gives the session behind them. -/
def writePortions (dst : Option IO.FS.Handle) (x : Session) :
    List (List Char) → IO Session
  | [] => return x
  | portion :: portions => do
    let r := x.readAll portion
    writeDestination dst r.1
    writePortions dst r.2 portions

/-- Takes a text from a source to a destination, and gives the exit code. -/
def runTransfer (settings : Settings) (source destination : Endpoint) : IO UInt32 := do
  let mut src : Option IO.FS.Handle := none
  if let .file path := source then
    src ← openToRead path
    if src.isNone then return 1
  let mut dst : Option IO.FS.Handle := none
  if let .file path := destination then
    dst ← openPath path .write
    if dst.isNone then return 1
  let readout := (TextReader.ofSize portionSize).read source.lineEnds (← readSource src)
  let x ← writePortions dst (.ofSettings settings) readout.portions
  if x.error.isSome || readout.fails then return 1
  let r := x.finish
  writeDestination dst r.1
  return if r.2.error.isSome then 1 else 0

end SExprReflow

open SExprReflow in
/-- Runs the command with the arguments it is given. -/
def main (args : List String) : IO UInt32 := do
  match Request.ofArguments args with
  | .error _ =>
    (← IO.getStderr).putStr usageText
    return 2
  | .ok .version =>
    IO.println versionText
    return 0
  | .ok .help =>
    IO.print usageText
    return 0
  | .ok (.run arguments) =>
    match arguments.options.settings with
    | .error e =>
      (← IO.getStderr).putStr (reportLine (errorReport e.message))
      return 1
    | .ok (settings, warnings) =>
      for w in warnings do
        (← IO.getStderr).putStrLn ("Warning: " ++ w.message)
      runTransfer settings (.ofWord arguments.source) (.ofWord arguments.destination)
