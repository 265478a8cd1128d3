import SExprReflow.Bounded.Session
import SExprReflow.Disk
import SExprReflow.Reader

/-!
# From a source to a destination

Printing a text anew takes it from a source and leaves the result at a destination. Either
can be a path or a standard stream. The order matters: the source is opened first, then
the destination, which is emptied by that, and only then is the source read. So a failure
to open either leaves all files as they were, and a file that is its own destination is
empty by the time it is read.

The source is read in portions, and what a portion decides is written before the next one is
read. So when a source turns out to be no text, the beginning of it may have been printed.

Files hold UTF-8 and are taken as they are. On the standard input all line ends become
line feeds.
-/

namespace SExprReflow

/-- Where a text comes from or goes to. -/
inductive Endpoint where
  | stream
  | file (path : String)
deriving DecidableEq

namespace Endpoint

/-- The endpoint that a word stands for: a dash is the standard stream. -/
def ofWord (w : String) : Endpoint := if w = "-" then stream else file w

/-- How the line ends of a source are taken. -/
def lineEnds : Endpoint → LineEnds
  | stream => .unified
  | file _ => .kept

end Endpoint

/-- Why a transfer fails. -/
inductive TransferError where
  | cannotOpen (cause : FileError) (path : String)
  /-- The source is not UTF-8. -/
  | undecodable
  /-- The printed text has a line that is too long. -/
  | tooLong (cause : LengthError)
deriving DecidableEq

/-- What is left by a transfer. -/
structure Transfer where
  disk : Disk
  /-- What went to the standard output. -/
  output : List Char := []
  error : Option TransferError := none

/-! ## Printing portions -/

/-- What has been printed of a source, and why that ends before its time. -/
structure Rendition where
  text : List Char
  error : Option TransferError := none

/-- Reads portions of a text, one after the other. -/
def Session.readPortions [Memory] (x : Session) (portions : List (List Char)) :
    List Piece × Session :=
  runAll readAll x portions

/-- What is printed of a text that is handed over in portions. What is kept back at their end
is printed if that is the end of the text. -/
def Readout.reflow [Memory] (s : Settings) (r : Readout) : Rendition :=
  let x := (Session.ofSettings s).readPortions r.portions
  match x.2.error, r.fails with
  | some e, _ => ⟨Piece.textOf x.1, some (.tooLong e)⟩
  | none, true => ⟨Piece.textOf x.1, some .undecodable⟩
  | none, false =>
    let q := x.2.finish
    ⟨Piece.textOf (x.1 ++ q.1), q.2.error.map .tooLong⟩

/-! ## Opening, reading and writing -/

/-- A source that has been opened. -/
inductive OpenSource where
  | input (bytes : ByteArray)
  | file (loc : Location)

/-- A destination that has been opened. -/
inductive OpenDestination where
  | output
  | file (loc : Location)

/-- Opens a source. -/
def Disk.openSource (d : Disk) (input : ByteArray) :
    Endpoint → Except TransferError OpenSource
  | .stream => .ok (.input input)
  | .file path =>
    match d.source path with
    | .ok loc => .ok (.file loc)
    | .error e => .error (.cannotOpen e path)

/-- Opens a destination and empties it. -/
def Disk.openDestination (d : Disk) :
    Endpoint → Except TransferError (OpenDestination × Disk)
  | .stream => .ok (.output, d)
  | .file path =>
    match d.destination path with
    | .ok loc => .ok (.file loc, d.write loc .empty)
    | .error e => .error (.cannotOpen e path)

/-- The bytes of an open source. -/
def OpenSource.bytes (d : Disk) : OpenSource → ByteArray
  | .input bytes => bytes
  | .file loc => d.bytes loc

/-- Writes what is printed to an open destination. -/
def OpenDestination.write (d : Disk) (r : Rendition) : OpenDestination → Transfer
  | .output => { disk := d, output := r.text, error := r.error }
  | .file loc => { disk := d.write loc (encodeText r.text), error := r.error }

/-- Prints the text of a source anew at a destination. `input` is what the standard input
holds. -/
def transfer [Memory] (reader : TextReader) (s : Settings) (input : ByteArray)
    (source destination : Endpoint) (d : Disk) : Transfer :=
  match d.openSource input source with
  | .error e => { disk := d, error := some e }
  | .ok src =>
    match d.openDestination destination with
    | .error e => { disk := d, error := some e }
    | .ok (dst, d') =>
      dst.write d' ((reader.read source.lineEnds (src.bytes d')).reflow s)

end SExprReflow
