import SExprReflow.Command.Run

/-!
# Command lines

The outer layer of the command: from the words of a command line to its arguments, and from what
comes of a run to what is shown. What a run does with its arguments is said by `Arguments.run`.

A command line is split into options with their values, flags, and the words that are left
over. An option takes the next word as its value, whatever that looks like, unless the
value is attached to it. Among words that begin with one dash, each letter is an option of
its own until one of them takes the rest of the word as its value.

The flags for help and for the version are looked at as soon as the line has been split,
the first of them first; only then are the values checked.
-/

namespace SExprReflow

/-- The options of the command. -/
inductive CommandOption where
  | wrapThreshold
  | compactList
  | columnLimit
  | shortform
  | profile
  | version
  | help
deriving DecidableEq, Repr

namespace CommandOption

/-- Whether the option has a value; one without is a flag. -/
def takesValue : CommandOption → Bool
  | version | help => false
  | _ => true

/-- The option with the given long name. -/
def ofName? : String → Option CommandOption
  | "wrap-threshold" => some wrapThreshold
  | "compact-list" => some compactList
  | "column-limit" => some columnLimit
  | "shortform" => some shortform
  | "profile" => some profile
  | "version" => some version
  | "help" => some help
  | _ => none

/-- The option with the given letter. -/
def ofLetter? : Char → Option CommandOption
  | 'w' => some wrapThreshold
  | 'l' => some compactList
  | 'k' => some columnLimit
  | 's' => some shortform
  | 'p' => some profile
  | 'V' => some version
  | _ => none

end CommandOption

/-- Why a command line is refused. -/
inductive UsageError where
  | noArguments
  | unknownOption (name : String)
  | missingValue (option : CommandOption)
  | unwantedValue (option : CommandOption)
  | notAnInteger (option : CommandOption) (value : String)
  | missingSource
  | extraWord (word : String)
deriving DecidableEq, Repr

/-- A part of a command line. -/
inductive CommandPart where
  | option (option : CommandOption) (value : String)
  | flag (option : CommandOption)
  | word (word : String)
deriving DecidableEq, Repr

namespace CommandPart

/-- The parts in one argument, and the option that takes the next argument as its value. -/
abbrev Reading := List CommandPart × Option CommandOption

/-- Reads letters of options. -/
def readLetters : List Char → Except UsageError Reading
  | [] => .ok ([], none)
  | c :: cs =>
    match CommandOption.ofLetter? c with
    | none => .error (.unknownOption (String.ofList ['-', c]))
    | some o =>
      if o.takesValue then
        if cs.isEmpty then .ok ([], some o) else .ok ([option o (String.ofList cs)], none)
      else do
        let (parts, awaiting) ← readLetters cs
        return (flag o :: parts, awaiting)

/-- Reads the long name of an option, with the value after an equals sign if there is one. -/
def readName (cs : List Char) : Except UsageError Reading :=
  let name := String.ofList (cs.takeWhile (· ≠ '='))
  match CommandOption.ofName? name, cs.dropWhile (· ≠ '=') with
  | none, _ => .error (.unknownOption ("--" ++ name))
  | some o, [] => if o.takesValue then .ok ([], some o) else .ok ([flag o], none)
  | some o, _ :: value =>
    if o.takesValue then .ok ([option o (String.ofList value)], none)
    else .error (.unwantedValue o)

/-- Reads one argument. A single dash is a word like any other. -/
def read (arg : String) : Except UsageError Reading :=
  match arg.toList with
  | '-' :: '-' :: cs => readName cs
  | '-' :: c :: cs => readLetters (c :: cs)
  | _ => .ok ([word arg], none)

/-- Splits a command line. After two dashes there are words only. -/
def split : List String → Except UsageError (List CommandPart)
  | [] => .ok []
  | "--" :: args => .ok (args.map word)
  | arg :: args =>
    match read arg with
    | .error e => .error e
    | .ok (parts, none) => (split args).map (parts ++ ·)
    | .ok (parts, some o) =>
      match args with
      | [] => .error (.missingValue o)
      | value :: args => (split args).map (parts ++ option o value :: ·)

/-- The values given for an option, in order. -/
def values (o : CommandOption) (parts : List CommandPart) : List String :=
  parts.filterMap fun
    | option o' value => if o' = o then some value else none
    | _ => none

/-- The words, in order. -/
def words (parts : List CommandPart) : List String :=
  parts.filterMap fun
    | word w => some w
    | _ => none

/-- The first flag. -/
def firstFlag? (parts : List CommandPart) : Option CommandOption :=
  parts.findSome? fun
    | flag o => some o
    | _ => none

end CommandPart

/-! ## Values -/

/-- The zeros of the decimal digits of Unicode, version 14.0. Behind each of them are the
digits from one to nine. -/
def decimalZeros : List Nat :=
  [0x30, 0x660, 0x6f0, 0x7c0, 0x966, 0x9e6, 0xa66, 0xae6, 0xb66, 0xbe6, 0xc66, 0xce6, 0xd66,
    0xde6, 0xe50, 0xed0, 0xf20, 0x1040, 0x1090, 0x17e0, 0x1810, 0x1946, 0x19d0, 0x1a80, 0x1a90,
    0x1b50, 0x1bb0, 0x1c40, 0x1c50, 0xa620, 0xa8d0, 0xa900, 0xa9d0, 0xa9f0, 0xaa50, 0xabf0,
    0xff10, 0x104a0, 0x10d30, 0x11066, 0x110f0, 0x11136, 0x111d0, 0x112f0, 0x11450, 0x114d0,
    0x11650, 0x116c0, 0x11730, 0x118e0, 0x11950, 0x11c50, 0x11d50, 0x11da0, 0x16a60, 0x16ac0,
    0x16b50, 0x1d7ce, 0x1d7d8, 0x1d7e2, 0x1d7ec, 0x1d7f6, 0x1e140, 0x1e2f0, 0x1e950, 0x1fbf0]

/-- The value of a decimal digit. -/
def digitValue? (c : Char) : Option Nat :=
  (decimalZeros.find? fun z => z ≤ c.toNat && c.toNat ≤ z + 9).map fun z => c.toNat - z

/-- The white space that may stand around a number. -/
def isOuterSpace (c : Char) : Bool :=
  c = ' ' || (0x9 ≤ c.toNat && c.toNat ≤ 0xd) || (0x2000 ≤ c.toNat && c.toNat ≤ 0x200a) ||
    [0x85, 0xa0, 0x1680, 0x2028, 0x2029, 0x202f, 0x205f, 0x3000].contains c.toNat

/-- The values of digits, between which there may be single underscores. -/
def readDigits : List Char → Option (List Nat)
  | [] => none
  | [c] => (digitValue? c).map fun n => [n]
  | c :: '_' :: cs => do return (← digitValue? c) :: (← readDigits cs)
  | c :: cs => do return (← digitValue? c) :: (← readDigits cs)

/-- The most digits that a number may have, zeros in front apart. -/
def maxDigits : Nat := 4300

/-- A number in decimal. -/
def readNatural (cs : List Char) : Option Nat := do
  let digits := (← readDigits cs).dropWhile (· = 0)
  if maxDigits < digits.length then none else return digits.foldl (fun n k => 10 * n + k) 0

/-- An integer in decimal, with a sign in front if there is one, and white space around it. -/
def readInteger (text : String) : Option Int :=
  let trimmed := ((text.toList.dropWhile isOuterSpace).reverse.dropWhile isOuterSpace).reverse
  match trimmed with
  | '-' :: cs => (readNatural cs).map fun n => -(n : Int)
  | '+' :: cs => (readNatural cs).map fun n => (n : Int)
  | cs => (readNatural cs).map fun n => (n : Int)

/-- The integer given last for an option, or a default. -/
def integerValue (o : CommandOption) (default : Int) (parts : List CommandPart) :
    Except UsageError Int :=
  match (CommandPart.values o parts).getLast? with
  | none => .ok default
  | some text =>
    match readInteger text with
    | some n => .ok n
    | none => .error (.notAnInteger o text)

/-- What a command line asks for. -/
inductive Request where
  | version
  | help
  | run (arguments : Arguments)

namespace Request

/-- The request of a line that has been split. -/
def ofParts (parts : List CommandPart) : Except UsageError Request :=
  match CommandPart.firstFlag? parts with
  | some .version => .ok version
  | some _ => .ok help
  | none => do
    let wrapThreshold ← integerValue .wrapThreshold 72 parts
    let columnLimit ← integerValue .columnLimit 99 parts
    let arguments (source : String) (destination : String) : Arguments :=
      { source := source
        destination := destination
        wrapThreshold := wrapThreshold
        compactList := CommandPart.values .compactList parts
        columnLimit := columnLimit
        shortform := CommandPart.values .shortform parts
        profile := (CommandPart.values .profile parts).getLast? }
    match CommandPart.words parts with
    | [] => .error .missingSource
    | [source] => return run (arguments source "-")
    | [source, destination] => return run (arguments source destination)
    | _ :: _ :: w :: _ => .error (.extraWord w)

/-- The request of a command line. -/
def ofArguments : List String → Except UsageError Request
  | [] => .error .noArguments
  | args => do ofParts (← CommandPart.split args)

end Request

/-! ## What is shown -/

/-- The version that the command reports. -/
def versionText : String := "0.0.0"

/-- How the command is used. -/
def usageText : String :=
  "\n".intercalate
    ["Usage: sexpr-reflow [OPTIONS] SOURCE [DESTINATION]",
      "",
      "Print S-expressions anew. Only white space is changed. A dash stands for a",
      "standard stream, and the standard output is the destination if none is given.",
      "",
      "  -w, --wrap-threshold INTEGER  Atoms on a line of a normal list.",
      "  -l, --compact-list TEXT       Add a head of compact lists.",
      "  -k, --column-limit INTEGER    Column that compact lists stay within.",
      "  -s, --shortform TEXT          Add a head of lists on a single line.",
      "  -p, --profile TEXT            Use the heads of a profile: kicad, kicad-compact.",
      "  -V, --version                 Print the version and exit.",
      "  --help                        Print this text and exit.",
      ""]

/-! A terminal takes some sequences of characters for commands: an escape character, an opening
bracket, digits with semicolons and question marks, and a letter. They are left out of reports,
which repeat what was given. -/

/-- The escape character. -/
def escapeChar : Char := '\x1b'

/-- The characters that may stand between the bracket and the letter of a command. -/
def isParameter (c : Char) : Bool := c.isDigit || c = ';' || c = '?'

/-- The text after `begun`, which is what has been read of a command, newest first. -/
def plainAfter (begun : List Char) : List Char → List Char
  | [] => begun.reverse
  | c :: cs =>
    if c = escapeChar then begun.reverse ++ plainAfter [c] cs
    else
      match begun with
      | [] => c :: plainAfter [] cs
      | [e] => if c = '[' then plainAfter [c, e] cs else e :: c :: plainAfter [] cs
      | _ :: _ :: _ =>
        if isParameter c then plainAfter (c :: begun) cs
        else if c.isAlpha then plainAfter [] cs
        else begun.reverse ++ c :: plainAfter [] cs

/-- The text without commands to a terminal. -/
def plainText (text : List Char) : List Char := plainAfter [] text

/-- The line on which a report is shown. -/
def reportLine (report : String) : String :=
  String.ofList (plainText (report ++ "\n").toList)

/-- Runs a command line. -/
def runCommand [Memory] (reader : TextReader) (args : List String) (input : ByteArray) (d : Disk) :
    CommandResult :=
  match Request.ofArguments args with
  | .error _ => { exitCode := 2, report := some usageText, disk := d }
  | .ok .version => { exitCode := 0, output := versionText ++ "\n", disk := d }
  | .ok .help => { exitCode := 0, output := usageText, disk := d }
  | .ok (.run arguments) => arguments.run reader input d

end SExprReflow
