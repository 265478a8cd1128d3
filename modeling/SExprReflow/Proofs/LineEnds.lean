import SExprReflow.Command.Run
import SExprReflow.Proofs.Accounting
import SExprReflow.Proofs.Content
import SExprReflow.Proofs.Portions

/-!
# Line ends on the standard input

The standard input is taken with its line ends unified, and a file as it is. Outside strings the
difference does not show: a carriage return is white space as a line feed is, and one blank more or
less separates no better. Inside a string every character counts. So the command does the same to a
text that comes over the standard streams as to one that goes from file to file, unless a string in
it has a carriage return; then the stream loses it.

That a string of a text has a carriage return is said by `solid`, which leaves out white space
outside strings and nothing else.
-/

namespace SExprReflow

open Piece

/-! ## Outside strings -/

namespace Scanner

/-- What is solid behind the first character of a text is solid in the text. -/
theorem mem_solid_of_read {s : Scanner} (h : s.Coherent) {x c : Char} {cs : List Char}
    (hx : x ∈ solid (s.read c).2.inString (s.read c).2.escaped cs) :
    x ∈ solid s.inString s.escaped (c :: cs) := by
  -- where the next character stands does not depend on the atom before it
  have hflags : (s.read c).2.inString = (read { s with pending := [] } c).2.inString ∧
      (s.read c).2.escaped = (read { s with pending := [] } c).2.escaped := by
    unfold read
    simp only
    split <;> exact ⟨rfl, rfl⟩
  have hsolid := solid_read (s := { s with pending := [] }) h.inString_of_escaped c cs
  rw [← hflags.1, ← hflags.2] at hsolid
  rw [show solid s.inString s.escaped (c :: cs) = _ from hsolid]
  exact List.mem_append_right _ hx

end Scanner

namespace Session

/-- While nothing has failed, nothing is left undelivered. -/
def Current (x : Session) : Prop := x.error = none → x.undelivered = []

theorem read_of_none [Memory] {x : Session} (he : x.error = none) (c : Char) :
    x.read c = x.deliver (x.formatter.scanner.read c).2
      (x.formatter.printer.printWithin (x.formatter.scanner.read c).1) := by
  simp [read, he]

theorem scanner_read [Memory] {x : Session} (he : x.error = none) (c : Char) :
    (x.read c).2.formatter.scanner = (x.formatter.scanner.read c).2 := by
  rw [read_of_none he]
  unfold deliver
  split <;> rfl

theorem current_read [Memory] {x : Session} (he : x.error = none) (c : Char) :
    (x.read c).2.Current := by
  rw [read_of_none he]
  unfold deliver
  split
  · next e _ => exact fun h => absurd h (by simp)
  · exact fun _ => rfl

theorem readAll_cons [Memory] (x : Session) (c : Char) (cs : List Char) :
    x.readAll (c :: cs) =
      ((x.read c).1 ++ ((x.read c).2.readAll cs).1, ((x.read c).2.readAll cs).2) :=
  runAll_cons read x c cs

/-- White space after white space changes nothing. -/
theorem read_lineFeed [Memory] {x : Session} (hx : x.Current) (hs : x.formatter.scanner = {}) :
    x.read '\n' = ([], x) := by
  cases he : x.error with
  | some e => simp [read, he]
  | none =>
    obtain ⟨⟨scanner, printer⟩, undelivered, error⟩ := x
    obtain rfl : scanner = {} := hs
    obtain rfl : error = none := he
    obtain rfl : undelivered = [] := hx rfl
    have hr : ({} : Scanner).read '\n' = ([], {}) := rfl
    simp [read, hr, Printer.printWithin, deliver]

/-- Outside strings a carriage return is read as a line feed is. -/
theorem readAll_carriageReturn [Memory] {x : Session} (hs : x.formatter.scanner.Coherent)
    (hi : x.formatter.scanner.inString = false) (cs : List Char) :
    x.readAll ('\r' :: cs) = x.readAll ('\n' :: cs) := by
  have hr : x.read '\r' = x.read '\n' := by
    unfold read
    rw [hs.read_of_isBlank hi rfl, hs.read_of_isBlank hi rfl]
  rw [readAll_cons, readAll_cons, hr]

/-- A line feed more is not noticed. -/
theorem readAll_lineFeed_lineFeed [Memory] {x : Session} (hs : x.formatter.scanner.Coherent)
    (hi : x.formatter.scanner.inString = false) (cs : List Char) :
    x.readAll ('\n' :: '\n' :: cs) = x.readAll ('\n' :: cs) := by
  cases he : x.error with
  | some e => rw [readAll_of_error he, readAll_of_error he]
  | none =>
    have hscan : (x.read '\n').2.formatter.scanner = {} := by
      rw [scanner_read he, hs.read_of_isBlank hi rfl]
    rw [readAll_cons, readAll_cons, readAll_cons, read_lineFeed (current_read he _) hscan]
    rfl

/-- Whether unifying the line ends changes anything is decided character by character. -/
theorem readAll_cons_congr [Memory] {x : Session} {c : Char} {cs ds : List Char}
    (hs : x.formatter.scanner.Coherent)
    (hcr : '\r' ∉ solid x.formatter.scanner.inString x.formatter.scanner.escaped (c :: ds))
    (h : ∀ y : Session, y.formatter.scanner.Coherent →
      '\r' ∉ solid y.formatter.scanner.inString y.formatter.scanner.escaped ds →
      y.readAll cs = y.readAll ds) :
    x.readAll (c :: cs) = x.readAll (c :: ds) := by
  cases he : x.error with
  | some e => rw [readAll_of_error he, readAll_of_error he]
  | none =>
    have hscan := scanner_read he c
    rw [readAll_cons, readAll_cons, h (x.read c).2]
    · rw [hscan]
      exact (hs.read c).1
    · rw [hscan]
      exact fun hm => hcr (Scanner.mem_solid_of_read hs hm)

/-- **Where no string has a carriage return, unifying the line ends changes nothing.** -/
theorem readAll_unifyLineEnds [Memory] (text : List Char) (x : Session)
    (hs : x.formatter.scanner.Coherent)
    (hcr : '\r' ∉ solid x.formatter.scanner.inString x.formatter.scanner.escaped text) :
    x.readAll (unifyLineEnds text) = x.readAll text := by
  -- a carriage return that is not in a string is outside of all strings
  have houtside {cs : List Char} {y : Session}
      (h : '\r' ∉ solid y.formatter.scanner.inString y.formatter.scanner.escaped ('\r' :: cs)) :
      y.formatter.scanner.inString = false ∧
        '\r' ∉ solid y.formatter.scanner.inString y.formatter.scanner.escaped ('\n' :: cs) := by
    cases hi : y.formatter.scanner.inString with
    | true => exact absurd h (by simp [solid, hi])
    | false => exact ⟨rfl, by simpa [solid, hi, CharClass.isBlank] using h⟩
  fun_induction unifyLineEnds text generalizing x with
  | case1 => rfl
  | case2 cs ih =>
    obtain ⟨hi, hcr'⟩ := houtside hcr
    rw [readAll_carriageReturn hs hi, readAll_lineFeed_lineFeed hs hi]
    refine readAll_cons_congr hs ?_ ih
    simpa [solid, hi, CharClass.isBlank] using hcr'
  | case3 cs hne ih =>
    obtain ⟨hi, hcr'⟩ := houtside hcr
    rw [readAll_carriageReturn hs hi]
    exact readAll_cons_congr hs hcr' ih
  | case4 c cs h₁ h₂ ih => exact readAll_cons_congr hs hcr ih

end Session

/-- A text with no carriage return in its strings is printed alike with its line ends unified. -/
theorem reflowWithin_unifyLineEnds [Memory] (s : Settings) {text : List Char}
    (h : '\r' ∉ solid false false text) :
    reflowWithin s (unifyLineEnds text) = reflowWithin s text := by
  unfold reflowWithin
  rw [Session.readAll_unifyLineEnds text (.ofSettings s) Scanner.coherent_start h]

/-! ## Inside strings -/

theorem not_mem_unifyLineEnds (text : List Char) : '\r' ∉ unifyLineEnds text := by
  fun_induction unifyLineEnds text with
  | case1 => simp
  | case2 cs ih => simpa using ih
  | case3 cs hne ih => simpa using ih
  | case4 c cs h₁ h₂ ih =>
    have hc : '\r' ≠ c := fun he => h₂ he.symm
    simpa [hc] using ih

theorem mem_of_mem_solid {inString escaped : Bool} {x : Char} {text : List Char}
    (h : x ∈ solid inString escaped text) : x ∈ text := by
  fun_induction solid inString escaped text <;> grind

/-- What a text has besides white space is the text of its lexemes. -/
theorem solid_eq_flatMap_lexemes (text : List Char) :
    solid false false text = (lexemes text).flatMap Lexeme.text := by
  rw [← flatMap_text_endedLexemes, lexemes_eq, List.flatMap_append,
    Scanner.flatMap_text_pendingAtom]

theorem solid_reflow (s : Settings) (text : List Char) :
    solid false false (reflow s text) = solid false false text := by
  rw [solid_eq_flatMap_lexemes, solid_eq_flatMap_lexemes, lexemes_reflow]

/-- A carriage return inside a string is printed, unless the line ends are unified. -/
theorem not_mem_solid_of_reflow_eq {s : Settings} {text : List Char}
    (h : reflow s (unifyLineEnds text) = reflow s text) : '\r' ∉ solid false false text := by
  rw [← solid_reflow s text, ← h, solid_reflow]
  exact fun hm => not_mem_unifyLineEnds text (mem_of_mem_solid hm)

/-! ## Streams and files -/

/-- Over the standard streams no file is touched. -/
theorem transfer_streams [Memory] (reader : TextReader) (s : Settings) (text : List Char)
    (d : Disk) :
    transfer reader s (encodeText text) .stream .stream d =
      { disk := d
        output := (reflowWithin s (unifyLineEnds text)).text
        error := (reflowWithin s (unifyLineEnds text)).error.map .tooLong } := by
  have hread := reader.reflow_read_encodeText .unified s text
  simp only [transfer, Disk.openSource, Disk.openDestination, OpenSource.bytes, Endpoint.lineEnds,
    hread, OpenDestination.write, LineEnds.apply]

/-- No folder is opened for writing. -/
theorem Disk.isFolder_of_destination {d : Disk} {path : String} {loc : Location}
    (h : d.destination path = .ok loc) : d.isFolder loc = false := by
  simp only [destination, bind, Except.bind] at h
  repeat' split at h
  -- every way out but the last is an error
  case h_2.isFalse hf =>
    rw [← Except.ok.inj h]
    simpa using hf
  all_goals exact absurd h (by simp)

/-- A destination that has been emptied holds what is then written to it. -/
theorem Disk.get?_write_write {d : Disk} {path : String} {loc : Location}
    (h : d.destination path = .ok loc) (hn : d.get? loc ≠ some .nullDevice) (bytes : ByteArray) :
    ((d.write loc .empty).write loc bytes).get? loc = some (.file bytes) := by
  have hne : loc ≠ [] := by
    rintro rfl
    exact absurd (Disk.isFolder_of_destination h) (by simp [Disk.isFolder, Disk.get?])
  refine Disk.get?_write_self _ _ hne ?_
  rw [Disk.get?_write_self d _ hne hn]
  exact fun he => absurd (Option.some.inj he) (by simp)

/-- From a file to another one, the text is printed where the destination was emptied. -/
theorem Disk.transfer_elsewhere [Memory] {d : Disk} {src dst : String} {text : List Char}
    {a loc : Location} (hsrc : d.source src = .ok a)
    (hfile : d.get? a = some (.file (encodeText text))) (hdst : d.destination dst = .ok loc)
    (hne : loc ≠ a) (reader : TextReader) (s : Settings) (input : ByteArray) :
    transfer reader s input (.file src) (.file dst) d =
      { disk := (d.write loc .empty).write loc (encodeText (reflowWithin s text).text)
        error := (reflowWithin s text).error.map .tooLong } := by
  have hbytes : (d.write loc .empty).bytes a = encodeText text := by
    rw [Disk.bytes, Disk.get?_write_of_ne d _ hne, hfile]
  have hread := reader.reflow_read_encodeText .kept s text
  simp only [transfer, Disk.openSource, hsrc, Disk.openDestination, hdst, OpenSource.bytes, hbytes,
    Endpoint.lineEnds, hread, OpenDestination.write, LineEnds.apply]

/-- The path `src` leads to a file that holds `text`, and the path `dst` to another file at `loc`,
or to where one can be made. -/
structure Disk.Connects (d : Disk) (src dst : String) (text : List Char) (loc : Location) :
    Prop where
  source : ∃ a, d.source src = .ok a ∧ d.get? a = some (.file (encodeText text)) ∧ loc ≠ a
  destination : d.destination dst = .ok loc
  not_nullDevice : d.get? loc ≠ some .nullDevice

theorem Disk.Connects.transfer_eq [Memory] {d : Disk} {src dst : String} {text : List Char}
    {loc : Location} (h : d.Connects src dst text loc) (reader : TextReader) (s : Settings)
    (input : ByteArray) :
    transfer reader s input (.file src) (.file dst) d =
      { disk := (d.write loc .empty).write loc (encodeText (reflowWithin s text).text)
        error := (reflowWithin s text).error.map .tooLong } := by
  obtain ⟨a, ha, hfile, hne⟩ := h.source
  exact Disk.transfer_elsewhere ha hfile h.destination hne reader s input

theorem Disk.Connects.get?_transfer [Memory] {d : Disk} {src dst : String} {text : List Char}
    {loc : Location} (h : d.Connects src dst text loc) (reader : TextReader) (s : Settings)
    (input : ByteArray) :
    (transfer reader s input (.file src) (.file dst) d).disk.get? loc =
      some (.file (encodeText (reflowWithin s text).text)) := by
  rw [h.transfer_eq]
  exact Disk.get?_write_write h.destination h.not_nullDevice _

/-- The exit code of a transfer that gets as far as printing. -/
def Delivery.exitCode (d : Delivery) : Nat := if d.error.isSome then 1 else 0

theorem Delivery.error_eq_none {d : Delivery} (h : d.exitCode = 0) : d.error = none := by
  simpa [exitCode] using h

theorem Arguments.run_streams [Memory] {a : Arguments} {s : Settings} {ws : List Warning}
    (hs : a.options.settings = .ok (s, ws)) (hsrc : a.source = "-") (hdst : a.destination = "-")
    (reader : TextReader) (text : List Char) (d : Disk) :
    (a.run reader (encodeText text) d).output =
        String.ofList (reflowWithin s (unifyLineEnds text)).text ∧
      (a.run reader (encodeText text) d).exitCode =
        (reflowWithin s (unifyLineEnds text)).exitCode := by
  have hstream : Endpoint.ofWord "-" = .stream := rfl
  simp [run, hs, hsrc, hdst, hstream, transfer_streams, Delivery.exitCode]

theorem Endpoint.ofWord_of_ne {w : String} (h : w ≠ "-") : ofWord w = .file w := if_neg h

theorem Disk.Connects.run_files [Memory] {d : Disk} {text : List Char} {loc : Location}
    {a : Arguments} (hd : d.Connects a.source a.destination text loc) {s : Settings}
    {ws : List Warning} (hs : a.options.settings = .ok (s, ws)) (hsrc : a.source ≠ "-")
    (hdst : a.destination ≠ "-") (reader : TextReader) (input : ByteArray) :
    (a.run reader input d).disk.get? loc =
        some (.file (encodeText (reflowWithin s text).text)) ∧
      (a.run reader input d).exitCode = (reflowWithin s text).exitCode := by
  have hfile := hd.get?_transfer reader s input
  simp only [Arguments.run, hs, Endpoint.ofWord_of_ne hsrc, Endpoint.ofWord_of_ne hdst]
  refine ⟨hfile, ?_⟩
  rw [hd.transfer_eq]
  simp [Delivery.exitCode]

/-- **The standard streams and files come to the same text exactly if no string has a carriage
return.** The command runs twice with the same options, once between the standard streams and once
from a file to another, and the same text stands on the standard input and in the source. The file
is printed with every string as it is; the stream is printed with its line ends unified. Where no
string has a carriage return the two texts are the same, and so are the exit codes. Where one has,
and both runs succeed, the texts differ. None of that depends on how the texts are read. -/
theorem streams_agree_iff [Memory] {a : Arguments} {s : Settings} {ws : List Warning}
    {src dst : String} {d : Disk} {text : List Char} {loc : Location}
    (hs : a.options.settings = .ok (s, ws)) (hsrc : src ≠ "-") (hdst : dst ≠ "-")
    (hd : d.Connects src dst text loc) (reader₁ reader₂ : TextReader) (input : ByteArray) :
    let streamed := { a with source := "-", destination := "-" }.run reader₁ (encodeText text) d
    let filed := { a with source := src, destination := dst }.run reader₂ input d
    streamed.output = String.ofList (reflowWithin s (unifyLineEnds text)).text ∧
      filed.disk.get? loc = some (.file (encodeText (reflowWithin s text).text)) ∧
      (filed.exitCode = 0 →
        solid false false (reflowWithin s text).text = solid false false text) ∧
      ('\r' ∉ solid false false text →
        filed.disk.get? loc = some (.file streamed.output.toUTF8) ∧
          streamed.exitCode = filed.exitCode) ∧
      (streamed.exitCode = 0 → filed.exitCode = 0 →
        filed.disk.get? loc = some (.file streamed.output.toUTF8) →
        '\r' ∉ solid false false text) := by
  intro streamed filed
  obtain ⟨hout, hcode₁⟩ := Arguments.run_streams
    (a := { a with source := "-", destination := "-" }) hs rfl rfl reader₁ text d
  obtain ⟨hfile, hcode₂⟩ := Disk.Connects.run_files
    (a := { a with source := src, destination := dst }) hd hs hsrc hdst reader₂ input
  have hagree : filed.disk.get? loc = some (.file streamed.output.toUTF8) ↔
      (reflowWithin s (unifyLineEnds text)).text = (reflowWithin s text).text := by
    rw [hfile, hout]
    constructor
    · intro h
      exact (encodeText_injective (Entry.file.inj (Option.some.inj h))).symm
    · intro h
      rw [h]
      rfl
  refine ⟨hout, hfile, fun h₀ => ?_, fun hcr => ?_, fun h₀ h₀' hsame => ?_⟩
  · rw [text_reflowWithin (Delivery.error_eq_none (hcode₂ ▸ h₀)), solid_reflow]
  · have heq := reflowWithin_unifyLineEnds s hcr
    exact ⟨hagree.mpr (congrArg Delivery.text heq), by rw [hcode₁, hcode₂, heq]⟩
  · have htext := hagree.mp hsame
    rw [text_reflowWithin (Delivery.error_eq_none (hcode₁ ▸ h₀)),
      text_reflowWithin (Delivery.error_eq_none (hcode₂ ▸ h₀'))] at htext
    exact not_mem_solid_of_reflow_eq htext

/-- A disk with one file, `f`, in the working folder. -/
def diskHolding (text : List Char) : Disk :=
  Disk.fresh.add ["tmp", "work", "f"] (.file (encodeText text))

theorem diskHolding_connects (text : List Char) :
    (diskHolding text).Connects "f" "g" text ["tmp", "work", "g"] where
  source := ⟨["tmp", "work", "f"], rfl, rfl, by decide⟩
  destination := rfl
  not_nullDevice := by
    have hnone : (diskHolding text).get? ["tmp", "work", "g"] = none := rfl
    simp [hnone]

/-- A run from `f` to `g`. -/
def fileArguments : Arguments := { source := "f", destination := "g" }

/-- A run between the standard streams. -/
def streamArguments : Arguments := { source := "-", destination := "-" }

theorem settings_fileArguments : fileArguments.options.settings = .ok (default, []) := rfl

section

attribute [local instance] Memory.small

/-- A list over two lines that end in carriage return and line feed. -/
def twoLines : List Char := "(a\r\n\"b\")\r\n".toList

/-- Line ends outside strings make no difference. -/
theorem streams_agree_twoLines :
    (fileArguments.run (.ofSize 8192) .empty (diskHolding twoLines)).disk.get?
        ["tmp", "work", "g"] =
      some (.file (streamArguments.run (.ofSize 8192) (encodeText twoLines)
        (diskHolding twoLines)).output.toUTF8) :=
  ((streams_agree_iff settings_fileArguments (by decide) (by decide)
    (diskHolding_connects twoLines) _ _ .empty).2.2.2.1 (by decide)).1

/-- A string with a carriage return in it. -/
def brokenString : List Char := "\"a\rb\"".toList

/-- From file to file the string stays as it is, and over the streams it does not. -/
theorem carriageReturn_lost_on_streams :
    let filed := fileArguments.run (.ofSize 8192) .empty (diskHolding brokenString)
    let streamed :=
      streamArguments.run (.ofSize 8192) (encodeText brokenString) (diskHolding brokenString)
    filed.disk.get? ["tmp", "work", "g"] = some (.file "\"a\rb\"\n".toUTF8) ∧
      streamed.output = "\"a\nb\"\n" ∧
      filed.disk.get? ["tmp", "work", "g"] ≠ some (.file streamed.output.toUTF8) := by
  intro filed streamed
  have hfile : filed.disk.get? ["tmp", "work", "g"] = some (.file "\"a\rb\"\n".toUTF8) := by
    have htext : (reflowWithin default brokenString).text = "\"a\rb\"\n".toList := by decide +kernel
    have hrun := (diskHolding_connects brokenString).run_files (a := fileArguments)
      settings_fileArguments (by decide) (by decide) (.ofSize 8192) .empty
    rw [htext, encodeText, String.ofList_toList] at hrun
    exact hrun.1
  have hout : streamed.output = "\"a\nb\"\n" := by
    have htext : (reflowWithin default (unifyLineEnds brokenString)).text =
        "\"a\nb\"\n".toList := by decide +kernel
    have hrun := Arguments.run_streams (a := streamArguments) settings_fileArguments rfl rfl
      (.ofSize 8192) brokenString (diskHolding brokenString)
    rw [htext, String.ofList_toList] at hrun
    exact hrun.1
  refine ⟨hfile, hout, ?_⟩
  rw [hfile, hout]
  intro h
  have hbytes : "\"a\rb\"\n".toUTF8 = "\"a\nb\"\n".toUTF8 := Entry.file.inj (Option.some.inj h)
  exact absurd (String.toByteArray_inj.mp hbytes) (by decide)

end

end SExprReflow
