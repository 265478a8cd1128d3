import SExprReflow.Proofs.Files
import SExprReflow.Proofs.OptionSettings

/-!
# Failing runs

A run of the command can fail at four moments: when its settings are refused, when the source or
the destination cannot be opened, and while the source is read. `Disk.Fails` and
`Arguments.FailsWith` list the reasons, and there are no others.

A failure at one of the first three moments has touched no file, and the command says what it is,
unless a path has a null character in it. When the source is read, the destination has been
emptied already. Bytes that are no text end the run there, be they from a file or from the standard
input; the command has no words for that, and the destination is left with what was printed of the
characters that had been handed over (`failing_command_reports`).
-/

namespace SExprReflow

open Piece

/-! ## Opening -/

namespace Disk

variable {d d' : Disk} {input bytes : ByteArray} {source destination : Endpoint}
  {e : TransferError}

theorem openSource_eq_error_iff :
    d.openSource input source = .error e ↔
      ∃ path cause, source = .file path ∧ d.source path = .error cause ∧
        e = .cannotOpen cause path := by
  cases source with
  | stream => simp [openSource]
  | file path =>
    simp only [openSource]
    cases hpath : d.source path with
    | ok loc => simp [hpath]
    | error cause => simp [hpath, eq_comm]

theorem openDestination_eq_error_iff :
    d.openDestination destination = .error e ↔
      ∃ path cause, destination = .file path ∧ d.destination path = .error cause ∧
        e = .cannotOpen cause path := by
  cases destination with
  | stream => simp [openDestination]
  | file path =>
    simp only [openDestination]
    cases hpath : d.destination path with
    | ok loc => simp [hpath]
    | error cause => simp [hpath, eq_comm]

/-- The bytes that a source has once the destination has been opened. -/
inductive Offers (d : Disk) (input : ByteArray) (destination : Endpoint) :
    Endpoint → ByteArray → Prop where
  | input : Offers d input destination .stream input
  | file {path : String} {a : Location} :
      d.source path = .ok a → ¬ d.LeadsTo destination a →
      Offers d input destination (.file path) (d.bytes a)
  /-- A file that is its own destination has been emptied. -/
  | own {path : String} {a : Location} :
      d.source path = .ok a → d.LeadsTo destination a →
      Offers d input destination (.file path) .empty

theorem offers_iff {dst : OpenDestination} (hdst : d.openDestination destination = .ok (dst, d')) :
    d.Offers input destination source bytes ↔
      ∃ src, d.openSource input source = .ok src ∧ bytes = src.bytes d' := by
  have hother {a : Location} (h : ¬ d.LeadsTo destination a) : d'.bytes a = d.bytes a := by
    rw [Disk.bytes, Disk.bytes, get?_openDestination hdst h]
  have hown {a : Location} (h : d.LeadsTo destination a) : d'.bytes a = .empty := by
    rcases openDestination_cases hdst with ⟨rfl, -, -⟩ | ⟨loc, hloc, -, rfl⟩
    · exact absurd h not_leadsTo_stream
    · obtain rfl := h.unique hloc
      exact bytes_write_empty d a
  constructor
  · intro h
    cases h with
    | input => exact ⟨_, rfl, rfl⟩
    | @file path a ha hlead => exact ⟨.file a, by simp [openSource, ha], (hother hlead).symm⟩
    | @own path a ha hlead => exact ⟨.file a, by simp [openSource, ha], (hown hlead).symm⟩
  · rintro ⟨src, hsrc, rfl⟩
    cases source with
    | stream =>
      obtain rfl := Except.ok.inj hsrc
      exact .input
    | file path =>
      simp only [openSource] at hsrc
      split at hsrc
      · next a ha =>
        obtain rfl := Except.ok.inj hsrc
        by_cases hlead : d.LeadsTo destination a
        · rw [OpenSource.bytes, hown hlead]
          exact .own ha hlead
        · rw [OpenSource.bytes, hother hlead]
          exact .file ha hlead
      · exact absurd hsrc (by simp)

/-- The destination can be opened. -/
def Opens (d : Disk) (destination : Endpoint) : Prop :=
  ∃ dst d', d.openDestination destination = .ok (dst, d')

theorem LeadsTo.opens {loc : Location} (h : d.LeadsTo destination loc) : d.Opens destination := by
  obtain ⟨path, rfl, hpath⟩ := h
  exact ⟨.file loc, d.write loc .empty, by simp [openDestination, hpath]⟩

theorem error_write (dst : OpenDestination) (d : Disk) (r : Rendition) :
    (dst.write d r).error = r.error := by
  cases dst <;> rfl

/-! ## Failed transfers -/

variable [Memory] {reader : TextReader} {s : Settings}

/-- With both ends open, what is printed of the source is written. -/
theorem transfer_of_offers {dst : OpenDestination}
    (hdst : d.openDestination destination = .ok (dst, d'))
    (h : d.Offers input destination source bytes) :
    transfer reader s input source destination d =
      dst.write d' ((reader.read source.lineEnds bytes).reflow s) := by
  obtain ⟨src, hsrc, rfl⟩ := (offers_iff hdst).mp h
  simp only [transfer, hsrc, hdst]

/-- What can make a transfer fail. -/
inductive Fails (d : Disk) (reader : TextReader) (s : Settings) (input : ByteArray)
    (source destination : Endpoint) : TransferError → Prop where
  /-- The source cannot be opened. -/
  | source {path : String} {cause : FileError} :
      source = .file path → d.source path = .error cause →
      Fails d reader s input source destination (.cannotOpen cause path)
  /-- The source can be opened, and the destination cannot. -/
  | destination {src : OpenSource} {path : String} {cause : FileError} :
      d.openSource input source = .ok src → destination = .file path →
      d.destination path = .error cause →
      Fails d reader s input source destination (.cannotOpen cause path)
  /-- Both can be opened, and the source is no text. -/
  | undecodable {bytes : ByteArray} :
      d.Opens destination → d.Offers input destination source bytes → decodeText bytes = none →
      firstLengthError? ((reader.read source.lineEnds bytes).pieces s) = none →
      Fails d reader s input source destination .undecodable
  /-- What is printed of the source has a line that is too long. -/
  | tooLong {bytes : ByteArray} {cause : LengthError} :
      d.Opens destination → d.Offers input destination source bytes →
      firstLengthError? ((reader.read source.lineEnds bytes).pieces s) = some cause →
      Fails d reader s input source destination (.tooLong cause)

/-- What cannot be opened is found out before anything is written. -/
theorem transfer_of_cannotOpen {cause : FileError} {path : String}
    (h : d.Fails reader s input source destination (.cannotOpen cause path)) :
    transfer reader s input source destination d =
      { disk := d, error := some (.cannotOpen cause path) } := by
  cases h with
  | source hfile hcause =>
    have hsrc : d.openSource input source = .error (.cannotOpen _ _) :=
      openSource_eq_error_iff.mpr ⟨_, _, hfile, hcause, rfl⟩
    simp only [transfer, hsrc]
  | destination hsrc hfile hcause =>
    have hdst := openDestination_eq_error_iff.mpr ⟨_, _, hfile, hcause, rfl⟩
    simp only [transfer, hsrc, hdst]

/-- **A transfer fails for one of these reasons, and only then.** -/
theorem error_transfer_eq_some_iff :
    (transfer reader s input source destination d).error = some e ↔
      d.Fails reader s input source destination e := by
  constructor
  · intro h
    cases hsrc : d.openSource input source with
    | error e' =>
      obtain rfl : e' = e := by simpa [transfer, hsrc] using h
      obtain ⟨path, cause, hfile, hcause, rfl⟩ := openSource_eq_error_iff.mp hsrc
      exact .source hfile hcause
    | ok src =>
      cases hdst : d.openDestination destination with
      | error e' =>
        obtain rfl : e' = e := by simpa [transfer, hsrc, hdst] using h
        obtain ⟨path, cause, hfile, hcause, rfl⟩ := openDestination_eq_error_iff.mp hdst
        exact .destination hsrc hfile hcause
      | ok opened =>
        obtain ⟨dst, d'⟩ := opened
        have hoffers : d.Offers input destination source (src.bytes d') :=
          (offers_iff hdst).mpr ⟨src, hsrc, rfl⟩
        rw [transfer_of_offers hdst hoffers, error_write, Readout.error_reflow] at h
        cases hlong : firstLengthError?
            ((reader.read source.lineEnds (src.bytes d')).pieces s) with
        | some cause =>
          obtain rfl : .tooLong cause = e := by simpa [hlong] using h
          exact .tooLong ⟨dst, d', hdst⟩ hoffers hlong
        | none =>
          cases hfails : (reader.read source.lineEnds (src.bytes d')).fails with
          | false => simp [hlong, hfails] at h
          | true =>
            obtain rfl : .undecodable = e := by simpa [hlong, hfails] using h
            exact .undecodable ⟨dst, d', hdst⟩ hoffers ((reader.fails_read_eq_true_iff _).mp hfails)
              hlong
  · intro h
    cases h with
    | source hfile hcause => rw [transfer_of_cannotOpen (.source hfile hcause)]
    | destination hsrc hfile hcause =>
      rw [transfer_of_cannotOpen (.destination hsrc hfile hcause)]
    | undecodable hopens hoffers htext hlong =>
      obtain ⟨dst, d', hdst⟩ := hopens
      have hfails := (reader.fails_read_eq_true_iff source.lineEnds).mpr htext
      rw [transfer_of_offers hdst hoffers, error_write, Readout.error_reflow, hlong, hfails]
      rfl
    | tooLong hopens hoffers hlong =>
      obtain ⟨dst, d', hdst⟩ := hopens
      rw [transfer_of_offers hdst hoffers, error_write, Readout.error_reflow, hlong]
      rfl

end Disk

/-! ## Failed commands -/

/-- Why a run of the command fails. -/
inductive Failure where
  /-- The settings that it asks for are refused. -/
  | settings (e : SettingsError)
  | transfer (e : TransferError)

namespace Failure

/-- The failure in words. There are none for a source that is no text, for a line that is too long,
and for a path with a null character in it. -/
def message? : Failure → Option String
  | settings e => some e.message
  | transfer e => e.message?

/-- Whether the failure comes after the destination has been opened. -/
def whileReading : Failure → Bool
  | transfer .undecodable | transfer (.tooLong _) => true
  | settings _ | transfer (.cannotOpen _ _) => false

/-- There are words only for what fails before anything is read. -/
theorem whileReading_eq_false {f : Failure} {m : String} (h : f.message? = some m) :
    f.whileReading = false := by
  rcases f with e | (⟨cause, path⟩ | _ | cause)
  · rfl
  · rfl
  · exact absurd h (by simp [message?, TransferError.message?])
  · exact absurd h (by simp [message?, TransferError.message?])

end Failure

namespace Arguments

variable [Memory] {a : Arguments} {reader : TextReader} {input : ByteArray} {d : Disk}

/-- What can make a run of the command fail. -/
inductive FailsWith (a : Arguments) (reader : TextReader) (input : ByteArray) (d : Disk) :
    Failure → Prop where
  | settings {e : SettingsError} :
      a.options.settings = .error e → FailsWith a reader input d (.settings e)
  | transfer {s : Settings} {ws : List Warning} {e : TransferError} :
      a.options.settings = .ok (s, ws) →
      d.Fails reader s input (.ofWord a.source) (.ofWord a.destination) e →
      FailsWith a reader input d (.transfer e)

theorem exitCode_run_eq_one_iff :
    (a.run reader input d).exitCode = 1 ↔ ∃ f, a.FailsWith reader input d f := by
  constructor
  · intro h
    unfold run at h
    split at h
    · next e he => exact ⟨_, .settings he⟩
    · next s ws hs =>
      cases he : (SExprReflow.transfer reader s input (.ofWord a.source)
          (.ofWord a.destination) d).error with
      | none => simp [he] at h
      | some e => exact ⟨_, .transfer hs (Disk.error_transfer_eq_some_iff.mp he)⟩
  · rintro ⟨f, hf⟩
    cases hf with
    | settings he => simp [run, he]
    | transfer hs hfails => simp [run, hs, Disk.error_transfer_eq_some_iff.mpr hfails]

/-- What has words is reported. -/
theorem FailsWith.report_eq {f : Failure} (h : a.FailsWith reader input d f) :
    (a.run reader input d).report = f.message?.map errorReport := by
  cases h with
  | settings he => simp [run, he, Failure.message?]
  | transfer hs hfails =>
    simp [run, hs, Disk.error_transfer_eq_some_iff.mpr hfails, Failure.message?]

/-- What has none ends the run. -/
theorem FailsWith.uncaught_eq_some_iff {f : Failure} (h : a.FailsWith reader input d f)
    {e : TransferError} :
    (a.run reader input d).uncaught = some e ↔ f = .transfer e ∧ f.message? = none := by
  cases h with
  | settings he => simp [run, he]
  | @transfer s ws e' hs hfails =>
    simp only [run, hs, Disk.error_transfer_eq_some_iff.mpr hfails, Option.filter_some]
    cases hm : e'.message? with
    | some m => simp [Failure.message?, hm]
    | none => simp [Failure.message?, hm]

/-- **A failure before the source is read has touched no file.** -/
theorem FailsWith.disk_eq {f : Failure} (h : a.FailsWith reader input d f)
    (hearly : f.whileReading = false) : (a.run reader input d).disk = d := by
  cases h with
  | settings he => simp [run, he]
  | @transfer s ws e hs hfails =>
    cases e with
    | cannotOpen cause path => simp [run, hs, Disk.transfer_of_cannotOpen hfails]
    | undecodable => exact absurd hearly (by simp [Failure.whileReading])
    | tooLong cause => exact absurd hearly (by simp [Failure.whileReading])

/-- A run of the command touches no file but the one that its destination leads to. -/
theorem get?_disk_run {loc : Location} (hloc : ¬ d.LeadsTo (.ofWord a.destination) loc) :
    (a.run reader input d).disk.get? loc = d.get? loc := by
  unfold run
  split
  · rfl
  · exact d.get?_transfer_of_not_leadsTo _ _ _ _ hloc

/-- Bytes that are no text make a run fail, and there are no words for that. -/
theorem exists_failsWith_of_undecodable {bytes : ByteArray} {s : Settings} {ws : List Warning}
    (hs : a.options.settings = .ok (s, ws)) (hopens : d.Opens (.ofWord a.destination))
    (hoffers : d.Offers input (.ofWord a.destination) (.ofWord a.source) bytes)
    (htext : decodeText bytes = none) :
    ∃ e, a.FailsWith reader input d (.transfer e) ∧ e.message? = none := by
  cases hlong : firstLengthError?
      ((reader.read (Endpoint.ofWord a.source).lineEnds bytes).pieces s) with
  | none => exact ⟨.undecodable, .transfer hs (.undecodable hopens hoffers htext hlong), rfl⟩
  | some cause => exact ⟨.tooLong cause, .transfer hs (.tooLong hopens hoffers hlong), rfl⟩

end Arguments

/-- A run has left a text at its destination, which is the standard output or a file. -/
structure CommandResult.Leaves (r : CommandResult) (d : Disk) (destination : Endpoint)
    (text : List Char) : Prop where
  output_eq : destination = .stream → r.output = String.ofList text
  get?_eq : ∀ loc, d.LeadsTo destination loc → d.get? loc ≠ some .nullDevice →
    r.disk.get? loc = some (.file (encodeText text))

/-- With both ends open, the destination is left with what is printed of the source. -/
theorem Arguments.leaves_run [Memory] {a : Arguments} {reader : TextReader}
    {input bytes : ByteArray} {d : Disk} {s : Settings} {ws : List Warning}
    (hs : a.options.settings = .ok (s, ws)) (hopens : d.Opens (.ofWord a.destination))
    (hoffers : d.Offers input (.ofWord a.destination) (.ofWord a.source) bytes) :
    (a.run reader input d).Leaves d (.ofWord a.destination)
      ((reader.read (Endpoint.ofWord a.source).lineEnds bytes).reflow s).text := by
  obtain ⟨dst, d', hdst⟩ := hopens
  simp only [run, hs, Disk.transfer_of_offers hdst hoffers]
  rcases Disk.openDestination_cases hdst with ⟨hstream, rfl, rfl⟩ | ⟨loc, hlead, rfl, rfl⟩
  · refine ⟨fun _ => rfl, fun loc hloc => ?_⟩
    rw [hstream] at hloc
    exact absurd hloc Disk.not_leadsTo_stream
  · obtain ⟨path, hfile, hpath⟩ := hlead
    refine ⟨fun hstream => ?_, fun loc' hloc' hdevice => ?_⟩
    · rw [hfile] at hstream
      exact absurd hstream (by simp)
    · obtain rfl := hloc'.unique ⟨path, hfile, hpath⟩
      exact Disk.get?_write_write hpath hdevice _

/-- **A command that fails says why and leaves all files alone, unless it fails while it reads the
source.** The exit code is 1 exactly if the settings are refused, or the source or the destination
cannot be opened, or the source is no text, or a line is too long. What has words is reported, in a
line that begins as all such lines do, and then all files are as before. What has none ends the run
as it is. All files are as before then too, unless the source was being read already; in any case
no file is touched but the one that the destination leads to.

A source that is no text, file or standard input, always makes the run fail, and never is a word
said of it. The destination is left with what a session delivers of the characters that were
handed over before the failure. -/
theorem failing_command_reports [Memory] (reader : TextReader) (a : Arguments) (input : ByteArray)
    (d : Disk) :
    let r := a.run reader input d
    (r.exitCode = 1 ↔ ∃ f, a.FailsWith reader input d f) ∧
      (∀ e, a.options.settings = .error e → e.IsInvalid) ∧
      (∀ f, a.FailsWith reader input d f →
        (∀ m, f.message? = some m →
          r.report = some ("Error: " ++ m) ∧ r.uncaught = none ∧ r.disk = d) ∧
        (f.message? = none → r.report = none ∧ ∃ e, f = .transfer e ∧ r.uncaught = some e) ∧
        (f.whileReading = false → r.disk = d)) ∧
      (∀ loc, ¬ d.LeadsTo (.ofWord a.destination) loc → r.disk.get? loc = d.get? loc) ∧
      ∀ s ws bytes, a.options.settings = .ok (s, ws) → d.Opens (.ofWord a.destination) →
        d.Offers input (.ofWord a.destination) (.ofWord a.source) bytes →
        decodeText bytes = none →
        r.exitCode = 1 ∧ r.report = none ∧ r.uncaught.isSome ∧
          ∃ text rest handed, bytes = encodeText text ++ rest ∧
            handed <+: (Endpoint.ofWord a.source).lineEnds.apply text ∧
            r.Leaves d (.ofWord a.destination)
              (textOf ((Session.ofSettings s).readAll handed).1) := by
  intro r
  refine ⟨Arguments.exitCode_run_eq_one_iff, a.options.failsInvalid_settings, ?_,
    fun loc => Arguments.get?_disk_run, ?_⟩
  · intro f hf
    refine ⟨fun m hm => ⟨?_, ?_, hf.disk_eq (Failure.whileReading_eq_false hm)⟩, fun hm => ?_,
      hf.disk_eq⟩
    · rw [show r.report = _ from hf.report_eq, hm]
      rfl
    · refine Option.eq_none_iff_forall_ne_some.mpr fun e he => ?_
      exact absurd (hm.symm.trans (hf.uncaught_eq_some_iff.mp he).2) (by simp)
    · refine ⟨by rw [show r.report = _ from hf.report_eq, hm]; rfl, ?_⟩
      cases f with
      | settings e => exact absurd hm (by simp [Failure.message?])
      | transfer e => exact ⟨e, rfl, hf.uncaught_eq_some_iff.mpr ⟨rfl, hm⟩⟩
  · intro s ws bytes hs hopens hoffers htext
    obtain ⟨e, hf, hm⟩ := Arguments.exists_failsWith_of_undecodable hs hopens hoffers htext
    obtain ⟨hfails, text, rest, hbytes, hhanded⟩ :=
      reader.read_undecodable (Endpoint.ofWord a.source).lineEnds bytes htext
    have hreport : r.report = none := by
      rw [show r.report = _ from hf.report_eq, Failure.message?, hm]
      rfl
    have huncaught : r.uncaught = some e := hf.uncaught_eq_some_iff.mpr ⟨rfl, hm⟩
    refine ⟨Arguments.exitCode_run_eq_one_iff.mpr ⟨_, hf⟩, hreport, by rw [huncaught]; rfl, text,
      rest, _, hbytes, hhanded, ?_⟩
    rw [← Readout.text_reflow_of_fails hfails]
    exact Arguments.leaves_run hs hopens hoffers

section

attribute [local instance] Memory.small

/-- A source that is not there is reported, and no destination is made. -/
theorem missing_source_reported :
    let r := fileArguments.run (.ofSize 8192) .empty Disk.fresh
    r.exitCode = 1 ∧ r.report = some "Error: No such file or directory: f" ∧
      r.disk = Disk.fresh := by
  intro r
  have hsrc : Disk.fresh.source "f" = .error .notFound := rfl
  have hfails : fileArguments.FailsWith (.ofSize 8192) .empty Disk.fresh
      (.transfer (.cannotOpen .notFound "f")) :=
    .transfer settings_fileArguments (.source rfl hsrc)
  obtain ⟨hexit, -, hreports, -⟩ :=
    failing_command_reports (.ofSize 8192) fileArguments .empty Disk.fresh
  obtain ⟨hreport, -, hdisk⟩ := (hreports _ hfails).1 _ rfl
  exact ⟨hexit.mpr ⟨_, hfails⟩, hreport, hdisk⟩

/-- A disk with a file `f` that is no text, and a file `g`. -/
def diskWithGarbage : Disk :=
  (Disk.fresh.add ["tmp", "work", "f"] (.file ⟨#[0xff]⟩)).add ["tmp", "work", "g"]
    (.file (encodeText "old".toList))

/-- Of bytes that do not even begin with a text, nothing is handed over. -/
theorem read_garbage : (TextReader.ofSize 8192).read .kept ⟨#[0xff]⟩ = ⟨[], true⟩ := by
  have hnone : decodeText ⟨#[0xff]⟩ = none := by decide
  have hbegins : decodableText ⟨#[0xff]⟩ = [] := by
    rw [decodableText, decodeOnto]
    rfl
  simp [TextReader.ofSize, hnone, hbegins, LineEnds.apply, TextReader.portionsOf]

/-- **A source that is no text costs the destination what it held**, and nothing is said of it. -/
theorem garbage_empties_destination :
    let r := fileArguments.run (.ofSize 8192) .empty diskWithGarbage
    r.exitCode = 1 ∧ r.report = none ∧ r.uncaught = some .undecodable ∧
      diskWithGarbage.get? ["tmp", "work", "g"] = some (.file (encodeText "old".toList)) ∧
      r.disk.get? ["tmp", "work", "g"] = some (.file .empty) := by
  intro r
  have hsrc : diskWithGarbage.source "f" = .ok ["tmp", "work", "f"] := rfl
  have hdst : diskWithGarbage.destination "g" = .ok ["tmp", "work", "g"] := rfl
  have hlead : diskWithGarbage.LeadsTo (.file "g") ["tmp", "work", "g"] := ⟨"g", rfl, hdst⟩
  have hoffers : diskWithGarbage.Offers .empty (.file "g") (.file "f") ⟨#[0xff]⟩ :=
    .file hsrc (by simp [hdst])
  have hfails : fileArguments.FailsWith (.ofSize 8192) .empty diskWithGarbage
      (.transfer .undecodable) := by
    refine .transfer settings_fileArguments (.undecodable hlead.opens hoffers (by decide) ?_)
    rw [show Endpoint.lineEnds (.ofWord fileArguments.source) = .kept from rfl, read_garbage]
    rfl
  have hleaves : r.Leaves diskWithGarbage (.file "g")
      (((TextReader.ofSize 8192).read .kept ⟨#[0xff]⟩).reflow default).text :=
    Arguments.leaves_run settings_fileArguments hlead.opens hoffers
  refine ⟨Arguments.exitCode_run_eq_one_iff.mpr ⟨_, hfails⟩, hfails.report_eq,
    hfails.uncaught_eq_some_iff.mpr ⟨rfl, rfl⟩, rfl, ?_⟩
  rw [read_garbage] at hleaves
  exact hleaves.get?_eq _ hlead fun h => absurd (Option.some.inj h) (by simp)

end

end SExprReflow
