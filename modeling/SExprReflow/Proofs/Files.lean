import SExprReflow.Proofs.LineEnds
import SExprReflow.Proofs.TopLevel

/-!
# What becomes of files

A transfer opens its source, then its destination, which is emptied by that, and then reads the
source. Whatever comes of it, no file is touched but the one that the destination leads to
(`get?_transfer_of_not_leadsTo`).

If that is another file than the source, it holds the printed text afterwards. If it is the source
itself, there is nothing left to be read, and the file ends up empty, whatever it held
(`transfer_delivers_unless_own`).
-/

namespace SExprReflow

/-! ## The one file that is touched -/

namespace Disk

/-- The location of the file that is written at a destination. -/
def LeadsTo (d : Disk) (destination : Endpoint) (loc : Location) : Prop :=
  ∃ path, destination = .file path ∧ d.destination path = .ok loc

@[simp] theorem not_leadsTo_stream {d : Disk} {loc : Location} : ¬ d.LeadsTo .stream loc := by
  simp [LeadsTo]

@[simp] theorem leadsTo_file {d : Disk} {path : String} {loc : Location} :
    d.LeadsTo (.file path) loc ↔ d.destination path = .ok loc := by
  simp [LeadsTo]

theorem LeadsTo.unique {d : Disk} {destination : Endpoint} {loc loc' : Location}
    (h : d.LeadsTo destination loc) (h' : d.LeadsTo destination loc') : loc = loc' := by
  obtain ⟨path, rfl, hpath⟩ := h
  exact Except.ok.inj (hpath.symm.trans (leadsTo_file.mp h'))

/-- A destination that can be opened is the standard output, or a file that is empty from then
on. -/
theorem openDestination_cases {d d' : Disk} {destination : Endpoint} {dst : OpenDestination}
    (h : d.openDestination destination = .ok (dst, d')) :
    (destination = .stream ∧ dst = .output ∧ d' = d) ∨
      ∃ loc, d.LeadsTo destination loc ∧ dst = .file loc ∧ d' = d.write loc .empty := by
  cases destination with
  | stream =>
    obtain ⟨rfl, rfl⟩ := Prod.mk.inj (Except.ok.inj h)
    exact .inl ⟨rfl, rfl, rfl⟩
  | file path =>
    simp only [openDestination] at h
    split at h
    · next loc hloc =>
      obtain ⟨rfl, rfl⟩ := Prod.mk.inj (Except.ok.inj h)
      exact .inr ⟨loc, ⟨path, rfl, hloc⟩, rfl, rfl⟩
    · exact absurd h (by simp)

theorem get?_openDestination {d d' : Disk} {destination : Endpoint} {dst : OpenDestination}
    (h : d.openDestination destination = .ok (dst, d')) {loc : Location}
    (hloc : ¬ d.LeadsTo destination loc) : d'.get? loc = d.get? loc := by
  rcases openDestination_cases h with ⟨-, -, rfl⟩ | ⟨loc', hlead, -, rfl⟩
  · rfl
  · refine get?_write_of_ne d _ ?_
    rintro rfl
    exact hloc hlead

/-- **A transfer touches no file but the one that its destination leads to**, whether it fails or
not. -/
theorem get?_transfer_of_not_leadsTo [Memory] (d : Disk) (reader : TextReader) (s : Settings)
    (input : ByteArray) (source : Endpoint) {destination : Endpoint} {loc : Location}
    (hloc : ¬ d.LeadsTo destination loc) :
    (transfer reader s input source destination d).disk.get? loc = d.get? loc := by
  unfold transfer
  split
  · rfl
  · split
    · rfl
    · next dst d' hdst =>
      have hd' := get?_openDestination hdst hloc
      rcases openDestination_cases hdst with ⟨-, rfl, -⟩ | ⟨loc', hlead, rfl, -⟩
      · exact hd'
      · rw [← hd']
        refine get?_write_of_ne d' _ ?_
        rintro rfl
        exact hloc hlead

end Disk

/-! ## A file as its own destination -/

/-- Only a text without lexemes is printed as nothing. -/
theorem reflow_eq_nil_iff {s : Settings} {text : List Char} :
    reflow s text = [] ↔ lexemes text = [] := by
  constructor
  · intro h
    rw [← lexemes_reflow s text, h]
    rfl
  · intro h
    rw [reflow, reflowPieces_of_lexemes_eq_nil s h]
    rfl

/-- Where there is no text, nothing is printed, and no line is too long. -/
theorem reflowWithin_nil [Memory] (s : Settings) : reflowWithin s [] = ⟨[], none⟩ := by
  have hr := result_reflowWithin s []
  rw [reflowPieces_of_lexemes_eq_nil s rfl] at hr
  generalize reflowWithin s [] = d at hr
  obtain ⟨text, error⟩ := d
  cases error with
  | none =>
    obtain rfl : text = [] := Except.ok.inj hr
    rfl
  | some e => exact absurd hr (by simp [Delivery.result, Piece.text?, Piece.firstLengthError?])

theorem TextReader.reflow_read_empty [Memory] (reader : TextReader) (ends : LineEnds)
    (s : Settings) : (reader.read ends .empty).reflow s = ⟨[], none⟩ := by
  have happly : ends.apply [] = [] := by cases ends <;> rfl
  rw [← encodeText_nil, reader.reflow_read_encodeText, happly, reflowWithin_nil]
  rfl

namespace Disk

/-- A file that has been emptied has no bytes, and neither has the null device. -/
theorem bytes_write_empty (d : Disk) (loc : Location) :
    (d.write loc .empty).bytes loc = .empty := by
  by_cases hnil : loc = []
  · simp [bytes, get?, hnil]
  · by_cases hdevice : d.get? loc = some .nullDevice
    · simp [bytes, write, hdevice]
    · simp [bytes, get?_write_self d _ hnil hdevice]

/-- A file that is its own destination is empty before it is read, and stays so. -/
theorem transfer_own [Memory] {d : Disk} {src dst : String} {a : Location} {bytes : ByteArray}
    (hsrc : d.source src = .ok a) (hfile : d.get? a = some (.file bytes))
    (hdst : d.destination dst = .ok a) (reader : TextReader) (s : Settings) (input : ByteArray) :
    (transfer reader s input (.file src) (.file dst) d).error = none ∧
      (transfer reader s input (.file src) (.file dst) d).disk.get? a = some (.file .empty) := by
  have hne : a ≠ [] := by
    rintro rfl
    exact absurd hfile (by simp [get?])
  have hempty : (d.write a .empty).get? a = some (.file .empty) :=
    get?_write_self d _ hne (by simp [hfile])
  have htransfer : transfer reader s input (.file src) (.file dst) d =
      { disk := (d.write a .empty).write a .empty } := by
    simp only [transfer, openSource, hsrc, openDestination, hdst, OpenSource.bytes,
      bytes_write_empty, reader.reflow_read_empty, OpenDestination.write, encodeText_nil]
  rw [htransfer]
  refine ⟨rfl, get?_write_self _ _ hne ?_⟩
  simp [hempty]

end Disk

/-- **A file is delivered, unless it is its own destination.** The source is a file that holds a
text, and the destination a path that can be opened. Every file but the one that the destination
leads to stays as it is. If that is not the source, the transfer comes to an end exactly if the text
can be printed, and the destination then holds the printed text, unless it is the null device. If it
is the source, the transfer always comes to an end, and the file is empty, which is the printed text
only if there was nothing to print. -/
theorem transfer_delivers_unless_own [Memory] {d : Disk} {src dst : String} {a loc : Location}
    {bytes : ByteArray} {text : List Char} (hsrc : d.source src = .ok a)
    (hfile : d.get? a = some (.file bytes)) (htext : decodeText bytes = some text)
    (hdst : d.destination dst = .ok loc) (reader : TextReader) (s : Settings)
    (input : ByteArray) :
    let t := transfer reader s input (.file src) (.file dst) d
    (∀ loc', loc' ≠ loc → t.disk.get? loc' = d.get? loc') ∧
      (loc ≠ a → t.error = (reflowWithin s text).error.map .tooLong) ∧
      (loc ≠ a → t.error = none → d.get? loc ≠ some .nullDevice →
        t.disk.get? loc = some (.file (encodeText (reflow s text)))) ∧
      (loc = a → t.error = none ∧ t.disk.get? loc = some (.file .empty) ∧
        (t.disk.get? loc = some (.file (encodeText (reflow s text))) ↔ lexemes text = [])) := by
  intro t
  obtain rfl := decodeText_eq_some_iff.mp htext
  refine ⟨?_, ?_, ?_, ?_⟩
  · intro loc' hne
    refine d.get?_transfer_of_not_leadsTo reader s input _ ?_
    intro hlead
    exact hne (hlead.unique (Disk.leadsTo_file.mpr hdst))
  · intro hne
    show (transfer reader s input (.file src) (.file dst) d).error = _
    rw [Disk.transfer_elsewhere hsrc hfile hdst hne]
  · intro hne hnone hdevice
    have hconnects : d.Connects src dst text loc := ⟨⟨a, hsrc, hfile, hne⟩, hdst, hdevice⟩
    have herror : (reflowWithin s text).error = none := by
      rw [show t = _ from Disk.transfer_elsewhere hsrc hfile hdst hne reader s input] at hnone
      simpa using hnone
    rw [show t.disk.get? loc = _ from hconnects.get?_transfer reader s input,
      text_reflowWithin herror]
  · rintro rfl
    obtain ⟨herror, hempty⟩ := Disk.transfer_own hsrc hfile hdst reader s input
    refine ⟨herror, hempty, ?_⟩
    rw [show t.disk.get? loc = _ from hempty, ← reflow_eq_nil_iff (s := s), ← encodeText_nil]
    constructor
    · intro h
      exact (encodeText_injective (Entry.file.inj (Option.some.inj h))).symm
    · intro h
      rw [h]

section

attribute [local instance] Memory.small

/-- A list with more white space than it needs. -/
def wideList : List Char := "(a   b)".toList

theorem source_diskHolding (text : List Char) :
    (diskHolding text).source "f" = .ok ["tmp", "work", "f"] :=
  rfl

/-- The list is printed at `g`, and stays at `f` as it was. -/
theorem transfer_delivers_wideList :
    let t := transfer (.ofSize 8192) default .empty (.file "f") (.file "g") (diskHolding wideList)
    t.disk.get? ["tmp", "work", "g"] = some (.file (encodeText (reflow default wideList))) ∧
      t.disk.get? ["tmp", "work", "f"] = some (.file (encodeText wideList)) := by
  intro t
  have hdst := (diskHolding_connects wideList).destination
  obtain ⟨hother, herror, hdelivered, -⟩ :=
    transfer_delivers_unless_own (source_diskHolding wideList) rfl (decodeText_encodeText wideList)
      hdst (.ofSize 8192) default .empty
  have hprinted : (reflowWithin default wideList).error = none := by decide +kernel
  refine ⟨hdelivered (by decide) ?_ (diskHolding_connects wideList).not_nullDevice, ?_⟩
  · rw [herror (by decide), hprinted]
    rfl
  · rw [show t.disk.get? ["tmp", "work", "f"] = _ from hother _ (by decide)]
    rfl

/-- **The text of a file that is its own destination is lost**, and the transfer does not fail. -/
theorem own_destination_emptied :
    let t := transfer (.ofSize 8192) default .empty (.file "f") (.file "f") (diskHolding wideList)
    t.error = none ∧ t.disk.get? ["tmp", "work", "f"] = some (.file .empty) ∧
      t.disk.get? ["tmp", "work", "f"] ≠ some (.file (encodeText (reflow default wideList))) := by
  intro t
  have hdst : (diskHolding wideList).destination "f" = .ok ["tmp", "work", "f"] := rfl
  obtain ⟨herror, hempty⟩ := Disk.transfer_own (source_diskHolding wideList) rfl hdst
    (.ofSize 8192) default .empty
  refine ⟨herror, hempty, ?_⟩
  rw [show t.disk.get? ["tmp", "work", "f"] = _ from hempty, ← encodeText_nil]
  intro h
  have hnil : reflow default wideList = [] :=
    (encodeText_injective (Entry.file.inj (Option.some.inj h))).symm
  exact absurd (reflow_eq_nil_iff.mp hnil) (by decide)

end

end SExprReflow
