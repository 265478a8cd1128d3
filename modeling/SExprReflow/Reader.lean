/-!
# Reading text

Files and the standard input hold bytes, and a text is bytes in UTF-8. A `TextReader` takes
bytes for a text and hands the text over in portions, one after the other. How large the
portions are, and how far ahead of them bytes are looked at, is up to the reader. Two things
are not: a text is handed over whole, and bytes that are no text make the reader fail, when
no more can have been handed over than what stands before the place where the text ends.

Line ends are kept, or all of them are taken for line feeds.
-/

namespace SExprReflow

/-! ## Bytes and characters -/

/-- The characters of UTF-8 bytes. -/
def decodeText (bytes : ByteArray) : Option (List Char) :=
  (String.fromUTF8? bytes).map String.toList

/-- The UTF-8 bytes of characters. -/
def encodeText (text : List Char) : ByteArray := (String.ofList text).toUTF8

theorem decodeText_encodeText (text : List Char) : decodeText (encodeText text) = some text := by
  have hs : String.fromUTF8? (String.ofList text).toUTF8 = some (String.ofList text) :=
    dif_pos (String.ofList text).isValidUTF8
  rw [decodeText, encodeText, hs, Option.map_some, String.toList_ofList]

theorem encodeText_injective {t₁ t₂ : List Char} (h : encodeText t₁ = encodeText t₂) : t₁ = t₂ := by
  have hd := congrArg decodeText h
  rw [decodeText_encodeText, decodeText_encodeText] at hd
  exact Option.some.inj hd

theorem decodeText_eq_some_iff {bytes : ByteArray} {text : List Char} :
    decodeText bytes = some text ↔ bytes = encodeText text := by
  constructor
  · intro h
    obtain ⟨t, ht, rfl⟩ := Option.map_eq_some_iff.mp h
    unfold String.fromUTF8? at ht
    split at ht
    · next hv =>
      obtain rfl := Option.some.inj ht
      rw [encodeText, String.ofList_toList]
      rfl
    · exact absurd ht (by simp)
  · rintro rfl
    exact decodeText_encodeText text

theorem encodeText_nil : encodeText [] = .empty := rfl

theorem encodeText_cons (c : Char) (text : List Char) :
    encodeText (c :: text) = (String.utf8EncodeChar c).toByteArray ++ encodeText text := by
  simp only [encodeText, String.toUTF8_eq_toByteArray, String.toByteArray_ofList]
  rw [List.utf8Encode_cons, List.utf8Encode_singleton]

/-- The characters of bytes from the byte `i` on, as far as these are text, behind the
characters found before, newest first. -/
def decodeOnto (bytes : ByteArray) (done : List Char) (i : Nat) : List Char :=
  match _h : bytes.utf8DecodeChar? i with
  | none => done.reverse
  | some c => decodeOnto bytes (c :: done) (i + c.utf8Size)
termination_by bytes.size - i
decreasing_by
  have hle := ByteArray.le_size_of_utf8DecodeChar?_eq_some _h
  have hpos := c.utf8Size_pos
  omega

/-- The text that bytes begin with, as far as it goes. -/
def decodableText (bytes : ByteArray) : List Char := decodeOnto bytes [] 0

theorem exists_extract_eq (bytes : ByteArray) (done : List Char) (i : Nat) :
    ∃ text rest, bytes.extract i bytes.size = encodeText text ++ rest ∧
      decodeOnto bytes done i = done.reverse ++ text := by
  fun_induction decodeOnto bytes done i with
  | case1 done i _ => exact ⟨[], bytes.extract i bytes.size, by simp [encodeText_nil], by simp⟩
  | case2 done i c hc ih =>
    obtain ⟨text, rest, hrest, heq⟩ := ih
    refine ⟨c :: text, rest, ?_, by simp [heq]⟩
    have hsize := ByteArray.le_size_of_utf8DecodeChar?_eq_some hc
    have hend : min (i + (bytes.size - i)) bytes.size = bytes.size := by omega
    rw [ByteArray.utf8DecodeChar?_eq_utf8DecodeChar?_extract] at hc
    rw [ByteArray.eq_of_utf8DecodeChar?_eq_some hc, encodeText_cons, ByteArray.append_assoc,
      ← hrest]
    simp [ByteArray.extract_extract, ByteArray.size_extract, hend]

theorem exists_eq_encodeText_append (bytes : ByteArray) :
    ∃ rest, bytes = encodeText (decodableText bytes) ++ rest := by
  obtain ⟨text, rest, hrest, heq⟩ := exists_extract_eq bytes [] 0
  rw [ByteArray.extract_zero_size] at hrest
  rw [List.reverse_nil, List.nil_append] at heq
  exact ⟨rest, by rw [decodableText, heq, hrest]⟩

/-! ## Line ends -/

/-- The text with every line end, be it `\r\n`, `\r` or `\n`, as a line feed. -/
def unifyLineEnds : List Char → List Char
  | [] => []
  | '\r' :: '\n' :: cs => '\n' :: unifyLineEnds cs
  | '\r' :: cs => '\n' :: unifyLineEnds cs
  | c :: cs => c :: unifyLineEnds cs

/-- How line ends are taken. -/
inductive LineEnds where
  | kept
  | unified
deriving DecidableEq, Repr

/-- The text with its line ends as they are taken. -/
def LineEnds.apply : LineEnds → List Char → List Char
  | kept, text => text
  | unified, text => unifyLineEnds text

/-! ## Readers -/

/-- What comes of reading bytes. -/
structure Readout where
  /-- The portions of text that are handed over, one after the other. -/
  portions : List (List Char)
  /-- Whether reading fails behind them, and does not come to the end of the text. -/
  fails : Bool := false

/-- All that is handed over. -/
def Readout.text (r : Readout) : List Char := r.portions.flatten

/-- A way to read bytes as a text. -/
structure TextReader where
  read : LineEnds → ByteArray → Readout
  /-- A text is handed over whole. -/
  read_encodeText (ends : LineEnds) (text : List Char) :
    (read ends (encodeText text)).text = ends.apply text ∧
      (read ends (encodeText text)).fails = false
  /-- Bytes that are no text cannot be read to their end, and of what is handed over before
  that, all stands in a text that they begin with. -/
  read_undecodable (ends : LineEnds) (bytes : ByteArray) (h : decodeText bytes = none) :
    (read ends bytes).fails = true ∧
      ∃ text rest, bytes = encodeText text ++ rest ∧ (read ends bytes).text <+: ends.apply text

namespace TextReader

theorem fails_read_eq_true_iff (reader : TextReader) (ends : LineEnds) {bytes : ByteArray} :
    (reader.read ends bytes).fails = true ↔ decodeText bytes = none := by
  constructor
  · intro h
    cases ht : decodeText bytes with
    | none => rfl
    | some text =>
      rw [decodeText_eq_some_iff.mp ht, (reader.read_encodeText ends text).2] at h
      exact absurd h (by simp)
  · intro h
    exact (reader.read_undecodable ends bytes h).1

/-! ## Portions of one size -/

/-- The text in portions of `size` characters, the last of which may be smaller. -/
def portionsOf (size : Nat) : List Char → List (List Char)
  | [] => []
  | c :: cs => (c :: cs.take (size - 1)) :: portionsOf size (cs.drop (size - 1))
termination_by text => text.length
decreasing_by
  simp only [List.length_drop, List.length_cons]
  omega

theorem flatten_portionsOf (size : Nat) (text : List Char) :
    (portionsOf size text).flatten = text := by
  fun_induction portionsOf size text with
  | case1 => rfl
  | case2 c cs ih => simp [ih]

/-- The reader that hands over portions of `size` characters. When it fails, only full ones
have been handed over. -/
def ofSize (size : Nat) : TextReader where
  read ends bytes :=
    match decodeText bytes with
    | some text => ⟨portionsOf size (ends.apply text), false⟩
    | none =>
      let text := ends.apply (decodableText bytes)
      ⟨portionsOf size (text.take (text.length / size * size)), true⟩
  read_encodeText ends text := by
    simp [decodeText_encodeText, Readout.text, flatten_portionsOf]
  read_undecodable ends bytes h := by
    obtain ⟨rest, hrest⟩ := exists_eq_encodeText_append bytes
    simp only [h, Readout.text, flatten_portionsOf]
    exact ⟨trivial, _, rest, hrest, List.take_prefix _ _⟩

end TextReader

end SExprReflow
