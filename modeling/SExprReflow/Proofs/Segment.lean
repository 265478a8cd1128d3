import SExprReflow.Proofs.Enclosing
import SExprReflow.Proofs.WhiteSpace

/-!
# Segments of a printed text

Printing keeps the lexemes of a text in order, so a place in the printed text is told by the number
of lexemes before it. `Piece.through` and `Piece.behind` cut the pieces there. `Piece.gapAt` is the
white space before a lexeme, and `Piece.segmentAt` goes from one lexeme to another, with the white
space between them and none around them.

In a whole text both can be read off the sheet: the gap before a lexeme inside a list is the one
that the sheet chooses (`gapAt_reflowPieces`), and a list up to a place inside it is what the sheet
prints behind the opener (`segmentAt_reflowPieces`).
-/

namespace SExprReflow

namespace Piece

/-! ## Cutting pieces behind a lexeme -/

def isLexeme : Piece → Bool
  | lexeme _ => true
  | _ => false

@[simp] theorem isLexeme_lexeme (l : Lexeme) : (lexeme l).isLexeme = true := rfl

/-- A piece is a lexeme, or white space that does not count among lexemes. -/
theorem isLexeme_cases (p : Piece) :
    (∃ l, p = lexeme l) ∨ p.isLexeme = false ∧ ∀ ps, lexemesOf (p :: ps) = lexemesOf ps := by
  cases p with
  | lexeme l => exact .inl ⟨l, rfl⟩
  | space => exact .inr ⟨rfl, fun _ => rfl⟩
  | lineBreak i => exact .inr ⟨rfl, fun _ => rfl⟩

/-- The pieces up to the first `n` lexemes and with them. -/
def through : Nat → List Piece → List Piece
  | 0, _ => []
  | _ + 1, [] => []
  | n + 1, p :: ps => p :: through (if p.isLexeme then n else n + 1) ps

/-- The pieces behind the first `n` lexemes. -/
def behind : Nat → List Piece → List Piece
  | 0, ps => ps
  | _ + 1, [] => []
  | n + 1, p :: ps => behind (if p.isLexeme then n else n + 1) ps

/-- The pieces from the lexeme on that has `n` lexemes before it. -/
def fromLexeme (n : Nat) (ps : List Piece) : List Piece :=
  (behind n ps).dropWhile fun p => !p.isLexeme

/-- The white space before the lexeme that has `n` lexemes before it. -/
def gapAt (n : Nat) (ps : List Piece) : List Piece :=
  (behind n ps).takeWhile fun p => !p.isLexeme

/-- So many lexemes behind the first `n`, with the white space between them. -/
def segmentAt (n count : Nat) (ps : List Piece) : List Piece := through count (fromLexeme n ps)

@[simp] theorem behind_zero (ps : List Piece) : behind 0 ps = ps := by
  rw [behind]

theorem through_append_behind (n : Nat) (ps : List Piece) : through n ps ++ behind n ps = ps := by
  fun_induction through n ps with
  | case1 ps => simp
  | case2 n => rfl
  | case3 n p ps ih => rw [behind, List.cons_append, ih]

theorem behind_add (n m : Nat) (ps : List Piece) : behind (n + m) ps = behind m (behind n ps) := by
  fun_induction behind n ps with
  | case1 ps => rw [Nat.zero_add]
  | case2 n => cases m <;> rfl
  | case3 n p ps ih =>
    rw [Nat.succ_add, behind, ← ih]
    cases p.isLexeme with
    | true => rfl
    | false => simp only [Bool.false_eq_true, if_false, Nat.succ_add]

/-- White space in front makes no difference behind a lexeme. -/
theorem behind_dropWhile (n : Nat) (ps : List Piece) :
    behind (n + 1) (ps.dropWhile fun p => !p.isLexeme) = behind (n + 1) ps := by
  induction ps with
  | nil => rfl
  | cons p ps ih =>
    cases hp : p.isLexeme with
    | true => simp [hp]
    | false => simp [hp, behind, ih]

theorem behind_fromLexeme (n m : Nat) (ps : List Piece) :
    behind (m + 1) (fromLexeme n ps) = behind (n + (m + 1)) ps := by
  rw [fromLexeme, behind_dropWhile, ← behind_add]

/-- A text in parts: up to a segment, the gap before it, the segment, and what is behind it. -/
theorem append_segmentAt (n count : Nat) (ps : List Piece) :
    through n ps ++ gapAt n ps ++ segmentAt n (count + 1) ps ++ behind (n + (count + 1)) ps =
      ps := by
  rw [← behind_fromLexeme, List.append_assoc _ (segmentAt n _ ps), segmentAt, through_append_behind,
    List.append_assoc, gapAt, fromLexeme, List.takeWhile_append_dropWhile, through_append_behind]

/-- One lexeme more comes with the gap before it. -/
theorem through_succ {n : Nat} {ps : List Piece} {l : Lexeme} (h : (lexemesOf ps)[n]? = some l) :
    through (n + 1) ps = through n ps ++ gapAt n ps ++ [lexeme l] := by
  induction ps generalizing n with
  | nil => exact absurd h (by simp)
  | cons p ps ih =>
    rcases p.isLexeme_cases with ⟨x, rfl⟩ | ⟨hp, hps⟩
    · cases n with
      | zero =>
        obtain rfl : x = l := by simpa using h
        simp [through, gapAt]
      | succ n =>
        have hn := ih (n := n) (by simpa using h)
        simpa [through, gapAt, behind] using hn
    · have hn := ih (n := n) (by rwa [hps] at h)
      cases n with
      | zero => simpa [through, gapAt, hp] using hn
      | succ n => simpa [through, gapAt, behind, hp] using hn

theorem lexemesOf_behind (n : Nat) (ps : List Piece) :
    lexemesOf (behind n ps) = (lexemesOf ps).drop n := by
  fun_induction behind n ps with
  | case1 ps => rfl
  | case2 n => simp
  | case3 n p ps ih =>
    rw [ih]
    rcases p.isLexeme_cases with ⟨l, rfl⟩ | ⟨hp, hps⟩
    · simp
    · simp [hp, hps]

theorem lexemesOf_fromLexeme (n : Nat) (ps : List Piece) :
    lexemesOf (fromLexeme n ps) = (lexemesOf ps).drop n := by
  rw [← lexemesOf_behind, fromLexeme]
  generalize behind n ps = qs
  induction qs with
  | nil => rfl
  | cons q qs ih =>
    rcases q.isLexeme_cases with ⟨l, rfl⟩ | ⟨hq, hqs⟩
    · simp
    · simp [hq, hqs, ih]

theorem segmentAt_succ {n count : Nat} {ps : List Piece} {l : Lexeme}
    (h : (lexemesOf ps)[n + (count + 1)]? = some l) :
    segmentAt n (count + 2) ps =
      segmentAt n (count + 1) ps ++ gapAt (n + (count + 1)) ps ++ [lexeme l] := by
  have hl : (lexemesOf (fromLexeme n ps))[count + 1]? = some l := by
    rwa [lexemesOf_fromLexeme, List.getElem?_drop]
  rw [segmentAt, through_succ hl, gapAt, behind_fromLexeme]
  rfl

/-! ## Pieces put together -/

theorem cut_concat (ps : List Piece) (l : Lexeme) (qs : List Piece) :
    through ((lexemesOf ps).length + 1) (ps ++ lexeme l :: qs) = ps ++ [lexeme l] ∧
      behind ((lexemesOf ps).length + 1) (ps ++ lexeme l :: qs) = qs := by
  induction ps with
  | nil => simp [through, behind]
  | cons p ps ih =>
    rcases p.isLexeme_cases with ⟨x, rfl⟩ | ⟨hp, hps⟩
    · simpa [through, behind] using ih
    · simpa [through, behind, hp, hps] using ih

/-- Pieces that end with a lexeme are cut off behind it. -/
theorem cut_append {ps : List Piece} (h : ∀ p ∈ ps.getLast?, p.isLexeme = true) (qs : List Piece) :
    through (lexemesOf ps).length (ps ++ qs) = ps ∧
      behind (lexemesOf ps).length (ps ++ qs) = qs := by
  rcases List.eq_nil_or_concat ps with rfl | ⟨ps, p, rfl⟩
  · simp [through]
  · rcases p.isLexeme_cases with ⟨l, rfl⟩ | ⟨hp, -⟩
    · simpa using cut_concat ps l qs
    · exact absurd (h p (by simp)) (by simp [hp])

/-- A segment begins with its first lexeme, whatever white space is before it. -/
theorem fromLexeme_append (ps : List Piece) (l : Lexeme) (qs : List Piece) :
    fromLexeme (lexemesOf ps).length (ps ++ lexeme l :: qs) = lexeme l :: qs := by
  unfold fromLexeme
  induction ps with
  | nil => simp
  | cons p ps ih =>
    rcases p.isLexeme_cases with ⟨x, rfl⟩ | ⟨hp, hps⟩
    · simpa [behind] using ih
    · rw [hps]
      cases hn : (lexemesOf ps).length with
      | zero => simpa [hp, hn] using ih
      | succ n => simpa [behind, hp, hn] using ih

theorem gapAt_append {ps gs : List Piece} (h : ∀ p ∈ ps.getLast?, p.isLexeme = true)
    (hg : lexemesOf gs = []) (l : Lexeme) (qs : List Piece) :
    gapAt (lexemesOf ps).length (ps ++ gs ++ lexeme l :: qs) = gs := by
  rw [gapAt, List.append_assoc, (cut_append h _).2]
  induction gs with
  | nil => simp
  | cons g gs ih =>
    rcases g.isLexeme_cases with ⟨x, rfl⟩ | ⟨hp, hps⟩
    · exact absurd hg (by simp)
    · simpa [hp] using ih (hps gs ▸ hg)

end Piece

open Piece

/-! ## The sheet at a place -/

theorem sheetAt_append (s : Settings) (before ls after : List Lexeme) :
    sheetAt s (before ++ ls) after =
      ((sheetAt s before (ls ++ after)).printBefore after ls).2 := by
  rw [sheetAt, Sheet.printBefore_append, sheetAt]

theorem sheetAt_concat (s : Settings) (before : List Lexeme) (l : Lexeme) (after : List Lexeme) :
    sheetAt s (before ++ [l]) after =
      (sheetAt s before (l :: after)).put ((sheetAt s before (l :: after)).gapAhead l after) l := by
  rw [sheetAt_append]
  rfl

theorem behind_sheetAt (s : Settings) (before : List Lexeme) (l : Lexeme) (after : List Lexeme) :
    (sheetAt s (before ++ [l]) after).Behind l := by
  rw [sheetAt_concat]
  exact Sheet.behind_put (outerBegun_sheetAt s before (l :: after)) _ l

theorem Sheet.length_lists_printBefore (s : Sheet) (xs ys : List Lexeme) :
    (s.printBefore ys xs).2.lists.length = nesting s.lists.length xs := by
  induction xs generalizing s with
  | nil => rfl
  | cons x xs ih => rw [printBefore, ih, length_lists_put, nesting_cons]

theorem length_lists_sheetAt (s : Settings) (before after : List Lexeme) :
    (sheetAt s before after).lists.length = nesting 0 before :=
  Sheet.length_lists_printBefore _ _ _

namespace Sheet

/-- The white space before a lexeme, given the lexemes after it. -/
def gapBefore (s : Sheet) (l : Lexeme) (after : List Lexeme) : List Piece :=
  s.gapPieces (s.gapDepth l) (s.gapAhead l after)

@[simp] theorem lexemesOf_gapBefore (s : Sheet) (l : Lexeme) (after : List Lexeme) :
    lexemesOf (s.gapBefore l after) = [] :=
  s.lexemesOf_gapPieces _ _

theorem exists_printBefore_eq_gapBefore (s : Sheet) {l : Lexeme} (hl : l.Proper)
    (after : List Lexeme) :
    ∃ qs, (s.printBefore after [l]).1 = s.gapBefore l after ++ .lexeme l :: qs := by
  rcases hl with hr | rfl | rfl
  · exact ⟨[], by simp [printBefore, gapBefore, pieces, gapDepth, hr]⟩
  · exact ⟨[], by simp [printBefore, gapBefore, pieces, gapDepth, Lexeme.opener]⟩
  · exact ⟨if s.lists.length = 1 then [s.lineBreak 0] else [],
      by simp [printBefore, gapBefore, pieces, gapDepth, Lexeme.closer]⟩

/-- Inside a list nothing is printed behind the last lexeme yet. -/
theorem isLexeme_getLast?_printBefore {s : Sheet} {xs ys : List Lexeme}
    (h : (s.printBefore ys xs).2.lists ≠ []) :
    ∀ p ∈ (s.printBefore ys xs).1.getLast?, p.isLexeme = true := by
  rcases List.eq_nil_or_concat xs with rfl | ⟨xs, x, rfl⟩
  · simp [printBefore]
  · rw [List.concat_eq_append, printBefore_append] at h ⊢
    generalize (s.printBefore ([x] ++ ys) xs) = r at h ⊢
    generalize hg : r.2.gapAhead x ys = g
    have hpieces : (r.2.printBefore ys [x]).1 = r.2.pieces g x := by
      simp [printBefore, hg]
    have hlists : (r.2.put g x).lists ≠ [] := by simpa [printBefore, hg] using h
    intro p hp
    rw [hpieces] at hp
    cases hx : x.role with
    | opener =>
      obtain rfl : .lexeme .opener = p := by simpa [pieces, hx] using hp
      rfl
    | atom =>
      obtain rfl : .lexeme x = p := by simpa [pieces, hx] using hp
      rfl
    | closer =>
      have hlen : r.2.lists.length ≠ 1 := by
        intro hlen
        rw [lists_put_closer r.2 g hx] at hlists
        exact hlists (List.length_eq_zero_iff.mp (by simp [hlen]))
      obtain rfl : .lexeme .closer = p := by simpa [pieces, hx, hlen] using hp
      rfl

end Sheet

/-! ## Gaps and segments of a text -/

section

variable {text : List Char} {before after : List Lexeme} {l : Lexeme}

theorem lexemesOf_printBefore_start (s : Settings) {rest : List Lexeme}
    (h : lexemes text = before ++ rest) :
    lexemesOf (Sheet.printBefore { settings := s } rest before).1 = before := by
  refine Sheet.lexemesOf_printBefore _ (fun x hx => ?_) _
  have hmem : x ∈ lexemes text := by simp [h, hx]
  exact proper_of_mem_lexemes x hmem

theorem lists_sheetAt_ne_nil (s : Settings) (hin : nesting 0 before ≠ 0) (rest : List Lexeme) :
    (sheetAt s before rest).lists ≠ [] := by
  intro hnil
  rw [← length_lists_sheetAt s before rest, hnil] at hin
  exact hin rfl

/-- The pieces of a text up to a lexeme. -/
theorem exists_reflowPieces_eq_gapBefore (s : Settings) (h : lexemes text = before ++ l :: after) :
    ∃ qs, reflowPieces s text =
      (Sheet.printBefore { settings := s } (l :: after) before).1 ++
        (sheetAt s before (l :: after)).gapBefore l after ++ .lexeme l :: qs := by
  have hcut : lexemes text = before ++ [l] ++ after := by simp [h]
  have hmem : l ∈ lexemes text := by simp [h]
  obtain ⟨qs, hqs⟩ := exists_reflowPieces_eq_printBefore s hcut
  obtain ⟨rs, hrs⟩ := (sheetAt s before (l :: after)).exists_printBefore_eq_gapBefore
    (proper_of_mem_lexemes l hmem) after
  rw [List.singleton_append, hrs] at hqs
  exact ⟨rs ++ qs, by simp [hqs]⟩

/-- **The white space before a lexeme inside a list is the gap that the sheet chooses there.** -/
theorem gapAt_reflowPieces (s : Settings) (h : lexemes text = before ++ l :: after)
    (hin : nesting 0 before ≠ 0) :
    gapAt before.length (reflowPieces s text) =
      (sheetAt s before (l :: after)).gapBefore l after := by
  obtain ⟨qs, hqs⟩ := exists_reflowPieces_eq_gapBefore s h
  have hlast := Sheet.isLexeme_getLast?_printBefore (lists_sheetAt_ne_nil s hin (l :: after))
  have hgap := gapAt_append hlast
    ((sheetAt s before (l :: after)).lexemesOf_gapBefore l after) l qs
  rwa [lexemesOf_printBefore_start s h, ← hqs] at hgap

/-- The cursor stands behind everything printed before a place. -/
theorem cursor_sheetAt (s : Settings) (h : lexemes text = before ++ l :: after)
    (hin : nesting 0 before ≠ 0) :
    (sheetAt s before (l :: after)).cursor =
      Cursor.advance {} (textOf (through before.length (reflowPieces s text))) := by
  obtain ⟨qs, hqs⟩ := exists_reflowPieces_eq_gapBefore s h
  have hlast := Sheet.isLexeme_getLast?_printBefore (lists_sheetAt_ne_nil s hin (l :: after))
  have hcut := (cut_append hlast
    ((sheetAt s before (l :: after)).gapBefore l after ++ .lexeme l :: qs)).1
  rw [lexemesOf_printBefore_start s h, ← List.append_assoc, ← hqs] at hcut
  rw [hcut, ← Cursor.advancePieces_eq]
  exact Sheet.cursor_printBefore _ _ _

/-- **A list up to a place inside it is its opener and what the sheet prints behind it.** -/
theorem segmentAt_reflowPieces (s : Settings) {xs : List Lexeme}
    (h : lexemes text = before ++ .opener :: (xs ++ after))
    (hin : nesting 0 (before ++ .opener :: xs) ≠ 0) :
    segmentAt before.length (xs.length + 1) (reflowPieces s text) =
      .lexeme .opener ::
        ((sheetAt s (before ++ [.opener]) (xs ++ after)).printBefore after xs).1 := by
  have hcut : lexemes text = before ++ .opener :: xs ++ after := by simp [h]
  obtain ⟨qs, hqs⟩ := exists_reflowPieces_eq_printBefore s hcut
  have hsplit : before ++ .opener :: xs = before ++ [.opener] ++ xs := by simp
  have hlists := lists_sheetAt_ne_nil s hin after
  rw [hsplit, sheetAt_append] at hlists
  have hlast := Sheet.isLexeme_getLast?_printBefore hlists
  have hproper : ∀ x ∈ xs, x.Proper := by
    intro x hx
    have hmem : x ∈ lexemes text := by simp [h, hx]
    exact proper_of_mem_lexemes x hmem
  have hxs := Sheet.lexemesOf_printBefore (sheetAt s (before ++ [.opener]) (xs ++ after)) hproper
    after
  rw [List.cons_append, Sheet.printBefore, ← sheetAt_concat] at hqs
  generalize ((sheetAt s (before ++ [.opener]) (xs ++ after)).printBefore after xs).1 = ps at *
  -- the gap before the opener is left out of the segment
  have hpieces : reflowPieces s text =
      (Sheet.printBefore { settings := s } (.opener :: (xs ++ after)) before).1 ++
        (sheetAt s before (.opener :: (xs ++ after))).gapBefore .opener (xs ++ after) ++
          .lexeme .opener :: (ps ++ qs) := by
    rw [hqs]
    simp [Sheet.gapBefore, Sheet.pieces, Sheet.gapDepth, Lexeme.opener]
  have hfrom := fromLexeme_append
    ((Sheet.printBefore { settings := s } (.opener :: (xs ++ after)) before).1 ++
      (sheetAt s before (.opener :: (xs ++ after))).gapBefore .opener (xs ++ after))
    .opener (ps ++ qs)
  rw [← hpieces, lexemesOf_append, lexemesOf_printBefore_start s h, Sheet.lexemesOf_gapBefore,
    List.append_nil] at hfrom
  rw [segmentAt, hfrom]
  have hthrough := (cut_append hlast qs).1
  rw [hxs] at hthrough
  simp [through, hthrough]

end

end SExprReflow
