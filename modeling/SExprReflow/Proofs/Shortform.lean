import SExprReflow.Proofs.Children
import SExprReflow.Proofs.ColumnBound

/-!
# Shortform lists stand on one line

A shortform list is printed as `oneLineText` has it, with everything nested in it, and wherever it
stands: outside all lists, in a normal list, or in a compact list that has measured it before. No
other setting has a say in this. So the only line breaks in it are those inside its own strings.
-/

namespace SExprReflow

open Piece

/-! ## Flat text -/

theorem textOf_flatPieces (before : Lexeme) (ls : List Lexeme) :
    textOf (flatPieces before ls) = oneLineTextAfter before ls := by
  induction ls generalizing before with
  | nil => rfl
  | cons l ls ih =>
    rw [flatPieces, oneLineTextAfter, textOf_append, textOf_cons, ih]
    cases before.spaced l <;> simp [Piece.text]

theorem textOf_flatPieces_opener (ls : List Lexeme) :
    textOf (flatPieces .opener ls) = oneLineText ls := by
  rw [textOf_flatPieces, oneLineText_eq]

theorem lineBreak_not_mem_flatPieces (before : Lexeme) (ls : List Lexeme) (i : Indent) :
    .lineBreak i ∉ flatPieces before ls := by
  induction ls generalizing before with
  | nil => simp [flatPieces]
  | cons l ls ih =>
    rw [flatPieces]
    cases before.spaced l <;> simp [ih]

/-- A list that is written flat, from its opener to its closer. -/
theorem flatPieces_list (xs : List Lexeme) :
    flatPieces .opener (.opener :: (xs ++ [.closer])) =
      .lexeme .opener :: flatPieces .opener xs ++ [.lexeme .closer] := by
  have hopen : Lexeme.opener.spaced .opener = false := rfl
  simp [flatPieces, flatPieces_append, hopen]

/-! ## Which lists are shortform -/

theorem Settings.styleOf_eq_shortform_iff {c : Settings} {head : List Char} :
    c.styleOf head = .shortform ↔ head ∈ c.shortform := by
  unfold styleOf
  split
  · next h => simp [h]
  · next h => split <;> simp [h]

/-- Nothing but the shortform heads makes a list shortform. -/
theorem anyShortform_congr {c c' : Settings} (h : c'.shortform = c.shortform)
    (fs : List FirstChild) : AnyShortform c' fs ↔ AnyShortform c fs := by
  have hstyle : ∀ f : FirstChild, f.style c' = some .shortform ↔ f.style c = some .shortform := by
    intro f
    cases f with
    | missing => simp [FirstChild.style]
    | list => simp [FirstChild.style]
    | atom text => simp [FirstChild.style, Settings.styleOf_eq_shortform_iff, h]
  simp [AnyShortform, hstyle]

/-! ## Printing flat -/

/-- Behind the opener of a list that is shortform or inside such a list, its children are printed
flat. -/
theorem Sheet.flat_children {s : Sheet} {o : OpenList} {os : List OpenList} (hs : s.lists = o :: os)
    (hb : s.Behind .opener) (cs : List Child)
    (ho : o.onOneLine = true ∨ (firstChild cs).style o.settings = some .shortform)
    (ys : List Lexeme) :
    Flat .opener (lexemesOfChildren cs) (s.printBefore ys (lexemesOfChildren cs)) := by
  rcases ho with hone | hstyle
  · exact (flat_of_onOneLine (balanced_lexemesOfChildren cs) hs hone hb ys).1
  · -- only an atom can make the list shortform, and from there on it stands on one line
    cases cs with
    | nil => exact absurd hstyle (by simp [firstChild, FirstChild.style])
    | cons c cs =>
      cases c with
      | list body hbody => exact absurd hstyle (by simp [firstChild, FirstChild.style])
      | atom head =>
        have hhead : o.settings.styleOf head = .shortform := by
          simpa [firstChild, FirstChild.style] using hstyle
        have hz := (hb.opened hs).1
        have hlists := s.lists_put_atom .hug (l := .atom head) rfl
        rw [hs, List.modifyHead_cons] at hlists
        have hrest := flat_of_onOneLine (balanced_lexemesOfChildren cs) hlists
          (by simp [OpenList.onOneLine_afterAtom, hz, Lexeme.atom, hhead])
          (behind_put hb.outer .hug (.atom head)) ys
        rw [lexemesOfChildren_cons, Child.lexemes, List.singleton_append, hb.printBefore_head]
        exact hrest.1.cons rfl

section

variable {text : List Char} {before after : List Lexeme} {cs : List Child}

/-- **A list that is shortform or inside such a list is printed flat.** -/
theorem segmentAt_of_shortform (s : Settings)
    (h : lexemes text = before ++ completeList cs ++ after)
    (hshort : AnyShortform s (firstChild cs :: enclosing before)) :
    segmentAt before.length (completeList cs).length (reflowPieces s text) =
      flatPieces .opener (completeList cs) := by
  have hcut := h.trans (append_completeList before cs after)
  -- the children
  obtain ⟨os, hlists⟩ := exists_lists_opened s before (lexemesOfChildren cs ++ .closer :: after)
  have hflat := Sheet.flat_children hlists (behind_sheetAt s before .opener _) cs
    (by simpa [or_comm] using anyShortform_cons.mp hshort) (.closer :: after)
  -- the closer
  obtain ⟨o', os', hlists', ho'⟩ := exists_lists_sheetAt s before cs (.closer :: after)
  have hone' : o'.onOneLine = true := by
    rw [ho'.onOneLine_eq, anyShortform_cons, anyShortform_modifyHead]
    exact anyShortform_cons.mp hshort
  have hgap := gapAt_children s hcut
  rw [Sheet.gapBefore_closer hlists', OpenList.closesOnNewLine, hone'] at hgap
  rw [segmentAt_completeList s h, segmentAt_children s hcut, hflat.pieces_eq, hgap, completeList,
    flatPieces_list]
  simp

end

/-- **Shortform lists stand on one line.** A list somewhere in a text that is shortform, or inside
such a list, is printed as `oneLineText` has it, whatever its own style and the lists around it. It
has no line breaks but those in its atoms, and of the settings only the shortform heads have a say.
-/
theorem shortform_on_one_line [Memory] (s : Settings) (text : List Char)
    (before after : List Lexeme) (cs : List Child)
    (htext : lexemes text = before ++ completeList cs ++ after)
    (hshort : AnyShortform s (firstChild cs :: enclosing before)) :
    textOf (segmentAt before.length (completeList cs).length (reflowPieces s text)) =
        oneLineText (completeList cs) ∧
      (∀ i, .lineBreak i ∉ segmentAt before.length (completeList cs).length (reflowPieces s text)) ∧
      reflow s text =
        textOf (through before.length (reflowPieces s text)) ++
          textOf (gapAt before.length (reflowPieces s text)) ++ oneLineText (completeList cs) ++
          textOf (behind (before.length + (completeList cs).length) (reflowPieces s text)) ∧
      (∀ s' : Settings, s'.shortform = s.shortform →
        segmentAt before.length (completeList cs).length (reflowPieces s' text) =
          segmentAt before.length (completeList cs).length (reflowPieces s text)) ∧
      lexemesOf (reflowPieces s text) = lexemes text ∧
      (reflowWithin s text).result = text? (reflowPieces s text) := by
  have hseg := segmentAt_of_shortform s htext hshort
  have htextOf : textOf (segmentAt before.length (completeList cs).length (reflowPieces s text)) =
      oneLineText (completeList cs) := by
    rw [hseg, textOf_flatPieces_opener]
  refine ⟨htextOf, fun i => ?_, ?_, fun s' hs' => ?_, lexemesOf_reflowPieces s text,
    result_reflowWithin s text⟩
  · rw [hseg]
    exact lineBreak_not_mem_flatPieces _ _ i
  · have hparts := append_segmentAt before.length ((lexemesOfChildren cs).length + 1)
      (reflowPieces s text)
    rw [length_completeList] at htextOf ⊢
    rw [← htextOf, ← textOf_append, ← textOf_append, ← textOf_append, hparts]
    rfl
  · rw [hseg, segmentAt_of_shortform s' htext ((anyShortform_congr hs' _).mpr hshort)]

/-- In `(a (p (s (p x) "y\nz")))` the list `(p x)`, inside a shortform list in a compact one. -/
theorem shortform_on_one_line_nested :
    lexemes "(a (p (s (p x) \"y\nz\")))".toList =
        [.opener, .atom ['a'], .opener, .atom ['p'], .opener, .atom ['s']] ++
          completeList [.atom ['p'], .atom ['x']] ++
          [.atom "\"y\nz\"".toList, .closer, .closer, .closer] ∧
      textOf (segmentAt 6 4 (reflowPieces narrow "(a (p (s (p x) \"y\nz\")))".toList)) =
        "(p x)".toList := by
  have htext : lexemes "(a (p (s (p x) \"y\nz\")))".toList =
      [.opener, .atom ['a'], .opener, .atom ['p'], .opener, .atom ['s']] ++
        completeList [.atom ['p'], .atom ['x']] ++
        [.atom "\"y\nz\"".toList, .closer, .closer, .closer] := by decide
  exact ⟨htext, (@shortform_on_one_line .small narrow _ _ _ _ htext (by decide)).1⟩

end SExprReflow
