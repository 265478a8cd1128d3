import SExprReflow.Proofs.Content
import SExprReflow.Proofs.Nesting

/-!
# The lists around a place in a text

How a list is printed depends on the lists around it, and on these only through their first
children: a first child that is an atom decides the style, any other makes the list normal.
`enclosing` reads the lists open after some lexemes off the lexemes themselves, each by its first
child. A sheet on which the lexemes have been printed under one and the same settings has the same
lists open, in the styles that follow (`Mirrors`).

`Sheet.printBefore` is the part of `Sheet.printAhead` up to a place in the text.
-/

namespace SExprReflow

open Piece

/-! ## First children -/

/-- The first child of a list, as far as it is known. -/
inductive FirstChild where
  | missing
  | list
  | atom (text : List Char)
deriving DecidableEq

namespace FirstChild

/-- The style of a list with the given first child. -/
def style (c : Settings) : FirstChild → Option Style
  | missing => none
  | list => some .normal
  | atom text => some (c.styleOf text)

/-- The first child after one more child has come. -/
def orElse (f g : FirstChild) : FirstChild :=
  match f with
  | missing => g
  | _ => f

theorem orElse_ne_missing (f : FirstChild) {g : FirstChild} (hg : g ≠ missing) :
    f.orElse g ≠ missing := by
  cases f with
  | missing => exact hg
  | list => simp [orElse]
  | atom text => simp [orElse]

theorem orElse_of_ne_missing {f : FirstChild} (hf : f ≠ missing) (g : FirstChild) :
    f.orElse g = f := by
  cases f with
  | missing => exact absurd rfl hf
  | list => rfl
  | atom text => rfl

end FirstChild

/-- The lists open after one more lexeme. -/
def enclosingAfter (fs : List FirstChild) (l : Lexeme) : List FirstChild :=
  match l.role with
  | .opener => .missing :: fs.modifyHead (·.orElse .list)
  | .atom => fs.modifyHead (·.orElse (.atom l.text))
  | .closer => fs.tail

/-- The lists open after lexemes, innermost first, each by its first child. -/
def enclosing (ls : List Lexeme) : List FirstChild := ls.foldl enclosingAfter []

/-! ## Sheets under one and the same settings -/

/-- Whether one of the lists is shortform. -/
def AnyShortform (c : Settings) (fs : List FirstChild) : Prop :=
  ∃ f ∈ fs, f.style c = some .shortform

instance (c : Settings) (fs : List FirstChild) : Decidable (AnyShortform c fs) :=
  inferInstanceAs (Decidable (∃ f ∈ fs, f.style c = some .shortform))

/-- An open list is as it follows from its first child, inside the lists `fs`. -/
structure OpenList.Mirrors (c : Settings) (fs : List FirstChild) (o : OpenList) (f : FirstChild) :
    Prop where
  settings_eq : o.settings = c
  style_eq : o.style = f.style c
  children_eq_zero : o.children = 0 ↔ f = .missing
  onOneLine_eq : o.onOneLine = true ↔ AnyShortform c (f :: fs)

/-- Open lists are as they follow from their first children. -/
inductive Mirrors (c : Settings) : List OpenList → List FirstChild → Prop where
  | nil : Mirrors c [] []
  | cons {o : OpenList} {os : List OpenList} {f : FirstChild} {fs : List FirstChild} :
      o.Mirrors c fs f → Mirrors c os fs → Mirrors c (o :: os) (f :: fs)

theorem anyShortform_cons {c : Settings} {f : FirstChild} {fs : List FirstChild} :
    AnyShortform c (f :: fs) ↔ f.style c = some .shortform ∨ AnyShortform c fs := by
  simp [AnyShortform]

namespace OpenList.Mirrors

variable {c : Settings} {fs : List FirstChild} {o : OpenList} {f : FirstChild}

theorem afterAtom (h : o.Mirrors c fs f) (g : Gap) (text : List Char) :
    (o.afterAtom g text).Mirrors c fs (f.orElse (.atom text)) := by
  obtain ⟨hset, hstyle, hzero, hline⟩ := h
  rw [anyShortform_cons] at hline
  refine ⟨by simp [hset], ?_, ?_, ?_⟩
  · cases f <;> simp_all [style_afterAtom, FirstChild.orElse, FirstChild.style]
  · simp [children_afterAtom, f.orElse_ne_missing]
  · cases f <;>
      simp_all [onOneLine_afterAtom, FirstChild.orElse, FirstChild.style, anyShortform_cons, or_comm]

theorem afterList (h : o.Mirrors c fs f) : o.afterList.Mirrors c fs (f.orElse .list) := by
  obtain ⟨hset, hstyle, hzero, hline⟩ := h
  rw [anyShortform_cons] at hline
  refine ⟨by simp [hset], ?_, ?_, ?_⟩
  · cases f <;> simp_all [style_afterList, FirstChild.orElse, FirstChild.style]
  · simp [children_afterList, f.orElse_ne_missing]
  · cases f <;> simp_all [FirstChild.orElse, FirstChild.style, anyShortform_cons]

end OpenList.Mirrors

namespace Mirrors

variable {c : Settings} {os : List OpenList} {fs : List FirstChild}

theorem modifyHead {p : OpenList → OpenList} {q : FirstChild → FirstChild} (h : Mirrors c os fs)
    (hpq : ∀ o f fs, OpenList.Mirrors c fs o f → OpenList.Mirrors c fs (p o) (q f)) :
    Mirrors c (os.modifyHead p) (fs.modifyHead q) := by
  cases h with
  | nil => exact .nil
  | cons ho hos => exact .cons (hpq _ _ _ ho) hos

theorem tail (h : Mirrors c os fs) : Mirrors c os.tail fs.tail := by
  cases h with
  | nil => exact .nil
  | cons _ hos => exact hos

/-- The innermost list stands on one line if one of the lists is shortform. -/
theorem any_onOneLine (h : Mirrors c os fs) :
    os.head?.any OpenList.onOneLine = true ↔ AnyShortform c fs := by
  cases h with
  | nil => simp [AnyShortform]
  | cons ho _ => simpa using ho.onOneLine_eq

/-- Printing a lexeme keeps the open lists as they follow from their first children. -/
theorem put {s : Sheet} (h : Mirrors s.settings s.lists fs) (g : Gap) (l : Lexeme) :
    Mirrors s.settings (s.put g l).lists (enclosingAfter fs l) := by
  cases hl : l.role with
  | opener =>
    rw [Sheet.lists_put_opener s g hl, enclosingAfter, hl]
    have hinner := h.modifyHead fun o f fs ho => ho.afterList
    refine .cons ⟨rfl, rfl, by simp, ?_⟩ hinner
    have hsame : (s.lists.modifyHead OpenList.afterList).head?.any OpenList.onOneLine =
        s.lists.head?.any OpenList.onOneLine := by
      cases s.lists <;> simp
    rw [anyShortform_cons, ← hinner.any_onOneLine, hsame]
    simp [FirstChild.style]
  | atom =>
    rw [Sheet.lists_put_atom s g hl, enclosingAfter, hl]
    exact h.modifyHead fun o f fs ho => ho.afterAtom g l.text
  | closer =>
    rw [Sheet.lists_put_closer s g hl, enclosingAfter, hl]
    exact h.tail

end Mirrors

/-! ## Printing up to a place -/

namespace Sheet

/-- Prints lexemes with all of `rest` known to come behind them. -/
def printBefore (s : Sheet) (rest : List Lexeme) : List Lexeme → List Piece × Sheet
  | [] => ([], s)
  | l :: ls =>
    let r := printBefore (s.put (s.gapAhead l (ls ++ rest)) l) rest ls
    (s.pieces (s.gapAhead l (ls ++ rest)) l ++ r.1, r.2)

theorem printAhead_append (s : Sheet) (xs ys : List Lexeme) :
    s.printAhead (xs ++ ys) =
      ((s.printBefore ys xs).1 ++ ((s.printBefore ys xs).2.printAhead ys).1,
        ((s.printBefore ys xs).2.printAhead ys).2) := by
  induction xs generalizing s with
  | nil => simp [printBefore]
  | cons x xs ih => simp [printBefore, printAhead, ih]

theorem printBefore_append (s : Sheet) (xs ys zs : List Lexeme) :
    s.printBefore zs (xs ++ ys) =
      ((s.printBefore (ys ++ zs) xs).1 ++ ((s.printBefore (ys ++ zs) xs).2.printBefore zs ys).1,
        ((s.printBefore (ys ++ zs) xs).2.printBefore zs ys).2) := by
  induction xs generalizing s with
  | nil => simp [printBefore]
  | cons x xs ih => simp [printBefore, ih]

theorem lexemesOf_printBefore (s : Sheet) {xs : List Lexeme} (hx : ∀ l ∈ xs, l.Proper)
    (ys : List Lexeme) : lexemesOf (s.printBefore ys xs).1 = xs := by
  induction xs generalizing s with
  | nil => rfl
  | cons x xs ih =>
    rw [printBefore, lexemesOf_append, lexemesOf_pieces _ _ (hx x (by simp)),
      ih _ fun l hl => hx l (List.mem_cons_of_mem x hl)]
    rfl

theorem cursor_printBefore (s : Sheet) (xs ys : List Lexeme) :
    (s.printBefore ys xs).2.cursor = s.cursor.advancePieces (s.printBefore ys xs).1 := by
  induction xs generalizing s with
  | nil => rfl
  | cons x xs ih =>
    rw [printBefore, ih, cursor_put]
    simp [Cursor.advancePieces]

@[simp] theorem settings_printBefore (s : Sheet) (xs ys : List Lexeme) :
    (s.printBefore ys xs).2.settings = s.settings := by
  induction xs generalizing s with
  | nil => rfl
  | cons x xs ih => rw [printBefore, ih, settings_put]

theorem outerBegun_printBefore {s : Sheet} (h : s.OuterBegun) (xs ys : List Lexeme) :
    (s.printBefore ys xs).2.OuterBegun := by
  induction xs generalizing s with
  | nil => exact h
  | cons x xs ih => exact ih (behind_put h _ x).outer

end Sheet

/-- **Printed lexemes leave the lists open that are open after them.** -/
theorem Mirrors.printBefore {s : Sheet} {fs : List FirstChild} (h : Mirrors s.settings s.lists fs)
    (xs ys : List Lexeme) :
    Mirrors s.settings (s.printBefore ys xs).2.lists (xs.foldl enclosingAfter fs) := by
  induction xs generalizing s fs with
  | nil => exact h
  | cons x xs ih =>
    have hp := h.put (s.gapAhead x (xs ++ ys)) x
    have hrest := ih (s := s.put (s.gapAhead x (xs ++ ys)) x) (by rwa [Sheet.settings_put])
    rw [Sheet.settings_put] at hrest
    exact hrest

/-! ## A place in a text -/

/-- The sheet where `rest` begins, behind all that comes before it in a text. -/
def sheetAt (s : Settings) (before rest : List Lexeme) : Sheet :=
  (Sheet.printBefore { settings := s } rest before).2

@[simp] theorem settings_sheetAt (s : Settings) (before rest : List Lexeme) :
    (sheetAt s before rest).settings = s :=
  Sheet.settings_printBefore _ _ _

theorem outerBegun_sheetAt (s : Settings) (before rest : List Lexeme) :
    (sheetAt s before rest).OuterBegun :=
  Sheet.outerBegun_printBefore (Sheet.outerBegun_start s) _ _

theorem mirrors_sheetAt (s : Settings) (before rest : List Lexeme) :
    Mirrors s (sheetAt s before rest).lists (enclosing before) :=
  Mirrors.printBefore (s := { settings := s }) .nil before rest

/-- The lexemes of a text are printed one by one, so a place in the text is one among the pieces. -/
theorem lexemesOf_reflowPieces (s : Settings) (text : List Char) :
    lexemesOf (reflowPieces s text) = lexemes text := by
  have hp : ∀ l ∈ (Printer.ofSettings s).heldLexemes ++ lexemes text, l.Proper :=
    proper_of_mem_lexemes
  have hall := Printer.lexemesOf_printAll hp
  have hrest := (Printer.lexemesOf_releaseAll (Printer.proper_printAll hp)).1
  rw [reflowPieces_eq, lexemesOf_append, Printer.pieces_finish, lexemesOf_append, hrest,
    Sheet.lexemesOf_endPieces, List.append_nil, hall]
  rfl

/-- The pieces of a text: those before a place, and those of some lexemes from there on. -/
theorem exists_reflowPieces_eq_printBefore (s : Settings) {text : List Char}
    {before ls after : List Lexeme} (h : lexemes text = before ++ ls ++ after) :
    ∃ qs, reflowPieces s text =
      (Sheet.printBefore { settings := s } (ls ++ after) before).1 ++
        ((sheetAt s before (ls ++ after)).printBefore after ls).1 ++ qs := by
  rw [reflowPieces_eq, Printer.pieces_eq_printedAhead s _ proper_of_mem_lexemes, printedAhead]
  generalize (!endsInString (lexemes text)) = terminate
  rw [h, List.append_assoc, Sheet.printAhead_append, Sheet.printAhead_append, ← sheetAt]
  generalize ((sheetAt s before (ls ++ after)).printBefore after ls).2.printAhead after = r
  exact ⟨r.1 ++ r.2.endPieces terminate, by simp only [List.append_assoc]⟩

/-- The pieces before a place have the lexemes before it, and the cursor stands behind them. -/
theorem exists_reflowPieces_eq (s : Settings) {text : List Char} {before ls after : List Lexeme}
    (h : lexemes text = before ++ ls ++ after) :
    ∃ ps qs,
      reflowPieces s text =
        ps ++ ((sheetAt s before (ls ++ after)).printBefore after ls).1 ++ qs ∧
      lexemesOf ps = before ∧
      (sheetAt s before (ls ++ after)).cursor = Cursor.advancePieces {} ps := by
  have hproper : ∀ l ∈ before, l.Proper := by
    intro l hl
    have hmem : l ∈ lexemes text := by simp [h, hl]
    exact proper_of_mem_lexemes l hmem
  obtain ⟨qs, hqs⟩ := exists_reflowPieces_eq_printBefore s h
  exact ⟨_, qs, hqs, Sheet.lexemesOf_printBefore _ hproper _, Sheet.cursor_printBefore _ _ _⟩

end SExprReflow
