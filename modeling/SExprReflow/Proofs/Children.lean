import SExprReflow.Proofs.OneLineList
import SExprReflow.Proofs.Segment

/-!
# The children of a list

A complete list is a sequence of children between its delimiters, each of them an atom or again a
complete list. The first child gives the list its style, and with that it is known how the sheet
looks behind any number of children: only the entry of the list itself has changed, all lists around
it are as they were when it was opened.
-/

namespace SExprReflow

open Piece

/-- A child of a list: an atom, or a complete list with what is between its delimiters. -/
inductive Child where
  | atom (text : List Char)
  | list (body : List Lexeme) (balanced : Balanced body)

namespace Child

def lexemes : Child → List Lexeme
  | atom text => [.atom text]
  | list body _ => .opener :: (body ++ [.closer])

def isAtom : Child → Bool
  | atom _ => true
  | list .. => false

@[simp] theorem isAtom_atom (text : List Char) : (atom text).isAtom = true := rfl

@[simp] theorem isAtom_list (body : List Lexeme) (hb : Balanced body) :
    (list body hb).isAtom = false := rfl

end Child

/-- The lexemes of children, in order. -/
def lexemesOfChildren (cs : List Child) : List Lexeme := cs.flatMap Child.lexemes

@[simp] theorem lexemesOfChildren_nil : lexemesOfChildren [] = [] := rfl

@[simp] theorem lexemesOfChildren_cons (c : Child) (cs : List Child) :
    lexemesOfChildren (c :: cs) = c.lexemes ++ lexemesOfChildren cs := by
  simp [lexemesOfChildren]

@[simp] theorem lexemesOfChildren_append (cs ds : List Child) :
    lexemesOfChildren (cs ++ ds) = lexemesOfChildren cs ++ lexemesOfChildren ds := by
  simp [lexemesOfChildren]

/-- The complete list with the given children. -/
def completeList (cs : List Child) : List Lexeme := .opener :: (lexemesOfChildren cs ++ [.closer])

@[simp] theorem length_completeList (cs : List Child) :
    (completeList cs).length = (lexemesOfChildren cs).length + 2 := by
  simp [completeList]

theorem append_completeList (before : List Lexeme) (cs : List Child) (after : List Lexeme) :
    before ++ completeList cs ++ after =
      before ++ .opener :: (lexemesOfChildren cs ++ .closer :: after) := by
  simp [completeList]

theorem Child.balanced (c : Child) : Balanced c.lexemes := by
  cases c with
  | atom text => exact .atom rfl .nil
  | list body hb => exact .list hb .nil

theorem balanced_lexemesOfChildren (cs : List Child) : Balanced (lexemesOfChildren cs) := by
  induction cs with
  | nil => exact .nil
  | cons c cs ih =>
    rw [lexemesOfChildren_cons]
    exact c.balanced.append ih

/-- What is balanced is a sequence of children. -/
theorem Balanced.exists_children {xs : List Lexeme} (h : Balanced xs) :
    ∃ cs, lexemesOfChildren cs = xs := by
  induction h with
  | nil => exact ⟨[], rfl⟩
  | @atom l ls hr _ ih =>
    obtain ⟨cs, rfl⟩ := ih
    obtain ⟨role, text⟩ := l
    obtain rfl : role = .atom := hr
    exact ⟨.atom text :: cs, rfl⟩
  | @list xs ls hx _ _ ih =>
    obtain ⟨cs, rfl⟩ := ih
    exact ⟨.list xs hx :: cs, by simp [Child.lexemes]⟩

/-! ## The style of a list -/

/-- The first of some children. -/
def firstChild : List Child → FirstChild
  | [] => .missing
  | .atom text :: _ => .atom text
  | .list .. :: _ => .list

/-- The style of a list with the given children. A list without any is normal. -/
def listStyle (c : Settings) (cs : List Child) : Style := ((firstChild cs).style c).getD .normal

theorem Balanced.nesting_eq {xs : List Lexeme} (h : Balanced xs) (depth : Nat) :
    nesting depth xs = depth := by
  induction h generalizing depth with
  | nil => rfl
  | @atom l ls hr _ ih => rw [nesting_cons, ih, Lexeme.depthAfter, hr]
  | list _ _ ihx ihl =>
    rw [List.cons_append, nesting_cons, nesting_append, ihx, nesting_cons, ihl]
    simp [Lexeme.depthAfter, Lexeme.opener, Lexeme.closer]

/-- Inside a list, behind some of its children, one list more is open than around it. -/
theorem nesting_children (before : List Lexeme) (cs : List Child) :
    nesting 0 (before ++ .opener :: lexemesOfChildren cs) = nesting 0 before + 1 := by
  rw [nesting_append, nesting_cons, (balanced_lexemesOfChildren cs).nesting_eq]
  rfl

/-- Complete lists end where they began, inside the same lists. -/
theorem Balanced.exists_foldl_enclosingAfter {xs : List Lexeme} (h : Balanced xs) (f : FirstChild)
    (fs : List FirstChild) : ∃ f', xs.foldl enclosingAfter (f :: fs) = f' :: fs := by
  induction h generalizing f fs with
  | nil => exact ⟨f, rfl⟩
  | @atom l ls hr _ ih =>
    have hl : enclosingAfter (f :: fs) l = f.orElse (.atom l.text) :: fs := by
      simp [enclosingAfter, hr]
    rw [List.foldl_cons, hl]
    exact ih _ _
  | @list xs ls _ _ ihx ihl =>
    have hopen : enclosingAfter (f :: fs) .opener = .missing :: f.orElse .list :: fs := rfl
    obtain ⟨f', hf'⟩ := ihx .missing (f.orElse .list :: fs)
    rw [List.cons_append, List.foldl_cons, List.foldl_append, hopen, hf']
    exact ihl _ _

theorem foldl_enclosingAfter_children (cs : List Child) (f : FirstChild) (fs : List FirstChild) :
    (lexemesOfChildren cs).foldl enclosingAfter (f :: fs) = f.orElse (firstChild cs) :: fs := by
  induction cs generalizing f with
  | nil => cases f <;> rfl
  | cons c cs ih =>
    -- later children do not change the first one
    have hfirst : ∀ g : FirstChild, g ≠ .missing →
        (f.orElse g).orElse (firstChild cs) = f.orElse g :=
      fun g hg => FirstChild.orElse_of_ne_missing (f.orElse_ne_missing hg) _
    rw [lexemesOfChildren_cons, List.foldl_append]
    cases c with
    | atom text =>
      have hl : [Lexeme.atom text].foldl enclosingAfter (f :: fs) =
          f.orElse (.atom text) :: fs := rfl
      rw [Child.lexemes, hl, ih, hfirst _ (by simp)]
      rfl
    | list body hb =>
      obtain ⟨f', hf'⟩ := hb.exists_foldl_enclosingAfter .missing (f.orElse .list :: fs)
      have hopen : enclosingAfter (f :: fs) .opener = .missing :: f.orElse .list :: fs := rfl
      have hclose : enclosingAfter (f' :: f.orElse .list :: fs) .closer =
          f.orElse .list :: fs := rfl
      rw [Child.lexemes, List.foldl_cons, List.foldl_append, hopen, hf', List.foldl_cons, hclose,
        List.foldl_nil, ih, hfirst _ (by simp)]
      rfl

/-- The lists open behind some children of a list. -/
theorem enclosing_children (before : List Lexeme) (cs : List Child) :
    enclosing (before ++ .opener :: lexemesOfChildren cs) =
      firstChild cs :: (enclosing before).modifyHead (·.orElse .list) := by
  have hopen : ∀ fs, enclosingAfter fs .opener = .missing :: fs.modifyHead (·.orElse .list) :=
    fun _ => rfl
  rw [enclosing, List.foldl_append, List.foldl_cons, hopen, foldl_enclosingAfter_children]
  rfl

/-- A list child does not make the list around it shortform, or any other. -/
theorem anyShortform_modifyHead {c : Settings} {fs : List FirstChild} :
    AnyShortform c (fs.modifyHead (·.orElse .list)) ↔ AnyShortform c fs := by
  cases fs with
  | nil => rfl
  | cons f fs =>
    rw [List.modifyHead_cons, anyShortform_cons, anyShortform_cons]
    cases f <;> simp [FirstChild.orElse, FirstChild.style]

/-! ## The sheet behind children -/

namespace Sheet

/-- Lexemes that change nothing but the innermost list, and not where that was opened. -/
def StaysInside (xs : List Lexeme) : Prop :=
  ∀ (s : Sheet) (o : OpenList) (os : List OpenList) (ys : List Lexeme), s.lists = o :: os →
    ∃ o', (s.printBefore ys xs).2.lists = o' :: os ∧ o'.openedOn = o.openedOn

theorem StaysInside.lists_list {xs : List Lexeme} (h : StaysInside xs) {s : Sheet} {o : OpenList}
    {os : List OpenList} (hs : s.lists = o :: os) (ys : List Lexeme) :
    (s.printBefore ys (.opener :: (xs ++ [.closer]))).2.lists = o.afterList :: os := by
  rw [printBefore]
  generalize s.gapAhead .opener (xs ++ [.closer] ++ ys) = g
  have hopen := s.lists_put_opener g (l := .opener) rfl
  rw [hs, List.modifyHead_cons] at hopen
  obtain ⟨o', ho', -⟩ := h (s.put g .opener) _ _ ([.closer] ++ ys) hopen
  rw [printBefore_append]
  generalize (s.put g .opener).printBefore ([.closer] ++ ys) xs = r at ho'
  have hclose := r.2.lists_put_closer (r.2.gapAhead .closer ys) (l := .closer) rfl
  rw [ho', List.tail_cons] at hclose
  exact hclose

end Sheet

/-- **Complete lists leave the lists around them as they were.** -/
theorem Balanced.staysInside {xs : List Lexeme} (h : Balanced xs) : Sheet.StaysInside xs := by
  induction h with
  | nil => exact fun s o os ys hs => ⟨o, hs, rfl⟩
  | @atom l ls hr _ ih =>
    intro s o os ys hs
    have hlists := s.lists_put_atom (s.gapAhead l (ls ++ ys)) hr
    rw [hs, List.modifyHead_cons] at hlists
    obtain ⟨o', ho', hline⟩ := ih _ _ _ ys hlists
    exact ⟨o', ho', hline.trans (o.openedOn_afterAtom _ _)⟩
  | @list xs ls _ _ ihx ihl =>
    intro s o os ys hs
    have hsplit : Lexeme.opener :: xs ++ .closer :: ls = .opener :: (xs ++ [.closer]) ++ ls := by
      simp
    rw [hsplit, Sheet.printBefore_append]
    obtain ⟨o', ho', hline⟩ := ihl _ _ _ ys (ihx.lists_list hs (ls ++ ys))
    exact ⟨o', ho', hline.trans o.openedOn_afterList⟩

/-! ## Lists in a text -/

/-- The number of lexemes before what comes behind the children `cs` of a list. -/
def placeBehind (before : List Lexeme) (cs : List Child) : Nat :=
  before.length + ((lexemesOfChildren cs).length + 1)

section

variable {text : List Char} {before rest : List Lexeme} {cs : List Child}

/-- Behind its opener a list is the innermost one, without any children. -/
theorem exists_lists_opened (s : Settings) (before rest : List Lexeme) :
    ∃ os, (sheetAt s (before ++ [.opener]) rest).lists =
      { settings := s
        openedOn := (sheetAt s (before ++ [.opener]) rest).cursor.line
        onOneLine := decide (AnyShortform s (enclosing before)) } :: os := by
  have hone := (mirrors_sheetAt s before (.opener :: rest)).any_onOneLine
  have hset := settings_sheetAt s before (.opener :: rest)
  rw [sheetAt_concat]
  generalize sheetAt s before (.opener :: rest) = sheet at *
  have hlists := sheet.lists_put_opener (sheet.gapAhead .opener rest) (l := .opener) rfl
  rw [hset, Bool.eq_iff_iff.mpr (hone.trans decide_eq_true_iff.symm)] at hlists
  exact ⟨_, hlists⟩

/-- Behind some of its children a list is the innermost one, and as it follows from the first. -/
theorem exists_lists_sheetAt (s : Settings) (before : List Lexeme) (cs : List Child)
    (rest : List Lexeme) :
    ∃ o os, (sheetAt s (before ++ .opener :: lexemesOfChildren cs) rest).lists = o :: os ∧
      o.Mirrors s ((enclosing before).modifyHead (·.orElse .list)) (firstChild cs) := by
  have hm := mirrors_sheetAt s (before ++ .opener :: lexemesOfChildren cs) rest
  rw [enclosing_children] at hm
  generalize (sheetAt s (before ++ .opener :: lexemesOfChildren cs) rest).lists = os at hm
  cases hm with
  | cons ho _ => exact ⟨_, _, rfl, ho⟩

theorem sheetAt_children (s : Settings) (before : List Lexeme) (cs : List Child)
    (rest : List Lexeme) :
    sheetAt s (before ++ .opener :: lexemesOfChildren cs) rest =
      ((sheetAt s (before ++ [.opener]) (lexemesOfChildren cs ++ rest)).printBefore rest
        (lexemesOfChildren cs)).2 := by
  have hsplit : before ++ .opener :: lexemesOfChildren cs =
      before ++ [.opener] ++ lexemesOfChildren cs := by simp
  rw [hsplit, sheetAt_append]

/-- The gap behind some children of a list. -/
theorem gapAt_children (s : Settings) {l : Lexeme}
    (h : lexemes text = before ++ .opener :: (lexemesOfChildren cs ++ l :: rest)) :
    gapAt (placeBehind before cs) (reflowPieces s text) =
      (sheetAt s (before ++ .opener :: lexemesOfChildren cs) (l :: rest)).gapBefore l rest := by
  have hcut : lexemes text = (before ++ .opener :: lexemesOfChildren cs) ++ l :: rest := by
    simp [h]
  have hgap := gapAt_reflowPieces s hcut (by rw [nesting_children]; omega)
  rwa [List.length_append, List.length_cons] at hgap

/-- The gap before a closer. -/
theorem Sheet.gapBefore_closer {s : Sheet} {o : OpenList} {os : List OpenList}
    (hs : s.lists = o :: os) (rest : List Lexeme) :
    s.gapBefore .closer rest =
      if o.closesOnNewLine s.cursor.line then [s.lineBreak os.length] else [] := by
  have hg : s.gapAhead .closer rest = if o.closesOnNewLine s.cursor.line then .line else .hug := by
    simp [gapAhead, gap?, hs, Lexeme.closer]
  have hd : s.gapDepth .closer = os.length := by simp [gapDepth, hs, Lexeme.closer]
  rw [gapBefore, hg, hd]
  split <;> rfl

/-- A list up to some place behind its children. -/
theorem segmentAt_children (s : Settings)
    (h : lexemes text = before ++ .opener :: (lexemesOfChildren cs ++ rest)) :
    segmentAt before.length ((lexemesOfChildren cs).length + 1) (reflowPieces s text) =
      .lexeme .opener ::
        ((sheetAt s (before ++ [.opener]) (lexemesOfChildren cs ++ rest)).printBefore rest
          (lexemesOfChildren cs)).1 :=
  segmentAt_reflowPieces s h (by rw [nesting_children]; omega)

/-- A complete list is what comes before its closer, the gap there, and the closer. -/
theorem segmentAt_completeList (s : Settings)
    (h : lexemes text = before ++ completeList cs ++ rest) :
    segmentAt before.length (completeList cs).length (reflowPieces s text) =
      segmentAt before.length ((lexemesOfChildren cs).length + 1) (reflowPieces s text) ++
        gapAt (placeBehind before cs) (reflowPieces s text) ++ [.lexeme .closer] := by
  rw [length_completeList]
  refine segmentAt_succ ?_
  rw [lexemesOf_reflowPieces, h, completeList]
  simp

end

end SExprReflow
