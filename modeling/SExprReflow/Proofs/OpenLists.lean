import Mathlib.Data.List.Nodup
import SExprReflow.Proofs.Enclosing
import SExprReflow.Proofs.Moves

/-!
# What is known of the open lists

The sheet keeps a line, a column and a few notes on each open list, and everything that is printed
later depends on them. They can all be checked against the printed text: a `Survey` reads off it where
each open list began, how many children it has so far and what the first of them is. That every note
agrees with the survey (`Accounts`) is kept by each move of the sheet, and so by every call.

The survey goes by what has been printed, call by call (`Session.history`). Only two things in it do
not show in the text: which settings are in force, and whether a call that failed has closed a list
without printing its closer.
-/

namespace SExprReflow

open Piece

/-! ## Surveys -/

/-- An open list, as the printed text has it. -/
structure Listing where
  /-- The text before the opener. -/
  before : List Char
  /-- The settings in force when the opener was printed. -/
  settings : Settings
  /-- The number of children of which something has been printed. -/
  children : Nat := 0
  first : FirstChild := .missing

/-- The list with one more child. -/
def Listing.addChild (f : Listing) (child : FirstChild) : Listing :=
  { f with children := f.children + 1, first := f.first.orElse child }

/-- What has been printed: the text, the lists open at its end, and the settings in force. -/
structure Survey where
  text : List Char := []
  lists : List Listing := []
  settings : Settings

namespace Survey

/-- The lists open after one more lexeme. -/
def listsAfter (v : Survey) (l : Lexeme) : List Listing :=
  match l.role with
  | .opener => { before := v.text, settings := v.settings } :: v.lists.modifyHead (·.addChild .list)
  | .atom => v.lists.modifyHead (·.addChild (.atom l.text))
  | .closer => v.lists.tail

/-- The survey after one more mark. -/
def next (v : Survey) : Mark → Survey
  | .print (.lexeme l) => { v with text := v.text ++ l.text, lists := v.listsAfter l }
  | .print p => { v with text := v.text ++ p.text }
  | .giveUp => { v with lists := v.lists.tail }
  | .settings t => { v with settings := t }

/-- The survey after more marks. -/
def after (v : Survey) (ms : List Mark) : Survey := ms.foldl next v

@[simp] theorem after_nil (v : Survey) : v.after [] = v := rfl

@[simp] theorem after_cons (v : Survey) (m : Mark) (ms : List Mark) :
    v.after (m :: ms) = (v.next m).after ms := rfl

@[simp] theorem after_append (v : Survey) (ms ms' : List Mark) :
    v.after (ms ++ ms') = (v.after ms).after ms' :=
  List.foldl_append

theorem text_after_print (v : Survey) (ps : List Piece) :
    (v.after (ps.map .print)).text = v.text ++ textOf ps := by
  induction ps generalizing v with
  | nil => simp
  | cons p ps ih =>
    rw [List.map_cons, after_cons, ih]
    cases p <;> simp [next, Piece.text]

theorem settings_after_print (v : Survey) (ps : List Piece) :
    (v.after (ps.map .print)).settings = v.settings := by
  induction ps generalizing v with
  | nil => rfl
  | cons p ps ih =>
    rw [List.map_cons, after_cons, ih]
    cases p <;> rfl

theorem length_lists_after_print (v : Survey) (ps : List Piece) :
    (v.after (ps.map .print)).lists.length = nesting v.lists.length (lexemesOf ps) := by
  induction ps generalizing v with
  | nil => rfl
  | cons p ps ih =>
    rw [List.map_cons, after_cons, ih]
    cases p with
    | lexeme l =>
      rw [lexemesOf_lexeme, nesting_cons]
      congr 1
      cases hl : l.role <;> simp [next, listsAfter, Lexeme.depthAfter, hl]
    | space => rw [lexemesOf_space]; rfl
    | lineBreak i => rw [lexemesOf_lineBreak]; rfl

/-- White space changes nothing but the text. -/
theorem after_gapPieces (v : Survey) (s : Sheet) (depth : Nat) (g : Gap) :
    v.after ((s.gapPieces depth g).map .print) =
      { v with text := v.text ++ textOf (s.gapPieces depth g) } := by
  cases g with
  | hug => simp [Sheet.gapPieces]
  | space => simp [Sheet.gapPieces, next]
  | line => simp [Sheet.gapPieces, Sheet.lineBreak, next]

theorem lists_after_opener (v : Survey) (s : Sheet) (g : Gap) {l : Lexeme} (hl : l.role = .opener) :
    (v.after ((s.pieces g l).map .print)).lists =
      { before := v.text ++ textOf (s.gapPieces s.lists.length g), settings := v.settings } ::
        v.lists.modifyHead (·.addChild .list) := by
  rw [Sheet.pieces, hl, List.map_append, after_append, after_gapPieces]
  rfl

theorem lists_after_atom (v : Survey) (s : Sheet) (g : Gap) {l : Lexeme} (hl : l.role = .atom) :
    (v.after ((s.pieces g l).map .print)).lists = v.lists.modifyHead (·.addChild (.atom l.text)) := by
  rw [Sheet.pieces, hl, List.map_append, after_append, after_gapPieces]
  simp [next, listsAfter, hl]

theorem lists_after_closer (v : Survey) (s : Sheet) (g : Gap) {l : Lexeme} (hl : l.role = .closer) :
    (v.after ((s.pieces g l).map .print)).lists = v.lists.tail := by
  rw [Sheet.pieces, hl, List.map_append, after_append, after_gapPieces]
  by_cases hone : s.lists.length = 1
  · simp only [if_pos hone]
    rfl
  · simp only [if_neg hone]
    rfl

end Survey

/-! ## Notes on lists -/

/-- The notes on an open list inside the lists `outer` agree with the printed text. -/
structure OpenList.Accounts (outer : List OpenList) (o : OpenList) (f : Listing) : Prop where
  settings_eq : o.settings = f.settings
  /-- The line of the opener is the number of line breaks before it. -/
  openedOn_eq : o.openedOn = f.before.count '\n'
  children_eq : o.children = f.children
  /-- The style is the one that follows from the first child. -/
  style_eq : o.style = f.first.style f.settings
  style_eq_none_iff : o.style = none ↔ o.children = 0
  onOneLine_iff : o.onOneLine = true ↔ ∃ p ∈ o :: outer, p.style = some .shortform
  streak_le : o.streak ≤ o.settings.wrapThreshold

/-- The notes on all open lists agree with the printed text. -/
inductive Accounts : List OpenList → List Listing → Prop where
  | nil : Accounts [] []
  | cons {o : OpenList} {os : List OpenList} {f : Listing} {fs : List Listing} :
      o.Accounts os f → Accounts os fs → Accounts (o :: os) (f :: fs)

namespace OpenList.Accounts

variable {outer : List OpenList} {o : OpenList} {f : Listing}

theorem first_eq_missing_iff (h : o.Accounts outer f) : f.first = .missing ↔ o.children = 0 := by
  rw [← h.style_eq_none_iff, h.style_eq]
  cases f.first <;> simp [FirstChild.style]

/-- What one more child does to a list, whatever the child is. -/
theorem addChild (h : o.Accounts outer f) {o' : OpenList} {child : FirstChild}
    (hchild : child ≠ .missing) (hsettings : o'.settings = o.settings)
    (hopened : o'.openedOn = o.openedOn) (hchildren : o'.children = o.children + 1)
    (hstyle : o'.style = if o.children = 0 then child.style o.settings else o.style)
    (hline : o'.onOneLine =
      (o.onOneLine || (o.children = 0 && child.style o.settings = some .shortform)))
    (hstreak : o'.streak ≤ o.settings.wrapThreshold) : o'.Accounts outer (f.addChild child) := by
  have hsome : child.style o.settings ≠ none := by
    cases child with
    | missing => exact absurd rfl hchild
    | list => simp [FirstChild.style]
    | atom text => simp [FirstChild.style]
  have honly := h.onOneLine_iff
  rw [List.exists_mem_cons_iff] at honly
  refine ⟨hsettings.trans h.settings_eq, hopened.trans h.openedOn_eq, ?_, ?_, ?_, ?_, ?_⟩
  · rw [hchildren, h.children_eq]
    rfl
  · rw [hstyle]
    by_cases hc : o.children = 0
    · rw [if_pos hc, h.settings_eq, Listing.addChild, h.first_eq_missing_iff.mpr hc]
      rfl
    · rw [if_neg hc, h.style_eq, Listing.addChild,
        FirstChild.orElse_of_ne_missing fun he => hc (h.first_eq_missing_iff.mp he)]
  · have hne : o'.style ≠ none := by
      rw [hstyle]
      by_cases hc : o.children = 0
      · rwa [if_pos hc]
      · rw [if_neg hc]
        exact fun he => hc (h.style_eq_none_iff.mp he)
    simp [hne, hchildren]
  · rw [List.exists_mem_cons_iff, hline, hstyle]
    by_cases hc : o.children = 0
    · have hnone : o.style = none := h.style_eq_none_iff.mpr hc
      simp only [hnone, reduceCtorEq, false_or] at honly
      simp [hc, honly, or_comm]
    · simp [hc, honly]
  · rw [hsettings]
    exact hstreak

theorem afterAtom (h : o.Accounts outer f) {g : Gap} {text : List Char}
    (hg : o.children ≠ 0 → o.counts = true → g ≠ .line → o.streak < o.settings.wrapThreshold) :
    (o.afterAtom g text).Accounts outer (f.addChild (.atom text)) := by
  refine h.addChild (by simp) (o.settings_afterAtom g text) (o.openedOn_afterAtom g text)
    (o.children_afterAtom g text) (o.style_afterAtom g text) ?_ ?_
  · rw [onOneLine_afterAtom]
    simp [FirstChild.style]
  · have hpos := o.settings.wrapThreshold_pos
    have hle := h.streak_le
    unfold OpenList.afterAtom
    split
    · exact hpos
    · next hc =>
      split
      · next hcounts =>
        by_cases hline : g = .line
        · simp only [if_pos hline]
          omega
        · have hlt := hg hc hcounts hline
          simp only [if_neg hline]
          omega
      · exact hle

theorem afterList (h : o.Accounts outer f) : o.afterList.Accounts outer (f.addChild .list) := by
  refine h.addChild (by simp) o.settings_afterList o.openedOn_afterList o.children_afterList
    o.style_afterList ?_ ?_
  · rw [onOneLine_afterList]
    simp [FirstChild.style]
  · have hle := h.streak_le
    unfold OpenList.afterList
    split
    · exact hle
    · split
      · exact Nat.zero_le _
      · exact hle

end OpenList.Accounts

namespace Accounts

variable {os : List OpenList} {fs : List Listing}

theorem modifyHead {p : OpenList → OpenList} {q : Listing → Listing} (h : Accounts os fs)
    (hpq : ∀ o outer f, os = o :: outer → o.Accounts outer f → (p o).Accounts outer (q f)) :
    Accounts (os.modifyHead p) (fs.modifyHead q) := by
  cases h with
  | nil => exact .nil
  | cons ho hos => exact .cons (hpq _ _ _ rfl ho) hos

theorem tail (h : Accounts os fs) : Accounts os.tail fs.tail := by
  cases h with
  | nil => exact .nil
  | cons _ hos => exact hos

theorem length_eq (h : Accounts os fs) : os.length = fs.length := by
  induction h with
  | nil => rfl
  | cons _ _ ih => simp [ih]

/-- The innermost list stands on one line if one of the lists is shortform. -/
theorem any_onOneLine (h : Accounts os fs) :
    os.head?.any OpenList.onOneLine = true ↔ ∃ p ∈ os, p.style = some .shortform := by
  cases h with
  | nil => simp
  | cons ho _ => simpa using ho.onOneLine_iff

theorem of_mem_zip (h : Accounts os fs) {o : OpenList} {f : Listing} (hm : (o, f) ∈ os.zip fs) :
    ∃ outer, o.Accounts outer f := by
  induction h with
  | nil => exact absurd hm (by simp)
  | @cons o' os' f' fs' ho hos ih =>
    rw [List.zip_cons_cons] at hm
    rcases List.mem_cons.mp hm with heq | hm
    · obtain ⟨rfl, rfl⟩ := Prod.mk.inj heq
      exact ⟨os', ho⟩
    · exact ih hm

end Accounts

/-! ## Moves -/

/-- Every open list has its opener in the text, and no two of them have the same. -/
structure Survey.Placed (v : Survey) : Prop where
  opened : ∀ b ∈ v.lists.map Listing.before, b ++ ['('] <+: v.text
  decreasing : (v.lists.map Listing.before).Pairwise fun b c => c.length < b.length

/-- The sheet agrees with the printed text. -/
structure Sheet.Agrees (s : Sheet) (v : Survey) : Prop where
  cursor_eq : s.cursor = Cursor.advance {} v.text
  settings_eq : s.settings = v.settings
  accounts : Accounts s.lists v.lists
  outerBegun : s.OuterBegun
  placed : v.Placed

theorem Sheet.pieces_opener (s : Sheet) (g : Gap) {l : Lexeme} (hl : l.role = .opener) :
    s.pieces g l = s.gapPieces s.lists.length g ++ [.lexeme .opener] := by
  rw [pieces, hl]

/-- An atom that stays on the line of a list that counts its atoms is within the threshold. -/
theorem Sheet.streak_lt {s : Sheet} {l : Lexeme} {g : Gap} {o : OpenList} {os : List OpenList}
    (hs : s.lists = o :: os) (hl : l.role = .atom) (hg : s.gap? l = some g) (hc : o.children ≠ 0)
    (hcounts : o.counts = true) (hne : g ≠ .line) : o.streak < o.settings.wrapThreshold := by
  simp only [OpenList.counts, Bool.and_eq_true, Bool.not_eq_true', decide_eq_true_eq] at hcounts
  obtain ⟨hline, hstyle⟩ := hcounts
  simp only [gap?, hs, hl, if_neg hc, hline, hstyle, Bool.false_eq_true, if_false, Option.some.injEq,
    reduceCtorEq] at hg
  by_contra hlt
  rw [if_neg hlt] at hg
  exact hne hg.symm

namespace Survey.Placed

variable {v : Survey}

theorem length_lt (h : v.Placed) {b : List Char} (hb : b ∈ v.lists.map Listing.before) :
    b.length < v.text.length := by
  have hle := (h.opened b hb).length_le
  rw [List.length_append, List.length_singleton] at hle
  omega

/-- More text, and no new list. -/
theorem sublist (h : v.Placed) {v' : Survey} (ht : v.text <+: v'.text)
    (hl : (v'.lists.map Listing.before).Sublist (v.lists.map Listing.before)) : v'.Placed where
  opened b hb := (h.opened b (hl.subset hb)).trans ht
  decreasing := h.decreasing.sublist hl

theorem push (h : v.Placed) {v' : Survey} {f : Listing} {fs : List Listing}
    (hv : v'.lists = f :: fs) (hfs : fs.map Listing.before = v.lists.map Listing.before)
    (hf : v.text <+: f.before) (ht : f.before ++ ['('] <+: v'.text) : v'.Placed := by
  have hmap : v'.lists.map Listing.before = f.before :: v.lists.map Listing.before := by
    rw [hv, List.map_cons, hfs]
  constructor
  · intro b hb
    rw [hmap] at hb
    rcases List.mem_cons.mp hb with rfl | hb
    · exact ht
    · exact ((h.opened b hb).trans hf).trans ((List.prefix_append _ _).trans ht)
  · rw [hmap]
    refine List.pairwise_cons.mpr ⟨?_, h.decreasing⟩
    intro b hb
    exact Nat.lt_of_lt_of_le (h.length_lt hb) hf.length_le

theorem eq_of_before_eq (h : v.Placed) {f g : Listing} (hf : f ∈ v.lists) (hg : g ∈ v.lists)
    (he : f.before = g.before) : f = g := by
  have hnodup : (v.lists.map Listing.before).Nodup := by
    refine h.decreasing.imp ?_
    rintro b c hlt rfl
    exact Nat.lt_irrefl _ hlt
  exact List.inj_on_of_nodup_map hnodup hf hg he

end Survey.Placed

theorem map_before_modifyHead (fs : List Listing) (child : FirstChild) :
    (fs.modifyHead (·.addChild child)).map Listing.before = fs.map Listing.before := by
  cases fs <;> rfl

namespace Sheet.Agrees

variable {s : Sheet} {v : Survey}

theorem put (h : s.Agrees v) {g : Gap} {l : Lexeme} (hg : l.role = .opener ∨ s.gap? l = some g) :
    (s.put g l).Agrees (v.after ((s.pieces g l).map .print)) := by
  have htext := v.text_after_print (s.pieces g l)
  have hcursor : (s.put g l).cursor = Cursor.advance {} (v.text ++ textOf (s.pieces g l)) := by
    rw [cursor_put, Cursor.advancePieces_eq, h.cursor_eq, Cursor.advance_append]
  have hgrow : v.text <+: (v.after ((s.pieces g l).map .print)).text := by
    rw [htext]
    exact List.prefix_append _ _
  refine ⟨by rw [htext, hcursor], ?_, ?_, (behind_put h.outerBegun g l).outer, ?_⟩
  · rw [settings_put, v.settings_after_print, h.settings_eq]
  · cases hl : l.role with
    | opener =>
      have hinner := h.accounts.modifyHead fun _ _ _ _ ho => ho.afterList
      have hsame : (s.lists.modifyHead OpenList.afterList).head?.any OpenList.onOneLine =
          s.lists.head?.any OpenList.onOneLine := by
        cases s.lists <;> simp
      rw [lists_put_opener s g hl, v.lists_after_opener s g hl]
      refine .cons ⟨h.settings_eq, ?_, rfl, rfl, by simp, ?_, Nat.zero_le _⟩ hinner
      · -- an opener does not break the line
        rw [hcursor, Cursor.line_advance, pieces_opener s g hl]
        simp [Piece.text, Lexeme.opener]
      · rw [List.exists_mem_cons_iff, ← hinner.any_onOneLine, hsame]
        simp
    | atom =>
      rw [lists_put_atom s g hl, v.lists_after_atom s g hl]
      refine h.accounts.modifyHead fun o outer f hs ho => ho.afterAtom fun hc hcounts hne => ?_
      exact streak_lt hs hl (hg.resolve_left (by simp [hl])) hc hcounts hne
    | closer =>
      rw [lists_put_closer s g hl, v.lists_after_closer s g hl]
      exact h.accounts.tail
  · cases hl : l.role with
    | opener =>
      refine h.placed.push (v.lists_after_opener s g hl) (map_before_modifyHead _ _)
        (List.prefix_append _ _) ?_
      rw [htext, pieces_opener s g hl]
      simp [Piece.text, Lexeme.opener]
    | atom =>
      refine h.placed.sublist hgrow ?_
      rw [v.lists_after_atom s g hl, map_before_modifyHead]
    | closer =>
      refine h.placed.sublist hgrow ?_
      rw [v.lists_after_closer s g hl]
      exact (List.tail_sublist _).map _

theorem move (h : s.Agrees v) {ms : List Mark} {s' : Sheet} (hm : s.Move ms s') :
    s'.Agrees (v.after ms) := by
  cases hm with
  | put hg => exact h.put hg
  | giveUp =>
    refine ⟨h.cursor_eq, h.settings_eq, h.accounts.tail, ?_, ?_⟩
    · intro o ho
      exact h.outerBegun o (List.mem_of_mem_tail ho)
    · exact h.placed.sublist (List.prefix_refl _) ((List.tail_sublist _).map _)
  | endLine =>
    have htext : (v.after [.print (s.lineBreak 0)]).text = v.text ++ textOf [s.lineBreak 0] :=
      v.text_after_print [s.lineBreak 0]
    refine ⟨?_, h.settings_eq, h.accounts, h.outerBegun, ?_⟩
    · rw [htext, Sheet.advance, h.cursor_eq, Cursor.advancePieces_eq, Cursor.advance_append]
    · refine h.placed.sublist ?_ (List.Sublist.refl _)
      rw [htext]
      exact List.prefix_append _ _
  | settings t =>
    exact ⟨h.cursor_eq, rfl, h.accounts, h.outerBegun, h.placed.opened, h.placed.decreasing⟩

/-- **Moves keep the sheet in agreement with the printed text.** -/
theorem moves (h : s.Agrees v) {ms : List Mark} {s' : Sheet} (hm : s.Moves ms s') :
    s'.Agrees (v.after ms) := by
  induction hm with
  | refl => exact h
  | tail _ hm ih =>
    rw [Survey.after_append]
    exact ih.move hm

end Sheet.Agrees

/-! ## Calls -/

namespace Session

/-- The pieces that a call prints, whether or not they are delivered. -/
def printed [Memory] (x : Session) (c : Call) : List Piece :=
  ((x.call c).1 ++ (x.call c).2.undelivered).drop x.undelivered.length

/-- Whether a call fails and closes a list without a closer: fewer lists are open than the pieces
printed leave open. -/
def givesUp [Memory] (x : Session) (c : Call) : Bool :=
  (x.call c).2.error.isSome &&
    (x.call c).2.sheet.lists.length < nesting x.sheet.lists.length (lexemesOf (x.printed c))

/-- What is left of a call. -/
def marks [Memory] (x : Session) (c : Call) : List Mark :=
  (x.printed c).map .print ++
    ((if x.givesUp c then [.giveUp] else []) ++ [.settings (x.call c).2.sheet.settings])

/-- What is left of calls. -/
def history [Memory] (x : Session) : List Call → List Mark
  | [] => []
  | c :: cs => x.marks c ++ (x.call c).2.history cs

theorem undelivered_append_printed [Memory] (x : Session) (c : Call) :
    x.undelivered ++ x.printed c = (x.call c).1 ++ (x.call c).2.undelivered := by
  suffices h : x.undelivered <+: (x.call c).1 ++ (x.call c).2.undelivered by
    obtain ⟨ps, hps⟩ := h
    rw [printed, ← hps, List.drop_left]
  rcases x.call_cases c with ⟨e, t, -, -, heq⟩ | ⟨scanner, r, -, heq⟩
  · rw [heq]
    exact List.prefix_refl _
  · rw [heq, deliver]
    cases r.error with
    | none => simp [resume]
    | some e => simp [resume]

/-- A call that prints has printed what its printout holds. -/
theorem printed_of_deliver [Memory] {x : Session} {c : Call} {scanner : Scanner} {r : Printout}
    (h : x.call c = x.resume.deliver scanner r) : x.printed c = r.pieces := by
  rw [printed, h, deliver]
  cases r.error with
  | none => simp [resume]
  | some e => simp [resume]

/-- **A call keeps the sheet in agreement with the printed text**, also if it fails. -/
theorem agrees_call [Memory] {x : Session} {v : Survey} (h : x.sheet.Agrees v) (c : Call) :
    (x.call c).2.sheet.Agrees (v.after (x.marks c)) := by
  rcases x.call_cases c with ⟨e, t, -, -, heq⟩ | ⟨scanner, r, hmoves, heq⟩
  · have hmarks : x.marks c = [.settings t] := by
      simp [marks, givesUp, printed, heq, resume, sheet, Formatter.withSettings,
        Printer.withSettings]
    rw [hmarks, heq]
    exact h.move (.settings x.sheet t)
  · obtain ⟨s', hs, hend⟩ := hmoves
    have hag := h.moves hs
    have hsheet : (x.call c).2.sheet = r.printer.sheet := by
      rw [heq, sheet, printer_deliver]
    have hlen : s'.lists.length = nesting x.sheet.lists.length (lexemesOf r.pieces) := by
      rw [hag.accounts.length_eq, Survey.length_lists_after_print, h.accounts.length_eq]
    have hgives : x.givesUp c = true ↔
        r.error ≠ none ∧ r.printer.sheet.lists.length < s'.lists.length := by
      rw [givesUp, hsheet, printed_of_deliver heq, ← hlen, heq, error_deliver]
      simp [Option.isSome_iff_ne_none]
    rw [marks, printed_of_deliver heq, Survey.after_append, Survey.after_append, hsheet]
    by_cases hg : x.givesUp c = true
    · -- one list fewer is open than the pieces leave open, so it has been given up
      obtain ⟨-, hlt⟩ := hgives.mp hg
      rcases hend with hend | ⟨-, hend⟩
      · rw [hend] at hlt
        exact absurd hlt (Nat.lt_irrefl _)
      · rw [if_pos hg, hend]
        exact (hag.move (.giveUp s')).move (.settings _ _)
    · have hsame : r.printer.sheet = s' := by
        rcases hend with hend | ⟨hne, hend⟩
        · exact hend
        · have hnil : s'.lists = [] := by
            cases hs' : s'.lists with
            | nil => rfl
            | cons o os => exact absurd (hgives.mpr ⟨hne, by simp [hend, hs']⟩) hg
          rw [hend, hnil, List.tail_nil, ← hnil]
      rw [if_neg hg, hsame]
      exact hag.move (.settings s' s'.settings)

theorem agrees_calls [Memory] {x : Session} {v : Survey} (h : x.sheet.Agrees v) (cs : List Call) :
    (x.calls cs).2.sheet.Agrees (v.after (x.history cs)) := by
  induction cs generalizing x v with
  | nil => exact h
  | cons c cs ih =>
    rw [calls_cons, history, Survey.after_append]
    exact ih (agrees_call h c)

theorem text_after_marks [Memory] (x : Session) (c : Call) (v : Survey) :
    (v.after (x.marks c)).text = v.text ++ textOf (x.printed c) := by
  rw [marks, Survey.after_append, ← v.text_after_print]
  split <;> rfl

/-- The survey has all that has been printed, delivered or not. -/
theorem text_after_history [Memory] {x : Session} {v : Survey} (done : List Piece)
    (h : v.text = textOf (done ++ x.undelivered)) (cs : List Call) :
    (v.after (x.history cs)).text =
      textOf (done ++ (x.calls cs).1 ++ (x.calls cs).2.undelivered) := by
  induction cs generalizing x v done with
  | nil => simpa [history] using h
  | cons c cs ih =>
    have hcall : (v.after (x.marks c)).text =
        textOf ((done ++ (x.call c).1) ++ (x.call c).2.undelivered) := by
      rw [text_after_marks, h, ← textOf_append, List.append_assoc, x.undelivered_append_printed c,
        List.append_assoc]
    rw [calls_cons, history, Survey.after_append, ih _ hcall]
    simp

theorem history_append [Memory] (x : Session) (cs ds : List Call) :
    x.history (cs ++ ds) = x.history cs ++ (x.calls cs).2.history ds := by
  induction cs generalizing x with
  | nil => rfl
  | cons c cs ih => rw [List.cons_append, history, ih, history, calls_cons, List.append_assoc]

end Session

/-! ## Lists that stay open -/

/-- The second listing is the first one later on. -/
structure Listing.Continues (f f' : Listing) : Prop where
  before_eq : f'.before = f.before
  settings_eq : f'.settings = f.settings
  first_eq : f.first ≠ .missing → f'.first = f.first

namespace Listing.Continues

theorem refl (f : Listing) : f.Continues f := ⟨rfl, rfl, fun _ => rfl⟩

theorem trans {f f' f'' : Listing} (h : f.Continues f') (h' : f'.Continues f'') : f.Continues f'' where
  before_eq := h'.before_eq.trans h.before_eq
  settings_eq := h'.settings_eq.trans h.settings_eq
  first_eq hne := (h'.first_eq (by rwa [h.first_eq hne])).trans (h.first_eq hne)

theorem addChild (f : Listing) (child : FirstChild) : f.Continues (f.addChild child) :=
  ⟨rfl, rfl, fun hne => FirstChild.orElse_of_ne_missing hne child⟩

end Listing.Continues

/-- Each list open in the second survey has been opened since the first, or was open there. -/
structure Survey.Continues (v v' : Survey) : Prop where
  length_le : v.text.length ≤ v'.text.length
  lists : ∀ f' ∈ v'.lists, v.text.length ≤ f'.before.length ∨ ∃ f ∈ v.lists, f.Continues f'

namespace Survey.Continues

theorem refl (v : Survey) : v.Continues v :=
  ⟨Nat.le_refl _, fun f hf => .inr ⟨f, hf, .refl f⟩⟩

theorem trans {v v' v'' : Survey} (h : v.Continues v') (h' : v'.Continues v'') : v.Continues v'' := by
  refine ⟨Nat.le_trans h.length_le h'.length_le, ?_⟩
  intro f'' hf''
  rcases h'.lists f'' hf'' with hnew | ⟨f', hf', hc'⟩
  · exact .inl (Nat.le_trans h.length_le hnew)
  · rcases h.lists f' hf' with hnew | ⟨f, hf, hc⟩
    · rw [← hc'.before_eq] at hnew
      exact .inl hnew
    · exact .inr ⟨f, hf, hc.trans hc'⟩

theorem modifyHead {fs : List Listing} {child : FirstChild} {f' : Listing}
    (h : f' ∈ fs.modifyHead (·.addChild child)) : ∃ f ∈ fs, f.Continues f' := by
  cases fs with
  | nil => exact absurd h (by simp)
  | cons f fs =>
    rw [List.modifyHead_cons] at h
    rcases List.mem_cons.mp h with rfl | h
    · exact ⟨f, List.mem_cons_self, .addChild f child⟩
    · exact ⟨f', List.mem_cons_of_mem f h, .refl f'⟩

/-- Only an opener adds a list, and it stands at the end of the text. -/
theorem next (v : Survey) (m : Mark) : v.Continues (v.next m) := by
  have htail : ∀ f' ∈ v.lists.tail, ∃ f ∈ v.lists, f.Continues f' := fun f' hf' =>
    ⟨f', List.mem_of_mem_tail hf', .refl f'⟩
  cases m with
  | print p =>
    cases p with
    | lexeme l =>
      refine ⟨by simp [Survey.next], ?_⟩
      intro f' hf'
      simp only [Survey.next, listsAfter] at hf'
      cases hl : l.role with
      | opener =>
        rw [hl] at hf'
        rcases List.mem_cons.mp hf' with rfl | hf'
        · exact .inl (Nat.le_refl _)
        · exact .inr (modifyHead hf')
      | atom =>
        rw [hl] at hf'
        exact .inr (modifyHead hf')
      | closer =>
        rw [hl] at hf'
        exact .inr (htail f' hf')
    | space => exact ⟨by simp [Survey.next], (refl v).lists⟩
    | lineBreak i => exact ⟨by simp [Survey.next], (refl v).lists⟩
  | giveUp => exact ⟨Nat.le_refl _, fun f' hf' => .inr (htail f' hf')⟩
  | settings t => exact ⟨Nat.le_refl _, (refl v).lists⟩

theorem after (v : Survey) (ms : List Mark) : v.Continues (v.after ms) := by
  induction ms generalizing v with
  | nil => exact refl v
  | cons m ms ih => exact (next v m).trans (ih _)

end Survey.Continues

/-- A list that stays open keeps its style, once it has one. -/
theorem Sheet.Agrees.style_eq {s s' : Sheet} {v v' : Survey} (h : s.Agrees v) (h' : s'.Agrees v')
    (hc : v.Continues v') {o o' : OpenList} {f f' : Listing} (hf : (o, f) ∈ s.lists.zip v.lists)
    (hf' : (o', f') ∈ s'.lists.zip v'.lists) (he : f'.before = f.before) (hne : o.style ≠ none) :
    o'.style = o.style := by
  obtain ⟨outer, ho⟩ := h.accounts.of_mem_zip hf
  obtain ⟨outer', ho'⟩ := h'.accounts.of_mem_zip hf'
  have hmem : f ∈ v.lists := (List.of_mem_zip hf).2
  rcases hc.lists f' (List.of_mem_zip hf').2 with hnew | ⟨f₀, hf₀, hcont⟩
  · have hlt := h.placed.length_lt (List.mem_map_of_mem hmem)
    rw [he] at hnew
    omega
  · obtain rfl : f₀ = f := h.placed.eq_of_before_eq hf₀ hmem (hcont.before_eq.symm.trans he)
    have hfirst : f₀.first ≠ .missing := by
      intro hmissing
      rw [ho.style_eq, hmissing] at hne
      exact hne rfl
    rw [ho'.style_eq, ho.style_eq, hcont.first_eq hfirst, hcont.settings_eq]

/-! ## The whole -/

theorem Cursor.column_advance_start (text : List Char) :
    (Cursor.advance {} text).column = (text.reverse.takeWhile (· ≠ '\n')).length := by
  induction text using List.reverseRecOn with
  | nil => rfl
  | append_singleton cs c ih =>
    rw [advance_append, advance_cons, advance_nil, next, List.reverse_concat]
    by_cases hc : c = '\n'
    · simp [hc]
    · simp [hc, ih]

/-- The survey after calls. -/
def surveyOf [Memory] (s : Settings) (cs : List Call) : Survey :=
  Survey.after { settings := s } ((Session.ofSettings s).history cs)

/-- **The place and the notes on open lists are right after every call.** The line is the number of
line breaks that have been written, the column the number of characters behind the last. The notes on
each open list agree with what has been written (`OpenList.Accounts`), every list but the innermost
has a child, and a list keeps its style, once it has one, for as long as it is open. -/
theorem open_lists_accounted [Memory] (s : Settings) (cs : List Call) :
    let r := (Session.ofSettings s).calls cs
    let v := surveyOf s cs
    let written := textOf (r.1 ++ r.2.undelivered)
    v.text = written ∧ (∀ f ∈ v.lists, f.before ++ ['('] <+: written) ∧
      r.2.sheet.cursor.line = written.count '\n' ∧
      r.2.sheet.cursor.column = (written.reverse.takeWhile (· ≠ '\n')).length ∧
      Accounts r.2.sheet.lists v.lists ∧
      (∀ o ∈ r.2.sheet.lists.tail, 1 ≤ o.children) ∧
      ∀ ds o f o' f',
        (o, f) ∈ r.2.sheet.lists.zip v.lists →
          (o', f') ∈ ((Session.ofSettings s).calls (cs ++ ds)).2.sheet.lists.zip
            (surveyOf s (cs ++ ds)).lists →
          f'.before = f.before → o.style ≠ none → o'.style = o.style := by
  intro r v written
  have hstart : (Session.ofSettings s).sheet.Agrees { settings := s } := by
    refine ⟨rfl, rfl, .nil, ?_, by simp, List.Pairwise.nil⟩
    intro o ho
    exact absurd ho (by simp [Session.sheet, Session.ofSettings, Formatter.ofSettings, Printer.ofSettings])
  have hagrees : r.2.sheet.Agrees v := Session.agrees_calls hstart cs
  have htext : v.text = written := Session.text_after_history [] rfl cs
  have hcursor := hagrees.cursor_eq
  rw [htext] at hcursor
  refine ⟨htext, ?_, ?_, ?_, hagrees.accounts, ?_, ?_⟩
  · intro f hf
    rw [← htext]
    exact hagrees.placed.opened _ (List.mem_map_of_mem hf)
  · rw [hcursor, Cursor.line_advance, Nat.zero_add]
  · rw [hcursor, Cursor.column_advance_start]
  · intro o ho
    exact Nat.pos_of_ne_zero (hagrees.outerBegun o ho)
  · intro ds o f o' f' hf hf' he hne
    have hlater := Session.agrees_calls hstart (cs ++ ds)
    have hcont : v.Continues (surveyOf s (cs ++ ds)) := by
      rw [surveyOf, Session.history_append, Survey.after_append]
      exact .after v _
    exact hagrees.style_eq hlater hcont hf hf' he hne

end SExprReflow
