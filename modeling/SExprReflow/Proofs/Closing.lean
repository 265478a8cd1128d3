import SExprReflow.Proofs.Wrapping

/-!
# Where lists close

The closer of a normal list starts a line if the list has come to span lines, and the closer of any
other list stands directly behind the last lexeme. To know which of the two it is the sheet
compares the line reached with the line that the list was opened on, so a line break counts
wherever in the list it comes from: between its children, inside a list nested in it, or inside a
string.

For a normal list it can be told from its children whether there is such a line break
(`Sheet.newline_mem_children_iff`). Only a first child that is a list has to be looked into, for it
is the one list among the children that does not start a line.
-/

namespace SExprReflow

open Piece

/-! ## Counting line breaks -/

/-- The line changes exactly if a line break is among the pieces. -/
theorem Cursor.line_advancePieces_ne_iff (k : Cursor) (ps : List Piece) :
    (k.advancePieces ps).line ≠ k.line ↔ '\n' ∈ textOf ps := by
  rw [advancePieces_eq, line_advance, ← List.count_pos_iff]
  omega

theorem newline_mem_of_multiline {ps : List Piece} {l : Lexeme} (hl : l ∈ lexemesOf ps)
    (hm : l.multiline = true) : '\n' ∈ textOf ps := by
  obtain ⟨p, hp, hlex⟩ := List.mem_filterMap.mp hl
  cases p with
  | lexeme x =>
    obtain rfl : x = l := Option.some.inj hlex
    have htext : '\n' ∈ x.text := by simpa [Lexeme.multiline] using hm
    exact List.mem_flatMap.mpr ⟨_, hp, htext⟩
  | space => exact absurd hlex (by simp [lexeme?])
  | lineBreak i => exact absurd hlex (by simp [lexeme?])

/-! ## The line breaks of a normal list -/

/-- Children of a normal list that do not go on the line behind `n` atoms: one of their atoms has a
line break, one of them is a list, or the atoms are too many. -/
def Overflows (c : Settings) (n : Nat) (ds : List Child) : Prop :=
  (∃ l ∈ lexemesOfChildren ds, l.multiline = true) ∨ (∃ d ∈ ds, d.isAtom = false) ∨
    c.wrapThreshold < n + ds.countP Child.isAtom

section

variable {c : Settings} {n : Nat} {ds : List Child}

theorem not_overflows_nil (h : n ≤ c.wrapThreshold) : ¬ Overflows c n [] := by
  have hfits : ¬ c.wrapThreshold < n := by omega
  simp [Overflows, hfits]

theorem overflows_list (body : List Lexeme) (hb : Balanced body) :
    Overflows c n (.list body hb :: ds) :=
  .inr (.inl ⟨_, List.mem_cons_self, rfl⟩)

theorem overflows_atom {text : List Char} :
    Overflows c n (.atom text :: ds) ↔ '\n' ∈ text ∨ Overflows c (n + 1) ds := by
  have hcount : n + (Child.atom text :: ds).countP Child.isAtom =
      n + 1 + ds.countP Child.isAtom := by
    rw [List.countP_cons_of_pos rfl]
    omega
  have hmulti : (Lexeme.atom text).multiline = true ↔ '\n' ∈ text := by
    simp [Lexeme.multiline, Lexeme.atom]
  simp [Overflows, hcount, Child.lexemes, hmulti, or_and_right, exists_or, or_assoc]

theorem overflows_of_lt (h : c.wrapThreshold < n) : Overflows c n ds :=
  .inr (.inr (by omega))

end

namespace Sheet

/-- What starts a line begins with a line break. -/
theorem newline_mem_printBefore_of_line {s : Sheet} {l : Lexeme} {xs ys : List Lexeme}
    (hg : s.gapAhead l (xs ++ ys) = .line) : '\n' ∈ textOf (s.printBefore ys (l :: xs)).1 := by
  rw [printBefore, hg, textOf_append]
  refine List.mem_append_left _ ?_
  cases hl : l.role <;> simp [pieces, hl, gapPieces, lineBreak, Piece.text]

theorem textOf_printBefore_atom (s : Sheet) (text : List Char) (ys : List Lexeme) :
    textOf (s.printBefore ys [.atom text]).1 =
      (s.gapAhead (.atom text) ys).text s.settings s.lists.length ++ text := by
  simp [printBefore, pieces, Lexeme.atom, textOf_gapPieces, Piece.text]

/-- **Line breaks behind the first child of a normal list**, as long as there has been none. -/
theorem newline_mem_further_iff {c : Settings} {cs : List Child} {s : Sheet} {o : OpenList}
    {os : List OpenList} (hs : s.lists = o :: os) (h : o.Wraps c cs) (hne : cs ≠ [])
    (hroom : endingAtoms cs ≤ c.wrapThreshold) (ds : List Child) (ys : List Lexeme) :
    '\n' ∈ textOf (s.printBefore ys (lexemesOfChildren ds)).1 ↔
      Overflows c (endingAtoms cs) ds := by
  induction ds generalizing cs s o with
  | nil => simp [printBefore, not_overflows_nil hroom]
  | cons d ds ih =>
    have hempty : cs.isEmpty = false := by simpa using hne
    rw [lexemesOfChildren_cons, printBefore_append, textOf_append, List.mem_append]
    cases d with
    | list body hb =>
      -- a list starts a line
      have hg : s.gapAhead .opener (body ++ [.closer] ++ (lexemesOfChildren ds ++ ys)) = .line := by
        rw [gapAhead_of_wraps hs h (by simp [Lexeme.opener])]
        simp [wrapGap, hempty, Lexeme.opener]
      have hline := newline_mem_printBefore_of_line hg
      simp [Child.lexemes, hline, overflows_list]
    | atom text =>
      have hg := gapAhead_of_wraps hs h (l := .atom text) (by simp [Lexeme.atom])
        (lexemesOfChildren ds ++ ys)
      rw [Child.lexemes, textOf_printBefore_atom, hg, overflows_atom]
      by_cases hfull : endingAtoms cs = c.wrapThreshold
      · -- the line is full, so the atom starts another
        have hline : wrapGap c cs (.atom text) = .line := by
          simp [wrapGap, hempty, hfull, c.wrapThreshold_pos]
        have hover : Overflows c (endingAtoms cs + 1) ds := overflows_of_lt (by omega)
        simp [hline, Gap.text, hover]
      · have hspace : wrapGap c cs (.atom text) = .space := by
          have hnot : ¬ (0 < endingAtoms cs ∧ c.wrapThreshold ∣ endingAtoms cs) := by
            rintro ⟨hpos, hdvd⟩
            have hle := Nat.le_of_dvd hpos hdvd
            omega
          simp [wrapGap, hempty, hnot, Lexeme.atom]
        have hlists := s.lists_put_atom (wrapGap c cs (.atom text)) (l := .atom text) rfl
        rw [hs, List.modifyHead_cons] at hlists
        have hrest := ih hlists (h.afterAtom fun hnil => absurd hnil hne) (by simp)
          (by rw [endingAtoms_concat_atom]; omega)
        have hput : (s.printBefore (lexemesOfChildren ds ++ ys) [.atom text]).2 =
            s.put (wrapGap c cs (.atom text)) (.atom text) := by
          simp [printBefore, hg]
        rw [hput, hrest, endingAtoms_concat_atom, hspace]
        simp [Gap.text]

/-- **The line breaks of a normal list.** A first child that is a list may have some of its own. -/
theorem newline_mem_children_iff {c : Settings} {cs : List Child} {s : Sheet} {o : OpenList}
    {os : List OpenList} (hs : s.lists = o :: os) (h : o.Wraps c [])
    (hstyle : listStyle c cs = .normal) (ys : List Lexeme) :
    '\n' ∈ textOf (s.printBefore ys (lexemesOfChildren cs)).1 ↔
      (∃ l ∈ lexemesOfChildren cs, l.multiline = true) ∨ (∃ d ∈ cs.tail, d.isAtom = false) ∨
        c.wrapThreshold < cs.countP Child.isAtom ∨
        ∃ body hb ds, cs = .list body hb :: ds ∧
          '\n' ∈ textOf (s.printBefore (lexemesOfChildren ds ++ ys)
            (.opener :: (body ++ [.closer]))).1 := by
  cases cs with
  | nil => simp [printBefore]
  | cons d ds =>
    rw [lexemesOfChildren_cons, printBefore_append, textOf_append, List.mem_append]
    cases d with
    | atom text =>
      have hg := gapAhead_of_wraps hs h (l := .atom text) (by simp [Lexeme.atom])
        (lexemesOfChildren ds ++ ys)
      have hlists := s.lists_put_atom (wrapGap c [] (.atom text)) (l := .atom text) rfl
      rw [hs, List.modifyHead_cons] at hlists
      have hput : (s.printBefore (lexemesOfChildren ds ++ ys) [.atom text]).2 =
          s.put (wrapGap c [] (.atom text)) (.atom text) := by
        simp [printBefore, hg]
      have hrest := newline_mem_further_iff hlists (h.afterAtom fun _ => hstyle) (by simp)
        c.wrapThreshold_pos ds ys
      have hall : '\n' ∈ text ∨ Overflows c 1 ds ↔ Overflows c 0 (.atom text :: ds) :=
        overflows_atom.symm
      rw [endingAtoms_concat_atom, endingAtoms_nil] at hrest
      rw [Child.lexemes, textOf_printBefore_atom, hput, hrest, hg]
      simpa [wrapGap, Gap.text, Overflows, Child.lexemes] using hall
    | list body hb =>
      have hlists := hb.staysInside.lists_list hs (lexemesOfChildren ds ++ ys)
      have hrest := newline_mem_further_iff hlists (h.afterList body hb) (by simp)
        (Nat.zero_le _) ds ys
      have hproper := (Child.list body hb).balanced.proper
      have hlexemes := s.lexemesOf_printBefore hproper (lexemesOfChildren ds ++ ys)
      rw [endingAtoms_concat_list] at hrest
      rw [Child.lexemes] at hlexemes ⊢
      rw [hrest]
      constructor
      · rintro (hown | ⟨l, hl, hm⟩ | hlist | hmany)
        · exact .inr (.inr (.inr ⟨body, hb, ds, rfl, hown⟩))
        · exact .inl ⟨l, List.mem_append_right _ hl, hm⟩
        · exact .inr (.inl hlist)
        · exact .inr (.inr (.inl (by simpa using hmany)))
      · rintro (⟨l, hl, hm⟩ | hlist | hmany | ⟨body', hb', ds', heq, hown⟩)
        · rcases List.mem_append.mp hl with hl | hl
          · exact .inl (newline_mem_of_multiline (by rwa [hlexemes]) hm)
          · exact .inr (.inl ⟨l, hl, hm⟩)
        · exact .inr (.inr (.inl hlist))
        · exact .inr (.inr (.inr (by simpa using hmany)))
        · obtain ⟨hchild, rfl⟩ := List.cons.inj heq
          obtain rfl : body = body' := by simpa using hchild
          exact .inl hown

end Sheet

/-! ## Closers in a text -/

/-- An open list that is as it follows from its first child closes on a new line if it is normal,
not inside a shortform list, and has come to span lines. -/
theorem OpenList.Mirrors.closesOnNewLine_iff {c : Settings} {fs : List FirstChild} {o : OpenList}
    {cs : List Child} (h : o.Mirrors c fs (firstChild cs)) (line : Nat) :
    o.closesOnNewLine line = true ↔
      listStyle c cs = .normal ∧ ¬ AnyShortform c fs ∧ line ≠ o.openedOn := by
  have hone : o.onOneLine = false ↔ ¬ AnyShortform c (firstChild cs :: fs) := by
    rw [← h.onOneLine_eq, Bool.not_eq_true]
  rw [anyShortform_cons] at hone
  unfold closesOnNewLine listStyle
  rw [h.style_eq]
  cases hstyle : (firstChild cs).style c with
  | none => simp [hone, hstyle]
  | some st => cases st <;> simp [hone, hstyle]

section

variable {text : List Char} {before after : List Lexeme} {cs : List Child}

/-- **Where a closer goes.** -/
theorem gapAt_closer (s : Settings) (h : lexemes text = before ++ completeList cs ++ after) :
    gapAt (placeBehind before cs) (reflowPieces s text) =
      if listStyle s cs = .normal ∧ ¬ AnyShortform s (enclosing before) ∧
          '\n' ∈ textOf (segmentAt before.length ((lexemesOfChildren cs).length + 1)
            (reflowPieces s text)) then
        [.lineBreak (s.indent (nesting 0 before))]
      else [] := by
  have hcut := h.trans (append_completeList before cs after)
  obtain ⟨o, os, hlists, ho⟩ := exists_lists_sheetAt s before cs (.closer :: after)
  have hdepth := length_lists_sheetAt s (before ++ .opener :: lexemesOfChildren cs)
    (.closer :: after)
  rw [nesting_children, hlists, List.length_cons, Nat.add_right_cancel_iff] at hdepth
  -- the list still has the line that it was opened on
  obtain ⟨os', hopened⟩ := exists_lists_opened s before (lexemesOfChildren cs ++ .closer :: after)
  obtain ⟨o', hlists', hline⟩ := (balanced_lexemesOfChildren cs).staysInside _ _ _
    (.closer :: after) hopened
  rw [← sheetAt_children, hlists] at hlists'
  obtain ⟨rfl, -⟩ := List.cons.inj hlists'
  have hspans : (sheetAt s (before ++ .opener :: lexemesOfChildren cs)
      (.closer :: after)).cursor.line ≠ o.openedOn ↔
        '\n' ∈ textOf (segmentAt before.length ((lexemesOfChildren cs).length + 1)
          (reflowPieces s text)) := by
    rw [hline, sheetAt_children, Sheet.cursor_printBefore, Cursor.line_advancePieces_ne_iff,
      segmentAt_children s hcut]
    simp [Piece.text, Lexeme.opener]
  have hcloses := ho.closesOnNewLine_iff (sheetAt s (before ++ .opener :: lexemesOfChildren cs)
    (.closer :: after)).cursor.line
  rw [hspans, anyShortform_modifyHead] at hcloses
  rw [gapAt_children s hcut, Sheet.gapBefore_closer hlists, hdepth]
  simp only [hcloses, Sheet.lineBreak, settings_sheetAt]

/-- The closer is no reason for a list to span lines. -/
theorem newline_mem_completeList_iff (s : Settings)
    (h : lexemes text = before ++ completeList cs ++ after) :
    '\n' ∈ textOf (segmentAt before.length (completeList cs).length (reflowPieces s text)) ↔
      '\n' ∈ textOf (segmentAt before.length ((lexemesOfChildren cs).length + 1)
        (reflowPieces s text)) := by
  rw [segmentAt_completeList s h, gapAt_closer s h, textOf_append, textOf_append, List.mem_append,
    List.mem_append]
  have hcloser : '\n' ∉ textOf [.lexeme .closer] := by decide
  constructor
  · rintro ((hbody | hgap) | hclose)
    · exact hbody
    · split at hgap
      · next hspans => exact hspans.2.2
      · exact absurd hgap (by simp)
    · exact absurd hclose hcloser
  · exact fun hbody => .inl (.inl hbody)

/-- A first child that is a list, in the text and on the sheet. -/
theorem segmentAt_firstChild (s : Settings) {body : List Lexeme} {hb : Balanced body}
    {ds : List Child} (h : lexemes text = before ++ completeList (.list body hb :: ds) ++ after) :
    segmentAt (before.length + 1) (body.length + 2) (reflowPieces s text) =
      ((sheetAt s (before ++ [.opener]) (lexemesOfChildren (.list body hb :: ds) ++
        .closer :: after)).printBefore (lexemesOfChildren ds ++ .closer :: after)
          (.opener :: (body ++ [.closer]))).1 := by
  have hcut : lexemes text = before ++ [.opener] ++
      .opener :: (body ++ [.closer] ++ (lexemesOfChildren ds ++ .closer :: after)) := by
    simp [h, completeList, Child.lexemes]
  have hsame : lexemesOfChildren (.list body hb :: ds) ++ .closer :: after =
      .opener :: (body ++ [.closer] ++ (lexemesOfChildren ds ++ .closer :: after)) := by
    simp [Child.lexemes]
  have hlist : Balanced (.opener :: (body ++ [.closer])) := .list hb .nil
  have hin : nesting 0 (before ++ [.opener] ++ .opener :: (body ++ [.closer])) ≠ 0 := by
    rw [nesting_append, hlist.nesting_eq, nesting_append]
    exact Nat.succ_ne_zero _
  have hseg := segmentAt_reflowPieces s hcut hin
  rw [List.length_append, List.length_append] at hseg
  -- the child hugs the opener of the list that it stands in
  have hg := (behind_sheetAt s before .opener (.opener ::
    (body ++ [.closer] ++ (lexemesOfChildren ds ++ .closer :: after)))).gapAhead_eq_hug rfl
    .opener (body ++ [.closer] ++ (lexemesOfChildren ds ++ .closer :: after))
  refine hseg.trans ?_
  rw [hsame, Sheet.printBefore, hg, sheetAt_concat, hg]
  rfl

/-- **The line breaks of a normal list in a text**, told by its children. -/
theorem newline_mem_normal_iff (s : Settings)
    (h : lexemes text = before ++ completeList cs ++ after)
    (hbefore : ¬ AnyShortform s (enclosing before)) (hstyle : listStyle s cs = .normal) :
    '\n' ∈ textOf (segmentAt before.length (completeList cs).length (reflowPieces s text)) ↔
      (∃ l ∈ lexemesOfChildren cs, l.multiline = true) ∨ (∃ d ∈ cs.tail, d.isAtom = false) ∨
        s.wrapThreshold < cs.countP Child.isAtom ∨
        ∃ body hb ds, cs = .list body hb :: ds ∧
          '\n' ∈ textOf (segmentAt (before.length + 1) (body.length + 2)
            (reflowPieces s text)) := by
  have hcut := h.trans (append_completeList before cs after)
  obtain ⟨os, hlists⟩ := exists_lists_opened s before (lexemesOfChildren cs ++ .closer :: after)
  have hchildren := Sheet.newline_mem_children_iff hlists (.opened hbefore _) hstyle
    (.closer :: after)
  have hopener : '\n' ∉ Lexeme.opener.text := by decide
  -- a first child that is a list has the same line breaks in the text and on the sheet
  have hfirst : ∀ body hb ds, cs = .list body hb :: ds →
      segmentAt (before.length + 1) (body.length + 2) (reflowPieces s text) =
        ((sheetAt s (before ++ [.opener]) (lexemesOfChildren cs ++ .closer :: after)).printBefore
          (lexemesOfChildren ds ++ .closer :: after) (.opener :: (body ++ [.closer]))).1 := by
    rintro body hb ds rfl
    exact segmentAt_firstChild s h
  rw [newline_mem_completeList_iff s h, segmentAt_children s hcut, textOf_cons, List.mem_append,
    Piece.text, or_iff_right hopener, hchildren]
  refine or_congr_right (or_congr_right (or_congr_right ?_))
  constructor
  · rintro ⟨body, hb, ds, hcs, hmem⟩
    exact ⟨body, hb, ds, hcs, by rwa [hfirst body hb ds hcs]⟩
  · rintro ⟨body, hb, ds, hcs, hmem⟩
    exact ⟨body, hb, ds, hcs, by rwa [hfirst body hb ds hcs] at hmem⟩

end

/-- **Where lists close.** The closer of a complete list somewhere in a text starts a line,
indented for the lists around it, if the list is normal, not inside a shortform list, and has a
line break before its closer. In all other cases the closer stands directly behind the last lexeme.
The closer itself is no reason for a list to span lines. A normal list does so if an atom in it has
a line break, if a child other than the first is a list, if it has more atoms than go on a line, or
if its first child is a list that spans lines. -/
theorem closer_on_new_line_iff [Memory] (s : Settings) (text : List Char)
    (before after : List Lexeme) (cs : List Child)
    (htext : lexemes text = before ++ completeList cs ++ after) :
    gapAt (placeBehind before cs) (reflowPieces s text) =
        (if listStyle s cs = .normal ∧ ¬ AnyShortform s (enclosing before) ∧
            '\n' ∈ textOf (segmentAt before.length ((lexemesOfChildren cs).length + 1)
              (reflowPieces s text)) then
          [.lineBreak (s.indent (nesting 0 before))]
        else []) ∧
      ('\n' ∈ textOf (segmentAt before.length (completeList cs).length (reflowPieces s text)) ↔
        '\n' ∈ textOf (segmentAt before.length ((lexemesOfChildren cs).length + 1)
          (reflowPieces s text))) ∧
      (listStyle s cs = .normal → ¬ AnyShortform s (enclosing before) →
        ('\n' ∈ textOf (segmentAt before.length (completeList cs).length (reflowPieces s text)) ↔
          (∃ l ∈ lexemesOfChildren cs, l.multiline = true) ∨ (∃ c ∈ cs.tail, c.isAtom = false) ∨
            s.wrapThreshold < cs.countP Child.isAtom ∨
            ∃ body hb ds, cs = .list body hb :: ds ∧
              '\n' ∈ textOf (segmentAt (before.length + 1) (body.length + 2)
                (reflowPieces s text)))) ∧
      lexemesOf (reflowPieces s text) = lexemes text ∧
      (reflowWithin s text).result = text? (reflowPieces s text) :=
  ⟨gapAt_closer s htext, newline_mem_completeList_iff s htext,
    fun hstyle hbefore => newline_mem_normal_iff s htext hbefore hstyle,
    lexemesOf_reflowPieces s text, result_reflowWithin s text⟩

/-- In `(a ((b c d) e))` the list `((b c d) e)`, which spans lines because its first child does. -/
theorem closer_on_new_line_inPairs :
    lexemes "(a ((b c d) e))".toList =
        [.opener, .atom ['a']] ++
          completeList [.list [.atom ['b'], .atom ['c'], .atom ['d']]
            (.atom rfl (.atom rfl (.atom rfl .nil))), .atom ['e']] ++ [.closer] ∧
      gapAt 9 (reflowPieces inPairs "(a ((b c d) e))".toList) = [.lineBreak ⟨.tab, 1⟩] := by
  have htext : lexemes "(a ((b c d) e))".toList =
      [.opener, .atom ['a']] ++
        completeList [.list [.atom ['b'], .atom ['c'], .atom ['d']]
          (.atom rfl (.atom rfl (.atom rfl .nil))), .atom ['e']] ++ [.closer] := by decide
  have hinner : lexemes "(a ((b c d) e))".toList =
      [.opener, .atom ['a'], .opener] ++
        completeList [.atom ['b'], .atom ['c'], .atom ['d']] ++
        [.atom ['e'], .closer, .closer] := by decide
  have hchild := @closer_on_new_line_iff .small inPairs _ _ _ _ hinner
  have hlist := @closer_on_new_line_iff .small inPairs _ _ _ _ htext
  have hspans := (hchild.2.2.1 (by decide) (by decide)).mpr (.inr (.inr (.inl (by decide))))
  have hbreak := hlist.2.1.mp ((hlist.2.2.1 (by decide) (by decide)).mpr
    (.inr (.inr (.inr ⟨_, _, _, rfl, hspans⟩))))
  exact ⟨htext, hlist.1.trans (if_pos ⟨by decide, by decide, hbreak⟩)⟩

end SExprReflow
