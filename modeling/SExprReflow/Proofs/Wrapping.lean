import SExprReflow.Proofs.Children
import SExprReflow.Proofs.Within

/-!
# How normal lists wrap

In a normal list every child that is a list starts a line, and atoms that follow one another share
lines, as many as the wrap threshold says. The printer decides this by counting the atoms on the
line (`OpenList.streak`). What comes of it can be said without the counter: of the atoms that
follow one another, those at the multiples of the threshold start a line.

`endingAtoms` counts the atoms that the children so far end with, so it is the number of the next
atom among those that follow one another. `OpenList.Wraps` ties the counter to it, child by child.
-/

namespace SExprReflow

open Piece

/-! ## Atoms on lines -/

/-- The number of atoms at the end of some children. -/
def endingAtoms (cs : List Child) : Nat := (cs.reverse.takeWhile Child.isAtom).length

@[simp] theorem endingAtoms_nil : endingAtoms [] = 0 := rfl

@[simp] theorem endingAtoms_concat_atom (cs : List Child) (text : List Char) :
    endingAtoms (cs ++ [.atom text]) = endingAtoms cs + 1 := by
  simp [endingAtoms, List.takeWhile_cons]

@[simp] theorem endingAtoms_concat_list (cs : List Child) (body : List Lexeme)
    (hb : Balanced body) : endingAtoms (cs ++ [.list body hb]) = 0 := by
  simp [endingAtoms]

theorem endingAtoms_append_atoms (cs : List Child) (as : List (List Char)) :
    endingAtoms (cs ++ as.map .atom) = endingAtoms cs + as.length := by
  induction as generalizing cs with
  | nil => simp
  | cons a as ih =>
    have hsplit : cs ++ (a :: as).map Child.atom = cs ++ [.atom a] ++ as.map .atom := by simp
    rw [hsplit, ih, endingAtoms_concat_atom, List.length_cons]
    omega

/-- Of `n` things put on lines of `w`, `r` are on the last line. -/
structure OnLastLine (w n r : Nat) : Prop where
  le : r ≤ w
  exists_eq : ∃ q, n = q * w + r
  eq_zero : r = 0 → n = 0

namespace OnLastLine

variable {w n r : Nat}

theorem zero (w : Nat) : OnLastLine w 0 0 where
  le := Nat.zero_le w
  exists_eq := ⟨0, by simp⟩
  eq_zero _ := rfl

theorem eq_zero_of_zero (h : OnLastLine w 0 r) : r = 0 := by
  obtain ⟨q, hq⟩ := h.exists_eq
  omega

/-- The last line is full at the multiples of `w`. -/
theorem lt_iff (h : OnLastLine w n r) (hw : 0 < w) : r < w ↔ ¬ (0 < n ∧ w ∣ n) := by
  obtain ⟨hle, ⟨q, rfl⟩, hzero⟩ := h
  have hdvd : w ∣ q * w + r ↔ w ∣ r := Nat.dvd_add_right (Nat.dvd_mul_left w q)
  rw [hdvd]
  constructor
  · rintro hlt ⟨hpos, hr⟩
    have hempty := hzero (Nat.eq_zero_of_dvd_of_lt hr hlt)
    omega
  · intro hno
    by_contra hge
    obtain rfl : r = w := by omega
    exact hno ⟨by omega, Nat.dvd_refl r⟩

theorem next (h : OnLastLine w n r) (hw : 0 < w) :
    OnLastLine w (n + 1) (if r < w then r + 1 else 1) := by
  obtain ⟨hle, ⟨q, rfl⟩, -⟩ := h
  split
  · exact ⟨by omega, ⟨q, by omega⟩, by omega⟩
  · obtain rfl : r = w := by omega
    exact ⟨hw, ⟨q + 1, by rw [Nat.add_mul, Nat.one_mul]⟩, by omega⟩

end OnLastLine

/-! ## The counter -/

/-- What goes before a lexeme that begins a child of a normal list, behind the children `cs`. -/
def wrapGap (c : Settings) (cs : List Child) (l : Lexeme) : Gap :=
  if cs.isEmpty then .hug
  else if l.role = .opener ∨ 0 < endingAtoms cs ∧ c.wrapThreshold ∣ endingAtoms cs then .line
  else .space

/-- An open list is normal, may take several lines, and has the children `cs` so far. -/
structure OpenList.Wraps (c : Settings) (cs : List Child) (o : OpenList) : Prop where
  settings_eq : o.settings = c
  onOneLine_eq : o.onOneLine = false
  style_eq : cs ≠ [] → o.style = some .normal
  children_eq_zero : o.children = 0 ↔ cs = []
  streak : OnLastLine c.wrapThreshold (endingAtoms cs) o.streak

namespace OpenList.Wraps

variable {c : Settings} {cs : List Child} {o : OpenList}

/-- A list that has just been opened, not inside a shortform list. -/
theorem opened {fs : List FirstChild} (h : ¬ AnyShortform c fs) (line : Nat) :
    Wraps c []
      { settings := c, openedOn := line, onOneLine := decide (AnyShortform c fs) } where
  settings_eq := rfl
  onOneLine_eq := by simp [h]
  style_eq hne := absurd rfl hne
  children_eq_zero := by simp
  streak := .zero _

theorem afterAtom (h : o.Wraps c cs) {text : List Char}
    (hstyle : cs = [] → c.styleOf text = .normal) :
    (o.afterAtom (wrapGap c cs (.atom text)) text).Wraps c (cs ++ [.atom text]) := by
  obtain ⟨hset, hone, hnormal, hzero, hstreak⟩ := h
  have hpos := c.wrapThreshold_pos
  by_cases hcs : cs = []
  · subst hcs
    have hz : o.children = 0 := hzero.mpr rfl
    refine ⟨by simp [hset], ?_, fun _ => ?_, by simp [children_afterAtom], ?_⟩
    · simp [onOneLine_afterAtom, hone, hset, hstyle rfl]
    · simp [style_afterAtom, hz, hset, hstyle rfl]
    · have hs : (o.afterAtom (wrapGap c [] (.atom text)) text).streak = 1 := by
        simp [OpenList.afterAtom, hz]
      rw [hs, endingAtoms_concat_atom, endingAtoms_nil]
      exact ⟨hpos, ⟨0, by omega⟩, by omega⟩
  · have hz : o.children ≠ 0 := fun hz => hcs (hzero.mp hz)
    have hcount : o.counts = true := by simp [counts, hone, hnormal hcs]
    refine ⟨by simp [hset], ?_, fun _ => ?_, by simp [children_afterAtom], ?_⟩
    · simp [onOneLine_afterAtom, hone, hz]
    · simp [style_afterAtom, hz, hnormal hcs]
    · have hg : wrapGap c cs (.atom text) = .line ↔ ¬ o.streak < c.wrapThreshold := by
        rw [hstreak.lt_iff hpos, not_not]
        simp [wrapGap, hcs, Lexeme.atom]
      have hs : (o.afterAtom (wrapGap c cs (.atom text)) text).streak =
          if o.streak < c.wrapThreshold then o.streak + 1 else 1 := by
        simp only [OpenList.afterAtom, hz, hcount, if_false, if_true, hg]
        split <;> simp_all
      rw [hs, endingAtoms_concat_atom]
      exact hstreak.next hpos

theorem afterList (h : o.Wraps c cs) (body : List Lexeme) (hb : Balanced body) :
    o.afterList.Wraps c (cs ++ [.list body hb]) := by
  obtain ⟨hset, hone, hnormal, hzero, hstreak⟩ := h
  refine ⟨by simp [hset], by simp [hone], fun _ => ?_, by simp [children_afterList], ?_⟩
  · by_cases hcs : cs = []
    · simp [style_afterList, hzero.mpr hcs]
    · have hz : o.children ≠ 0 := fun hz => hcs (hzero.mp hz)
      simp [style_afterList, hz, hnormal hcs]
  · have hs : o.afterList.streak = 0 := by
      by_cases hcs : cs = []
      · subst hcs
        simp [OpenList.afterList, hzero.mpr rfl, settleStyle, hstreak.eq_zero_of_zero]
      · have hz : o.children ≠ 0 := fun hz => hcs (hzero.mp hz)
        simp [OpenList.afterList, hz, counts, hone, hnormal hcs]
    rw [hs, endingAtoms_concat_list]
    exact .zero _

end OpenList.Wraps

/-- The gap that the counter chooses. -/
theorem Sheet.gapAhead_of_wraps {c : Settings} {cs : List Child} {s : Sheet} {o : OpenList}
    {os : List OpenList} (hs : s.lists = o :: os) (h : o.Wraps c cs) {l : Lexeme}
    (hl : l.role ≠ .closer) (after : List Lexeme) : s.gapAhead l after = wrapGap c cs l := by
  obtain ⟨hset, hone, hnormal, hzero, hstreak⟩ := h
  by_cases hcs : cs = []
  · have hz : o.children = 0 := hzero.mpr hcs
    cases hr : l.role with
    | closer => exact absurd hr hl
    | opener => simp [gapAhead, gap?, wrapGap, hs, hr, hz, hcs]
    | atom => simp [gapAhead, gap?, wrapGap, hs, hr, hz, hcs]
  · have hz : o.children ≠ 0 := fun hz => hcs (hzero.mp hz)
    cases hr : l.role with
    | closer => exact absurd hr hl
    | opener => simp [gapAhead, gap?, wrapGap, hs, hr, hz, hcs, hone, hnormal hcs]
    | atom =>
      have hlt := hstreak.lt_iff c.wrapThreshold_pos
      have hg : s.gapAhead l after = if o.streak < c.wrapThreshold then .space else .line := by
        simp [gapAhead, gap?, hs, hr, hz, hone, hnormal hcs, hset]
      by_cases hfull : 0 < endingAtoms cs ∧ c.wrapThreshold ∣ endingAtoms cs
      · rw [hg, if_neg fun h => hlt.mp h hfull]
        simp [wrapGap, hcs, hfull]
      · rw [hg, if_pos (hlt.mpr hfull)]
        simp [wrapGap, hcs, hr, hfull]

/-- **Printing children keeps the counter right.** -/
theorem Sheet.wraps_children {c : Settings} {cs ds : List Child} {s : Sheet} {o : OpenList}
    {os : List OpenList} (hs : s.lists = o :: os) (h : o.Wraps c cs)
    (hstyle : listStyle c (cs ++ ds) = .normal) (ys : List Lexeme) :
    ∃ o', (s.printBefore ys (lexemesOfChildren ds)).2.lists = o' :: os ∧ o'.Wraps c (cs ++ ds) := by
  induction ds generalizing cs s o with
  | nil => exact ⟨o, hs, by simpa using h⟩
  | cons d ds ih =>
    have hsplit : cs ++ d :: ds = cs ++ [d] ++ ds := by simp
    rw [hsplit] at hstyle ⊢
    rw [lexemesOfChildren_cons, printBefore_append]
    cases d with
    | atom text =>
      have hg := gapAhead_of_wraps hs h (l := .atom text) (by simp [Lexeme.atom])
        (lexemesOfChildren ds ++ ys)
      have hlists := s.lists_put_atom (wrapGap c cs (.atom text)) (l := .atom text) rfl
      rw [hs, List.modifyHead_cons] at hlists
      have hfirst : cs = [] → c.styleOf text = .normal := by
        rintro rfl
        simpa [listStyle, firstChild, FirstChild.style] using hstyle
      have hput : ((s.printBefore (lexemesOfChildren ds ++ ys) (Child.atom text).lexemes).2) =
          s.put (wrapGap c cs (.atom text)) (.atom text) := by
        simp [Child.lexemes, printBefore, hg]
      exact ih (hput ▸ hlists) (h.afterAtom hfirst) hstyle
    | list body hb =>
      have hlists := hb.staysInside.lists_list hs (lexemesOfChildren ds ++ ys)
      exact ih hlists (h.afterList body hb) hstyle

/-! ## Normal lists in a text -/

section

variable {text : List Char} {before : List Lexeme}

/-- The list that the children stand in, behind some of them. -/
theorem exists_wraps_sheetAt (s : Settings) (hbefore : ¬ AnyShortform s (enclosing before))
    {cs : List Child} (hstyle : listStyle s cs = .normal) (rest : List Lexeme) :
    ∃ o os, (sheetAt s (before ++ .opener :: lexemesOfChildren cs) rest).lists = o :: os ∧
      o.Wraps s cs := by
  obtain ⟨os, hlists⟩ := exists_lists_opened s before (lexemesOfChildren cs ++ rest)
  obtain ⟨o, hlists', ho⟩ := Sheet.wraps_children hlists (.opened hbefore _) hstyle rest
  rw [sheetAt_children]
  exact ⟨o, os, hlists', ho⟩

/-- **The gaps of a normal list** follow from the children before them. -/
theorem gapAt_of_normal (s : Settings) (hbefore : ¬ AnyShortform s (enclosing before))
    {cs : List Child} {l : Lexeme} {after : List Lexeme}
    (htext : lexemes text = before ++ .opener :: (lexemesOfChildren cs ++ l :: after))
    (hl : l.role ≠ .closer) (hstyle : listStyle s cs = .normal) :
    gapAt (placeBehind before cs) (reflowPieces s text) =
      if cs.isEmpty then []
      else if l.role = .opener ∨ 0 < endingAtoms cs ∧ s.wrapThreshold ∣ endingAtoms cs then
        [.lineBreak (s.indent (nesting 0 before + 1))]
      else [.space] := by
  obtain ⟨o, os, hlists, ho⟩ := exists_wraps_sheetAt s hbefore hstyle (l :: after)
  have hdepth := length_lists_sheetAt s (before ++ .opener :: lexemesOfChildren cs) (l :: after)
  rw [nesting_children] at hdepth
  rw [gapAt_children s htext, Sheet.gapBefore, Sheet.gapAhead_of_wraps hlists ho hl,
    Sheet.gapDepth, if_neg hl, hdepth, wrapGap]
  split
  · rfl
  · split
    · simp [Sheet.gapPieces, Sheet.lineBreak]
    · rfl

theorem listStyle_of_append {c : Settings} {cs ds : List Child}
    (h : listStyle c (cs ++ ds) = .normal) : listStyle c cs = .normal := by
  cases cs with
  | nil => rfl
  | cons d cs =>
    cases d with
    | atom text => exact h
    | list body hb => exact h

theorem lexemesOfChildren_atoms (as : List (List Char)) :
    lexemesOfChildren (as.map .atom) = as.map Lexeme.atom := by
  induction as with
  | nil => rfl
  | cons a as ih => simp [Child.lexemes, ih]

/-- The gaps between atoms that follow one another. -/
theorem gapAt_of_atoms (s : Settings) (hbefore : ¬ AnyShortform s (enclosing before))
    {cs : List Child} {as : List (List Char)} {after : List Lexeme}
    (htext : lexemes text =
      before ++ .opener :: (lexemesOfChildren (cs ++ as.map .atom) ++ after))
    (hstyle : listStyle s (cs ++ as.map .atom) = .normal) {j : Nat} (hpos : 0 < j)
    (hj : j < as.length) :
    gapAt (placeBehind before cs + j) (reflowPieces s text) =
      if s.wrapThreshold ∣ endingAtoms cs + j then
        [.lineBreak (s.indent (nesting 0 before + 1))]
      else [.space] := by
  have hsplit : as = as.take j ++ as[j] :: as.drop (j + 1) := by simp
  have hcut : cs ++ as.map .atom =
      cs ++ (as.take j).map .atom ++ .atom as[j] :: (as.drop (j + 1)).map .atom := by
    rw [List.append_assoc, ← List.map_cons, ← List.map_append, ← hsplit]
  have hlen : (as.take j).length = j := List.length_take_of_le (by omega)
  have hat : lexemes text = before ++ .opener :: (lexemesOfChildren (cs ++ (as.take j).map .atom) ++
      .atom as[j] :: (lexemesOfChildren ((as.drop (j + 1)).map .atom) ++ after)) := by
    rw [htext, hcut]
    simp [Child.lexemes]
  have hgap := gapAt_of_normal s hbefore hat (by simp [Lexeme.atom])
    (listStyle_of_append (hcut ▸ hstyle))
  have hplace : placeBehind before (cs ++ (as.take j).map .atom) = placeBehind before cs + j := by
    rw [placeBehind, placeBehind, lexemesOfChildren_append, lexemesOfChildren_atoms,
      List.length_append, List.length_map, hlen]
    omega
  have hne : (cs ++ (as.take j).map Child.atom).isEmpty = false := by
    have hlen' : (cs ++ (as.take j).map Child.atom).length ≠ 0 := by
      rw [List.length_append, List.length_map, hlen]
      omega
    exact List.isEmpty_eq_false_iff.mpr fun h => hlen' (List.length_eq_zero_iff.mpr h)
  have hindex : 0 < endingAtoms cs + j := by omega
  rw [hplace, hne, endingAtoms_append_atoms, hlen] at hgap
  rw [hgap]
  simp [Lexeme.atom, hindex]

/-- So many lexemes behind the first `n` are set apart by nothing but spaces. -/
def Unbroken (n count : Nat) (ps : List Piece) : Prop :=
  ∀ j, 0 < j → j < count → gapAt (n + j) ps = [.space]

/-- **No more atoms share a line than the threshold says.** -/
theorem length_le_wrapThreshold (s : Settings) (hbefore : ¬ AnyShortform s (enclosing before))
    {cs : List Child} {as : List (List Char)} {after : List Lexeme}
    (htext : lexemes text =
      before ++ .opener :: (lexemesOfChildren (cs ++ as.map .atom) ++ after))
    (hstyle : listStyle s (cs ++ as.map .atom) = .normal)
    (hline : Unbroken (placeBehind before cs) as.length (reflowPieces s text)) :
    as.length ≤ s.wrapThreshold := by
  by_contra hlong
  have hpos := s.wrapThreshold_pos
  have hmod := Nat.mod_lt (endingAtoms cs) hpos
  have hdiv := Nat.div_add_mod (endingAtoms cs) s.wrapThreshold
  -- the next multiple of the threshold is among the atoms, and starts a line
  generalize hj : s.wrapThreshold - endingAtoms cs % s.wrapThreshold = j
  have hdvd : s.wrapThreshold ∣ endingAtoms cs + j :=
    ⟨endingAtoms cs / s.wrapThreshold + 1, by rw [Nat.mul_add, Nat.mul_one]; omega⟩
  have hgap := gapAt_of_atoms s hbefore htext hstyle (j := j) (by omega) (by omega)
  rw [hline j (by omega) (by omega), if_pos hdvd] at hgap
  exact absurd hgap (by simp)

/-- The threshold divides the number of an atom that starts a line. -/
theorem wrapThreshold_dvd (s : Settings) (hbefore : ¬ AnyShortform s (enclosing before))
    {cs : List Child} {l : Lexeme} {after : List Lexeme}
    (htext : lexemes text = before ++ .opener :: (lexemesOfChildren cs ++ l :: after))
    (hl : l.role = .atom) (hstyle : listStyle s cs = .normal)
    (hline : ∃ i, gapAt (placeBehind before cs) (reflowPieces s text) = [.lineBreak i]) :
    s.wrapThreshold ∣ endingAtoms cs := by
  obtain ⟨i, hi⟩ := hline
  rw [gapAt_of_normal s hbefore htext (by simp [hl]) hstyle] at hi
  split at hi
  · exact absurd hi (by simp)
  · split at hi
    · next hbreak => exact (hbreak.resolve_left (by simp [hl])).2
    · exact absurd hi (by simp)

end

/-- **How normal lists wrap.** In a normal list that is not below a shortform one, every list but a
first child starts a line, and of the atoms that follow one another those at the multiples of the
threshold do; every other child comes behind a space. So no more atoms than the threshold says share
a line, and a line of atoms that is broken off before another atom has exactly as many. -/
theorem normal_list_wraps [Memory] (s : Settings) (text : List Char) (before : List Lexeme)
    (hbefore : ¬ AnyShortform s (enclosing before)) :
    (∀ (cs : List Child) (l : Lexeme) (after : List Lexeme),
      lexemes text = before ++ .opener :: (lexemesOfChildren cs ++ l :: after) →
      l.role ≠ .closer → listStyle s cs = .normal →
      gapAt (placeBehind before cs) (reflowPieces s text) =
        if cs.isEmpty then []
        else if l.role = .opener ∨ 0 < endingAtoms cs ∧ s.wrapThreshold ∣ endingAtoms cs then
          [.lineBreak (s.indent (nesting 0 before + 1))]
        else [.space]) ∧
    (∀ (cs : List Child) (as : List (List Char)) (after : List Lexeme),
      lexemes text = before ++ .opener :: (lexemesOfChildren (cs ++ as.map .atom) ++ after) →
      listStyle s (cs ++ as.map .atom) = .normal →
      Unbroken (placeBehind before cs) as.length (reflowPieces s text) →
      as.length ≤ s.wrapThreshold) ∧
    (∀ (cs : List Child) (as : List (List Char)) (l : Lexeme) (after : List Lexeme),
      lexemes text =
        before ++ .opener :: (lexemesOfChildren (cs ++ as.map .atom) ++ l :: after) →
      listStyle s (cs ++ as.map .atom) = .normal → as ≠ [] → l.role = .atom →
      (endingAtoms cs = 0 ∨
        ∃ i, gapAt (placeBehind before cs) (reflowPieces s text) = [.lineBreak i]) →
      Unbroken (placeBehind before cs) as.length (reflowPieces s text) →
      (∃ i, gapAt (placeBehind before (cs ++ as.map .atom)) (reflowPieces s text) =
        [.lineBreak i]) →
      as.length = s.wrapThreshold) ∧
    lexemesOf (reflowPieces s text) = lexemes text ∧
    (reflowWithin s text).result = text? (reflowPieces s text) := by
  refine ⟨fun cs l after => gapAt_of_normal s hbefore,
    fun cs as after => length_le_wrapThreshold s hbefore, ?_, lexemesOf_reflowPieces s text,
    result_reflowWithin s text⟩
  intro cs as l after htext hstyle hne hl hstart hline hend
  have hle := length_le_wrapThreshold s hbefore htext hstyle hline
  have hdvd := wrapThreshold_dvd s hbefore htext hl hstyle hend
  rw [endingAtoms_append_atoms] at hdvd
  have hdvd' : s.wrapThreshold ∣ endingAtoms cs := by
    rcases hstart with hzero | hbreak
    · rw [hzero]
      exact Nat.dvd_zero _
    · obtain ⟨a, as, rfl⟩ := List.exists_cons_of_ne_nil hne
      have hat : lexemes text = before ++ .opener :: (lexemesOfChildren cs ++
          .atom a :: (lexemesOfChildren (as.map .atom) ++ l :: after)) := by
        rw [htext]
        simp [Child.lexemes]
      exact wrapThreshold_dvd s hbefore hat rfl (listStyle_of_append hstyle) hbreak
  have hge := Nat.le_of_dvd (List.length_pos_iff.mpr hne)
    ((Nat.dvd_add_right hdvd').mp hdvd)
  omega

/-- Settings that put two atoms on a line. -/
def inPairs : Settings :=
  { (default : Settings) with
    wrapThreshold := 2
    wrapThreshold_pos := Nat.succ_pos 1 }

/-- In `(a ((b) c d e))` the third atom behind a list. -/
theorem normal_list_wraps_inPairs :
    lexemes "(a ((b) c d e))".toList =
        [.opener, .atom ['a']] ++ .opener ::
          (lexemesOfChildren [.list [.atom ['b']] (.atom rfl .nil), .atom ['c'], .atom ['d']] ++
            .atom ['e'] :: [.closer, .closer]) ∧
      gapAt 8 (reflowPieces inPairs "(a ((b) c d e))".toList) = [.lineBreak ⟨.tab, 2⟩] := by
  have htext : lexemes "(a ((b) c d e))".toList =
      [.opener, .atom ['a']] ++ .opener ::
        (lexemesOfChildren [.list [.atom ['b']] (.atom rfl .nil), .atom ['c'], .atom ['d']] ++
          .atom ['e'] :: [.closer, .closer]) := by decide
  have hwraps := @normal_list_wraps .small inPairs "(a ((b) c d e))".toList [.opener, .atom ['a']]
    (by decide)
  exact ⟨htext, hwraps.1 _ _ _ htext (by decide) (by decide)⟩

end SExprReflow
