import SExprReflow.Proofs.Enclosing
import SExprReflow.Proofs.WhiteSpace

/-!
# Lists that stand on one line

Some lists are printed on one line wherever they stand. A shortform list is, with everything in it,
and so are an empty list and a normal list of a few atoms. For these `oneLineWidth` is not only an
estimate: they are printed as `flatPieces`, and the cursor ends up that many columns further on.
-/

namespace SExprReflow

open Piece

/-! ## Complete lists -/

/-- Lexemes in which every list that is opened is closed, and no other. -/
inductive Balanced : List Lexeme → Prop where
  | nil : Balanced []
  | atom {l : Lexeme} {ls : List Lexeme} : l.role = .atom → Balanced ls → Balanced (l :: ls)
  | list {xs ls : List Lexeme} : Balanced xs → Balanced ls →
      Balanced (.opener :: xs ++ .closer :: ls)

namespace Balanced

theorem proper {xs : List Lexeme} (h : Balanced xs) : ∀ l ∈ xs, l.Proper := by
  induction h with
  | nil => simp
  | atom hr _ ih =>
    intro l hl
    rcases List.mem_cons.mp hl with rfl | hl
    · exact .inl hr
    · exact ih l hl
  | list _ _ ihx ihl =>
    intro l hl
    simp only [List.cons_append, List.mem_cons, List.mem_append] at hl
    rcases hl with rfl | hl | rfl | hl
    · exact .inr (.inl rfl)
    · exact ihx l hl
    · exact .inr (.inr rfl)
    · exact ihl l hl

theorem of_atoms {xs : List Lexeme} (h : ∀ l ∈ xs, l.role = .atom) : Balanced xs := by
  induction xs with
  | nil => exact .nil
  | cons l ls ih => exact .atom (h l (by simp)) (ih fun x hx => h x (List.mem_cons_of_mem l hx))

theorem append {xs ys : List Lexeme} (hx : Balanced xs) (hy : Balanced ys) :
    Balanced (xs ++ ys) := by
  induction hx with
  | nil => exact hy
  | atom hr _ ih => exact .atom hr ih
  | @list xs ls hx _ _ ih =>
    have := Balanced.list hx ih
    simpa using this

/-- Lexemes that are balanced do not end a list that they stand in. -/
theorem throughCloser_append {xs : List Lexeme} (h : Balanced xs) (depth : Nat)
    (ls : List Lexeme) :
    throughCloser (depth + 1) (xs ++ ls) = xs ++ throughCloser (depth + 1) ls := by
  induction h generalizing depth ls with
  | nil => rfl
  | @atom l xs hr _ ih =>
    have hd : l.depthAfter (depth + 1) = depth + 1 := by simp [Lexeme.depthAfter, hr]
    rw [List.cons_append, throughCloser, hd, if_neg (Nat.succ_ne_zero depth), ih]
    rfl
  | @list xs zs _ _ ihx ihz =>
    have ho : Lexeme.opener.depthAfter (depth + 1) = depth + 1 + 1 := rfl
    have hc : Lexeme.closer.depthAfter (depth + 1 + 1) = depth + 1 := rfl
    rw [List.cons_append, List.cons_append, throughCloser, ho, if_neg (Nat.succ_ne_zero _),
      List.append_assoc, ihx, List.cons_append, throughCloser, hc, if_neg (Nat.succ_ne_zero _), ihz]
    simp

/-- The rest of a list goes to its closer. -/
theorem throughCloser_list {xs : List Lexeme} (h : Balanced xs) (ls : List Lexeme) :
    throughCloser 1 (xs ++ .closer :: ls) = xs ++ [.closer] := by
  have hc : Lexeme.closer.depthAfter 1 = 0 := rfl
  rw [h.throughCloser_append 0, throughCloser, hc, if_pos rfl]

end Balanced

/-! ## Flat pieces -/

/-- The lexemes behind `before` on its line, as pieces. -/
def flatPieces (before : Lexeme) : List Lexeme → List Piece
  | [] => []
  | l :: ls => (if before.spaced l then [.space] else []) ++ .lexeme l :: flatPieces l ls

theorem flatPieces_append (before : Lexeme) (xs ys : List Lexeme) :
    flatPieces before (xs ++ ys) =
      flatPieces before xs ++ flatPieces (xs.getLast?.getD before) ys := by
  induction xs generalizing before with
  | nil => rfl
  | cons x xs ih => simp [flatPieces, ih, List.getLast?_cons]

theorem lexemesOf_flatPieces (before : Lexeme) (ls : List Lexeme) :
    lexemesOf (flatPieces before ls) = ls := by
  induction ls generalizing before with
  | nil => rfl
  | cons l ls ih =>
    rw [flatPieces, lexemesOf_append, lexemesOf_lexeme, ih]
    cases before.spaced l <;> rfl

@[simp] theorem Lexeme.spaced_closer (before : Lexeme) : before.spaced .closer = false := by
  simp [spaced, closer]

theorem Cursor.advancePieces_append (k : Cursor) (ps qs : List Piece) :
    k.advancePieces (ps ++ qs) = (k.advancePieces ps).advancePieces qs :=
  List.foldl_append

theorem Cursor.advance_of_not_mem {text : List Char} (h : '\n' ∉ text) (k : Cursor) :
    k.advance text = ⟨k.line, k.column + text.length⟩ := by
  induction text generalizing k with
  | nil => rfl
  | cons c cs ih =>
    have hc : c ≠ '\n' := fun he => h (by simp [he])
    rw [advance_cons, ih fun hm => h (List.mem_cons_of_mem c hm), next, if_neg hc]
    simp only [List.length_cons, Cursor.mk.injEq, true_and]
    omega

theorem Cursor.advance_text {l : Lexeme} (h : l.multiline = false) (k : Cursor) :
    k.advance l.text = ⟨k.line, k.column + l.width⟩ := by
  rw [advance_of_not_mem (by simpa [Lexeme.multiline] using h), Lexeme.width_of_not_multiline h]

/-- Flat pieces stay on the line and take their one-line width. -/
theorem Cursor.advancePieces_flatPieces {ls : List Lexeme} (h : ∀ l ∈ ls, l.multiline = false)
    (before : Lexeme) (k : Cursor) :
    k.advancePieces (flatPieces before ls) =
      ⟨k.line, k.column + oneLineWidthAfter before ls⟩ := by
  induction ls generalizing before k with
  | nil => rfl
  | cons l ls ih =>
    have hl : l.multiline = false := h l (by simp)
    have hls : ∀ x ∈ ls, x.multiline = false := fun x hx => h x (List.mem_cons_of_mem l hx)
    have hstep : k.advancePieces (flatPieces before (l :: ls)) =
        (Cursor.mk k.line (k.column + (if before.spaced l then 1 else 0) + l.width)).advancePieces
          (flatPieces l ls) := by
      rw [flatPieces]
      cases before.spaced l with
      | true => simp [advancePieces, nextPiece, advance_text hl]
      | false => simp [advancePieces, nextPiece, advance_text hl]
    rw [hstep, ih hls, oneLineWidthAfter, hl]
    simp only [Cursor.mk.injEq, true_and, Bool.false_eq_true, if_false]
    omega

/-! ## Inside a list that stands on one line -/

namespace Sheet

/-- A closer that does not start a line, and does not end one. -/
theorem pieces_closer {s : Sheet} {o p : OpenList} {os : List OpenList}
    (hs : s.lists = o :: p :: os) (ho : o.closesOnNewLine s.cursor.line = false)
    (ls : List Lexeme) : s.pieces (s.gapAhead .closer ls) .closer = [.lexeme .closer] := by
  simp [gapAhead, gap?, pieces, gapPieces, hs, ho, Lexeme.closer]

/-- A child of a list that stands on one line. -/
theorem pieces_child_of_onOneLine {s : Sheet} {before l : Lexeme} {o : OpenList}
    {os : List OpenList} (hs : s.lists = o :: os) (ho : o.onOneLine = true) (hb : s.Behind before)
    (hl : l.Proper) (hc : l.role ≠ .closer) (ls : List Lexeme) :
    s.pieces (s.gapAhead l ls) l = (if before.spaced l then [.space] else []) ++ [.lexeme l] := by
  have hg : s.gapAhead l ls = if before.spaced l then .space else .hug := by
    by_cases hbo : before.role = .opener
    · rw [hb.gapAhead_eq_hug hbo, Lexeme.spaced]
      simp [hbo]
    · have hz : o.children ≠ 0 := fun hz => hbo ((hb.top o (by simp [hs])).mp hz)
      have hsp : before.spaced l = true := by simp [Lexeme.spaced, hbo, hc]
      rw [hsp, if_pos rfl]
      cases hr : l.role with
      | closer => exact absurd hr hc
      | atom => simp [gapAhead, gap?, hs, hr, hz, ho]
      | opener => simp [gapAhead, gap?, hs, hr, hz, ho]
  have hp : s.pieces (s.gapAhead l ls) l =
      s.gapPieces s.lists.length (s.gapAhead l ls) ++ [.lexeme l] := by
    rcases hl with hr | rfl | rfl
    · simp [pieces, hr]
    · simp [pieces, Lexeme.opener]
    · exact absurd rfl hc
  rw [hp, hg]
  cases before.spaced l <;> rfl

/-- What is printed when lexemes follow `before` on its line, and the sheet behind them. -/
structure Flat (before : Lexeme) (xs : List Lexeme) (r : List Piece × Sheet) : Prop where
  pieces_eq : r.1 = flatPieces before xs
  behind : r.2.Behind (xs.getLast?.getD before)

namespace Flat

theorem cons {before l : Lexeme} {ls : List Lexeme} {ps : List Piece} {r : List Piece × Sheet}
    (hp : ps = (if before.spaced l then [.space] else []) ++ [.lexeme l]) (h : Flat l ls r) :
    Flat before (l :: ls) (ps ++ r.1, r.2) where
  pieces_eq := by simp [hp, h.pieces_eq, flatPieces]
  behind := by simpa [List.getLast?_cons] using h.behind

theorem append {before : Lexeme} {xs ys : List Lexeme} {p q : List Piece × Sheet}
    (hx : Flat before xs p) (hy : Flat (xs.getLast?.getD before) ys q) :
    Flat before (xs ++ ys) (p.1 ++ q.1, q.2) where
  pieces_eq := by rw [hx.pieces_eq, hy.pieces_eq, flatPieces_append]
  behind := by
    have hlast : (xs ++ ys).getLast?.getD before = ys.getLast?.getD (xs.getLast?.getD before) := by
      rw [List.getLast?_append]
      cases hy : ys.getLast? <;> simp
    rw [hlast]
    exact hy.behind

/-- A closer that does not start a line goes on flat, and leaves the list around its own. -/
theorem closer {s : Sheet} {before : Lexeme} {xs ys : List Lexeme} {o p : OpenList}
    {os : List OpenList} (h : Flat before xs (s.printBefore (.closer :: ys) xs))
    (hlists : (s.printBefore (.closer :: ys) xs).2.lists = o :: p :: os)
    (hline : o.closesOnNewLine (s.printBefore (.closer :: ys) xs).2.cursor.line = false) :
    Flat before (xs ++ [.closer]) (s.printBefore ys (xs ++ [.closer])) ∧
      (s.printBefore ys (xs ++ [.closer])).2.lists = p :: os := by
  rw [printBefore_append, List.singleton_append]
  generalize s.printBefore (.closer :: ys) xs = r at h hlists hline
  have hp := pieces_closer hlists hline ys
  have hput := lists_put_closer r.2 (r.2.gapAhead .closer ys) (l := .closer) rfl
  have hlast : Flat (xs.getLast?.getD before) [.closer] (r.2.printBefore ys [.closer]) := by
    have hend : Flat .closer [] ([], r.2.put (r.2.gapAhead .closer ys) .closer) :=
      ⟨rfl, behind_put h.behind.outer _ .closer⟩
    exact hend.cons (by simpa using hp)
  refine ⟨h.append hlast, ?_⟩
  rw [hlists, List.tail_cons] at hput
  exact hput

end Flat

/-- **Complete lists inside a list that stands on one line are printed flat.** -/
theorem flat_of_onOneLine {xs : List Lexeme} (h : Balanced xs) {s : Sheet} {before : Lexeme}
    {o : OpenList} {os : List OpenList} (hs : s.lists = o :: os) (ho : o.onOneLine = true)
    (hb : s.Behind before) (ys : List Lexeme) :
    Flat before xs (s.printBefore ys xs) ∧
      ∃ o', (s.printBefore ys xs).2.lists = o' :: os ∧ o'.onOneLine = true := by
  induction h generalizing s before o ys os with
  | nil => exact ⟨⟨rfl, hb⟩, o, hs, ho⟩
  | @atom l xs hr _ ih =>
    have hp := pieces_child_of_onOneLine hs ho hb (.inl hr) (by simp [hr]) (xs ++ ys)
    have hlists := lists_put_atom s (s.gapAhead l (xs ++ ys)) hr
    rw [hs, List.modifyHead_cons] at hlists
    obtain ⟨hflat, hrest⟩ := ih hlists (by simp [OpenList.onOneLine_afterAtom, ho])
      (behind_put hb.outer _ l) ys
    exact ⟨hflat.cons hp, hrest⟩
  | @list xs zs _ _ ihx ihz =>
    have hsplit : Lexeme.opener :: xs ++ .closer :: zs = .opener :: (xs ++ [.closer]) ++ zs := by
      simp
    rw [hsplit, printBefore_append, printBefore]
    generalize hg : s.gapAhead .opener (xs ++ [.closer] ++ (zs ++ ys)) = g
    have hp : s.pieces g .opener = (if before.spaced .opener then [.space] else []) ++
        [.lexeme .opener] :=
      hg ▸ pieces_child_of_onOneLine hs ho hb Printer.proper_opener (by simp [Lexeme.opener]) _
    have hlists := lists_put_opener s g (l := .opener) rfl
    rw [hs, List.modifyHead_cons] at hlists
    -- the list inside stands on one line as well, so its closer does not start a line
    obtain ⟨hxs, o', hlists', ho'⟩ :=
      ihx hlists (by simp [ho]) (behind_put hb.outer g .opener) (.closer :: (zs ++ ys))
    obtain ⟨hxs, hlists'⟩ := hxs.closer hlists' (by simp [OpenList.closesOnNewLine, ho'])
    obtain ⟨hzs, hrest⟩ := ihz hlists' (by simp [ho]) hxs.behind ys
    have hlist := hxs.cons hp
    have hlast : (Lexeme.opener :: (xs ++ [.closer])).getLast?.getD before =
        (xs ++ [Lexeme.closer]).getLast?.getD .opener := by
      simp [List.getLast?_cons]
    exact ⟨hlist.append (hlast ▸ hzs), hrest⟩

/-- Behind its opener a list has no child yet, and the opener is on this line. -/
theorem Behind.opened {s : Sheet} {o : OpenList} {os : List OpenList} (hb : s.Behind .opener)
    (hs : s.lists = o :: os) : o.children = 0 ∧ o.openedOn = s.cursor.line := by
  obtain ⟨o', os', hs', hline⟩ := hb.opener rfl
  obtain ⟨rfl, -⟩ := List.cons.inj (hs.symm.trans hs')
  exact ⟨(hb.top o (by simp [hs])).mpr rfl, hline⟩

/-- The head of a list hugs the opener. -/
theorem Behind.printBefore_head {s : Sheet} (hb : s.Behind .opener) (head : List Char)
    (ys xs : List Lexeme) :
    s.printBefore ys (.atom head :: xs) =
      ([.lexeme (.atom head)] ++ ((s.put .hug (.atom head)).printBefore ys xs).1,
        ((s.put .hug (.atom head)).printBefore ys xs).2) := by
  rw [printBefore, hb.gapAhead_eq_hug rfl]
  rfl

/-- **A few atoms of a normal list are printed flat**, if they follow atoms on the line that the
list was opened on. -/
theorem flat_of_atoms {xs : List Lexeme} (hx : ∀ l ∈ xs, l.role = .atom ∧ l.multiline = false)
    {s : Sheet} {before : Lexeme} {o : OpenList} {os : List OpenList} (hs : s.lists = o :: os)
    (ho : o.counts = true) (hroom : o.streak + xs.length ≤ o.settings.wrapThreshold)
    (hline : o.openedOn = s.cursor.line) (hb : s.Behind before) (hbefore : before.role = .atom)
    (ys : List Lexeme) :
    Flat before xs (s.printBefore ys xs) ∧
      ∃ o', (s.printBefore ys xs).2.lists = o' :: os ∧
        o'.openedOn = (s.printBefore ys xs).2.cursor.line := by
  induction xs generalizing s before o ys with
  | nil => exact ⟨⟨rfl, hb⟩, o, hs, hline⟩
  | cons l xs ih =>
    obtain ⟨hr, hm⟩ := hx l (by simp)
    obtain ⟨hone, hstyle⟩ : o.onOneLine = false ∧ o.style = some .normal := by
      simpa [OpenList.counts] using ho
    have hz : o.children ≠ 0 := fun hz =>
      absurd ((hb.top o (by simp [hs])).mp hz) (by simp [hbefore])
    have hlt : o.streak < o.settings.wrapThreshold := by
      rw [List.length_cons] at hroom
      omega
    have hg : s.gapAhead l (xs ++ ys) = .space := by
      simp [gapAhead, gap?, hs, hr, hz, hone, hstyle, hlt]
    have hp : s.pieces .space l = [.space, .lexeme l] := by simp [pieces, hr, gapPieces]
    have hlists := lists_put_atom s .space hr
    rw [hs, List.modifyHead_cons] at hlists
    -- the streak becomes one longer, and what is left of the atoms one shorter
    have ho' : o.afterAtom .space l.text =
        { o with children := o.children + 1, streak := o.streak + 1 } := by
      simp [OpenList.afterAtom, hz, ho]
    have hcur : (s.put .space l).cursor.line = s.cursor.line := by
      simp [cursor_put, hp, Cursor.advancePieces, Cursor.nextPiece, Cursor.advance_text hm]
    obtain ⟨hflat, hrest⟩ := ih (fun x hx' => hx x (List.mem_cons_of_mem l hx')) hlists
      (by rw [ho']; exact ho)
      (by rw [ho']; rw [List.length_cons] at hroom; simp only; omega)
      (by rw [ho', hcur]; exact hline)
      (behind_put hb.outer .space l) hr ys
    rw [printBefore, hg]
    refine ⟨hflat.cons ?_, hrest⟩
    simp [hp, Lexeme.spaced, hbefore, hr]

end Sheet

/-! ## Lists that stand on one line -/

/-- What stands between the delimiters of a list that is printed on one line wherever it is. -/
inductive OneLineBody (c : Settings) : List Lexeme → Prop where
  | empty : OneLineBody c []
  /-- A shortform list, with whatever is in it. -/
  | shortform {head : List Char} {xs : List Lexeme} :
      c.styleOf head = .shortform → Balanced xs → OneLineBody c (.atom head :: xs)
  /-- A normal list of atoms that do not wrap. -/
  | normal {head : List Char} {xs : List Lexeme} :
      c.styleOf head = .normal → (∀ l ∈ xs, l.role = .atom) → xs.length < c.wrapThreshold →
      OneLineBody c (.atom head :: xs)

/-- A list that is printed on one line wherever it is. -/
inductive OneLineList (c : Settings) : List Lexeme → Prop where
  | mk {xs : List Lexeme} : OneLineBody c xs → (∀ l ∈ xs, l.multiline = false) →
      OneLineList c (.opener :: xs ++ [.closer])

namespace OneLineBody

variable {c : Settings} {xs : List Lexeme}

theorem balanced (h : OneLineBody c xs) : Balanced xs := by
  cases h with
  | empty => exact .nil
  | shortform _ hx => exact .atom rfl hx
  | normal _ hx _ => exact .atom rfl (.of_atoms hx)

/-- Behind its opener the list is printed flat, through its closer. -/
theorem flat (h : OneLineBody c xs) (hm : ∀ l ∈ xs, l.multiline = false) {s : Sheet}
    {o p : OpenList} {os : List OpenList} (hs : s.lists = o :: p :: os) (hset : o.settings = c)
    (hone : o.onOneLine = false) (hb : s.Behind .opener) (ys : List Lexeme) :
    Sheet.Flat .opener (xs ++ [.closer]) (s.printBefore ys (xs ++ [.closer])) ∧
      (s.printBefore ys (xs ++ [.closer])).2.lists = p :: os := by
  obtain ⟨hz, hline⟩ := hb.opened hs
  cases h with
  | empty =>
    have hnil : Sheet.Flat .opener [] (s.printBefore (.closer :: ys) []) := ⟨rfl, hb⟩
    exact hnil.closer hs (by simp [OpenList.closesOnNewLine, hline, Sheet.printBefore])
  | @shortform head xs hstyle hx =>
    have hlists := s.lists_put_atom .hug (l := .atom head) rfl
    rw [hs, List.modifyHead_cons] at hlists
    obtain ⟨hxs, o', hlists', ho'⟩ := Sheet.flat_of_onOneLine hx hlists
      (by simp [OpenList.onOneLine_afterAtom, hz, hset, Lexeme.atom, hstyle])
      (Sheet.behind_put hb.outer .hug (.atom head)) (.closer :: ys)
    obtain ⟨hxs, hlists'⟩ := hxs.closer hlists' (by simp [OpenList.closesOnNewLine, ho'])
    rw [List.cons_append, hb.printBefore_head]
    exact ⟨hxs.cons rfl, hlists'⟩
  | @normal head xs hstyle hx hlen =>
    have hlists := s.lists_put_atom .hug (l := .atom head) rfl
    rw [hs, List.modifyHead_cons] at hlists
    have ho : o.afterAtom .hug (Lexeme.atom head).text =
        { o with style := some .normal, children := 1, streak := 1 } := by
      simp [OpenList.afterAtom, OpenList.settleStyle, hz, hset, Lexeme.atom, hstyle]
    rw [ho] at hlists
    have hhead : (Lexeme.atom head).multiline = false := hm _ (by simp)
    have hcur : (s.put .hug (.atom head)).cursor.line = s.cursor.line := by
      have hp : s.pieces .hug (.atom head) = [.lexeme (.atom head)] := rfl
      simp [Sheet.cursor_put, hp, Cursor.advancePieces, Cursor.nextPiece, Cursor.advance_text hhead]
    obtain ⟨hxs, o', hlists', ho'⟩ := Sheet.flat_of_atoms
      (fun l hl => ⟨hx l hl, hm l (List.mem_cons_of_mem _ hl)⟩) hlists
      (by simp [OpenList.counts, hone]) (by simp only [hset]; omega) (by simp only [hcur, hline])
      (Sheet.behind_put hb.outer .hug (.atom head)) rfl (.closer :: ys)
    obtain ⟨hxs, hlists'⟩ := hxs.closer hlists' (by simp [OpenList.closesOnNewLine, ho'])
    rw [List.cons_append, hb.printBefore_head]
    exact ⟨hxs.cons rfl, hlists'⟩

end OneLineBody

/-- The delimiters of a list have no line break. -/
theorem not_multiline_list {xs : List Lexeme} (h : ∀ l ∈ xs, l.multiline = false) :
    ∀ l ∈ .opener :: (xs ++ [.closer]), l.multiline = false := by
  intro l hl
  simp only [List.mem_cons, List.mem_append, List.not_mem_nil, or_false] at hl
  rcases hl with rfl | hl | rfl
  · rfl
  · exact h l hl
  · rfl

namespace OneLineList

variable {c : Settings} {ls : List Lexeme}

theorem balanced (h : OneLineList c ls) : Balanced ls := by
  cases h with
  | mk hbody _ => exact .list hbody.balanced .nil

theorem not_multiline (h : OneLineList c ls) : ∀ l ∈ ls, l.multiline = false := by
  cases h with
  | mk _ hm => exact not_multiline_list hm

end OneLineList

end SExprReflow
