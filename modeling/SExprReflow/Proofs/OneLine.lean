import SExprReflow.Printer

/-!
# The width of one line

`oneLineWidth` measures lexemes up to the first line break inside one of them. So more
lexemes never make a line narrower, and once a line break is among them they make no
difference at all. As long as there is none, a list that is held back can be measured lexeme
by lexeme: what `Held.push` adds to the width is what the lexeme adds to the line. What is
measured is the first line of `oneLineText`.
-/

namespace SExprReflow

/-! ## More lexemes -/

theorem oneLineWidthAfter_le_append (before : Lexeme) (xs ys : List Lexeme) :
    oneLineWidthAfter before xs ≤ oneLineWidthAfter before (xs ++ ys) := by
  induction xs generalizing before with
  | nil => exact Nat.zero_le _
  | cons x xs ih =>
    have hle := ih x
    rw [List.cons_append, oneLineWidthAfter, oneLineWidthAfter]
    cases x.multiline with
    | true => exact Nat.le_refl _
    | false => exact Nat.add_le_add_left hle _

theorem oneLineWidthAfter_append_of_multiline (before : Lexeme) {xs : List Lexeme}
    (h : ∃ x ∈ xs, x.multiline = true) (ys : List Lexeme) :
    oneLineWidthAfter before (xs ++ ys) = oneLineWidthAfter before xs := by
  induction xs generalizing before with
  | nil => exact absurd h (by simp)
  | cons x xs ih =>
    rw [List.cons_append, oneLineWidthAfter, oneLineWidthAfter]
    cases hx : x.multiline with
    | true => simp
    | false =>
      obtain ⟨y, hy, hm⟩ := h
      have hy' : y ∈ xs := by
        rcases List.mem_cons.mp hy with rfl | hy
        · exact absurd hm (by simp [hx])
        · exact hy
      rw [ih x ⟨y, hy', hm⟩]

/-- The first lexeme stands as if behind an opener, which nothing is kept away from. -/
theorem oneLineWidth_eq (ls : List Lexeme) : oneLineWidth ls = oneLineWidthAfter .opener ls := by
  cases ls with
  | nil => rfl
  | cons l ls =>
    have hs : Lexeme.opener.spaced l = false := rfl
    simp [oneLineWidth, oneLineWidthAfter, hs]

theorem oneLineWidth_le_append (xs ys : List Lexeme) :
    oneLineWidth xs ≤ oneLineWidth (xs ++ ys) := by
  rw [oneLineWidth_eq, oneLineWidth_eq]
  exact oneLineWidthAfter_le_append .opener xs ys

/-- Behind a line break nothing counts. -/
theorem oneLineWidth_append_of_multiline {xs : List Lexeme} (h : ∃ x ∈ xs, x.multiline = true)
    (ys : List Lexeme) : oneLineWidth (xs ++ ys) = oneLineWidth xs := by
  rw [oneLineWidth_eq, oneLineWidth_eq]
  exact oneLineWidthAfter_append_of_multiline .opener h ys

/-! ## One more lexeme -/

/-- Without a line break among them, lexemes leave the line to those behind them. -/
theorem oneLineWidthAfter_append {xs : List Lexeme} (h : ∀ x ∈ xs, x.multiline = false)
    (before : Lexeme) (ys : List Lexeme) :
    oneLineWidthAfter before (xs ++ ys) =
      oneLineWidthAfter before xs + oneLineWidthAfter (xs.getLast?.getD before) ys := by
  induction xs generalizing before with
  | nil => simp [oneLineWidthAfter]
  | cons x xs ih =>
    have hx : x.multiline = false := h x List.mem_cons_self
    rw [List.cons_append, oneLineWidthAfter, oneLineWidthAfter, hx,
      ih fun y hy => h y (List.mem_cons_of_mem x hy), List.getLast?_cons]
    simp only [Bool.false_eq_true, if_false, Option.getD_some]
    omega

theorem oneLineWidthAfter_concat {before last : Lexeme} {xs : List Lexeme} (l : Lexeme)
    (hlast : xs.getLast?.getD before = last) (h : ∀ x ∈ xs, x.multiline = false) :
    oneLineWidthAfter before (xs ++ [l]) =
      oneLineWidthAfter before xs + (if last.spaced l then 1 else 0) + l.width := by
  rw [oneLineWidthAfter_append h, hlast, Nat.add_assoc]
  simp [oneLineWidthAfter]

namespace Held

theorem getLast?_rest (h : Held) : h.rest.reverse.getLast?.getD .opener = h.last := by
  cases hr : h.rest with
  | nil => simp [last, hr]
  | cons l ls => simp [last, hr]

/-- **The width kept with a list is its width on one line**, while nothing in it breaks the
line. -/
theorem width_push {h : Held} {l : Lexeme} (hw : h.width = oneLineWidth h.lexemes)
    (hm : ∀ x ∈ h.rest, x.multiline = false) :
    (h.push l).width = oneLineWidth (h.push l).lexemes := by
  have ho : ∀ ls, oneLineWidth (.opener :: ls) = 1 + oneLineWidthAfter .opener ls := fun _ => rfl
  have hc := oneLineWidthAfter_concat l h.getLast?_rest fun x hx => hm x (List.mem_reverse.mp hx)
  rw [lexemes, ho] at hw
  rw [lexemes_push, lexemes, List.cons_append, ho, hc]
  simp only [push]
  omega

end Held

/-! ## The text of the line -/

/-- The first lexeme stands as if behind an opener. -/
theorem oneLineText_eq (ls : List Lexeme) : oneLineText ls = oneLineTextAfter .opener ls := by
  cases ls with
  | nil => rfl
  | cons l ls => simp [oneLineTextAfter, oneLineText, Lexeme.spaced, Lexeme.opener]

theorem takeWhile_append_of_newline {text : List Char} (h : '\n' ∈ text) (rest : List Char) :
    (text ++ rest).takeWhile (· ≠ '\n') = text.takeWhile (· ≠ '\n') := by
  induction text with
  | nil => exact absurd h (by simp)
  | cons c cs ih =>
    rw [List.cons_append, List.takeWhile_cons, List.takeWhile_cons]
    by_cases hc : c = '\n'
    · simp [hc]
    · have hcs : '\n' ∈ cs := (List.mem_cons.mp h).resolve_left fun he => hc he.symm
      rw [ih hcs]

theorem takeWhile_append_of_not_newline {text : List Char} (h : '\n' ∉ text) (rest : List Char) :
    (text ++ rest).takeWhile (· ≠ '\n') = text ++ rest.takeWhile (· ≠ '\n') := by
  apply List.takeWhile_append_of_pos
  intro c hc
  have hne : c ≠ '\n' := fun he => h (he ▸ hc)
  simpa using hne

theorem takeWhile_of_not_newline {text : List Char} (h : '\n' ∉ text) :
    text.takeWhile (· ≠ '\n') = text := by
  simpa using takeWhile_append_of_not_newline h []

theorem Lexeme.width_of_not_multiline {l : Lexeme} (h : l.multiline = false) :
    l.width = l.text.length := by
  have hn : '\n' ∉ l.text := by simpa [multiline] using h
  rw [width, takeWhile_of_not_newline hn]

/-- The width of lexemes is the length of the first line of their text. -/
theorem oneLineWidthAfter_eq_length (before : Lexeme) (ls : List Lexeme) :
    oneLineWidthAfter before ls =
      ((oneLineTextAfter before ls).takeWhile (· ≠ '\n')).length := by
  induction ls generalizing before with
  | nil => rfl
  | cons l ls ih =>
    have hgap : '\n' ∉ if before.spaced l then [' '] else [] := by
      cases before.spaced l <;> simp
    have hlength : (if before.spaced l then [' '] else []).length =
        if before.spaced l then 1 else 0 := by
      cases before.spaced l <;> rfl
    rw [oneLineWidthAfter, oneLineTextAfter, List.append_assoc,
      takeWhile_append_of_not_newline hgap, List.length_append, hlength, Nat.add_assoc]
    congr 1
    cases hl : l.multiline with
    | true =>
      -- the first line ends inside the lexeme, and nothing behind it is on that line
      have hn : '\n' ∈ l.text := by simpa [Lexeme.multiline] using hl
      rw [takeWhile_append_of_newline hn]
      rfl
    | false =>
      have hn : '\n' ∉ l.text := by simpa [Lexeme.multiline] using hl
      rw [takeWhile_append_of_not_newline hn, List.length_append, ← ih l,
        Lexeme.width_of_not_multiline hl]
      rfl

end SExprReflow
