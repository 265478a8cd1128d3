import SExprReflow.Proofs.Accounting

/-!
# What can be held back

A session takes calls in any order: characters, changes of settings, and the end of the text, after
which more text may follow. A call can fail, and the next one goes on from what the failure left.

Lexemes are held back only inside a compact list, behind its first child, and only while they would
fit on the line (`Held.KeptOn`). The opener alone may be too wide for it. As every lexeme takes a
column, there are never more of them than the column limit of the list. Nothing in this depends on the
settings in force, for the list brings its own; and a failure leaves nothing held back.
-/

namespace SExprReflow

open Piece

/-! ## Calls -/

/-- What a session can be asked to do. -/
inductive Call where
  | event (e : Event)
  /-- The text ends. Another one may begin where it stopped. -/
  | finish

namespace Session

/-- The session after a call, whether or not the call before it has failed. -/
def call [Memory] (x : Session) : Call → List Piece × Session
  | .event e => x.resume.handle e
  | .finish => x.resume.finish

/-- The session after calls. -/
def calls [Memory] (x : Session) (cs : List Call) : List Piece × Session := runAll call x cs

@[simp] theorem calls_nil [Memory] (x : Session) : x.calls [] = ([], x) := rfl

@[simp] theorem calls_cons [Memory] (x : Session) (c : Call) (cs : List Call) :
    x.calls (c :: cs) = ((x.call c).1 ++ ((x.call c).2.calls cs).1, ((x.call c).2.calls cs).2) :=
  runAll_cons call x c cs

end Session

/-! ## Lexemes that show -/

/-- A lexeme that prints as its own text, which is not empty. -/
def Lexeme.Shown (l : Lexeme) : Prop := l.Proper ∧ l.text ≠ []

theorem Lexeme.shown_opener : Lexeme.opener.Shown := ⟨Printer.proper_opener, by simp [opener]⟩

theorem Lexeme.shown_closer : Lexeme.closer.Shown :=
  ⟨Lexeme.Complete.closer.proper, by simp [closer]⟩

namespace Scanner

theorem shown_pendingAtom (s : Scanner) : ∀ l ∈ s.pendingAtom, l.Shown := by
  intro l hl
  unfold pendingAtom at hl
  split at hl
  · exact absurd hl (by simp)
  · next hne =>
    obtain rfl : l = .atom s.buffer := by simpa using hl
    exact ⟨.inl rfl, by simpa [Lexeme.atom, buffer] using hne⟩

/-- Whatever state the scanner is in, even one that the end of a text has left behind, the lexemes
that end are shown. -/
theorem shown_read (s : Scanner) (c : Char) : ∀ l ∈ (s.read c).1, l.Shown := by
  intro l hl
  obtain ⟨_, _, -, hr⟩ | ⟨-, -, ls, hls, hr⟩ := s.read_cases c
  · exact absurd hl (by simp [hr])
  · rw [hr] at hl
    rcases List.mem_append.mp hl with hl | hl
    · exact s.shown_pendingAtom l hl
    · rcases hls with rfl | rfl | rfl
      · exact absurd hl (by simp)
      · rw [List.mem_singleton.mp hl]
        exact Lexeme.shown_opener
      · rw [List.mem_singleton.mp hl]
        exact Lexeme.shown_closer

end Scanner

/-- A lexeme that shows, and stays on its line, takes a column. -/
theorem Lexeme.Shown.width_pos {l : Lexeme} (h : l.Shown) (hm : l.multiline = false) :
    0 < l.width := by
  obtain ⟨c, cs, hc⟩ := List.exists_cons_of_ne_nil h.2
  have hne : c ≠ '\n' := by
    rintro rfl
    simp [multiline, hc] at hm
  simp [width, hc, hne]

/-! ## The invariant -/

/-- What there is to say of a list that is held back on a sheet. -/
structure Held.KeptOn (h : Held) (s : Sheet) : Prop where
  /-- The innermost list is compact, may take several lines, and has a child. What is held back fits
  behind that child with all closers that are due, unless it is the opener alone. -/
  inside : ∃ o os, s.lists = o :: os ∧ o.style = some .compact ∧ o.onOneLine = false ∧
    0 < o.children ∧
    (h.lexemes.length = 1 ∨
      s.cursor.column + 1 + h.width + s.closersDue ≤ o.settings.columnLimit)
  head?_eq : h.lexemes.head? = some .opener
  /-- The list does not end before its last lexeme, nor with it. -/
  nesting_pos : ∀ ls, ls <+: h.lexemes → ls ≠ [] → 0 < nesting 0 ls
  depth_eq : h.depth = nesting 0 h.lexemes
  not_multiline : ∀ l ∈ h.lexemes, l.multiline = false
  width_eq : h.width = oneLineWidth h.lexemes
  shown : ∀ l ∈ h.lexemes, l.Shown

/-- Where there is room, it is in the innermost list. -/
theorem Sheet.hasRoom_iff {s : Sheet} {o : OpenList} {os : List OpenList} (hs : s.lists = o :: os)
    (width : Nat) :
    s.hasRoom width = true ↔
      s.cursor.column + 1 + width + s.closersDue ≤ o.settings.columnLimit := by
  simp only [hasRoom, hasRoom?, hs, List.head?_cons, Option.map_some, Option.some.injEq,
    decide_eq_true_eq]
  omega

namespace Held.KeptOn

/-- An opener that the sheet cannot place begins to wait. -/
theorem start {s : Sheet} (hg : s.gap? .opener = none) : Held.KeptOn {} s where
  inside := by
    obtain ⟨-, o, os, hs, hc, hline, hstyle⟩ := Sheet.gap?_eq_none_iff.mp hg
    exact ⟨o, os, hs, hstyle, hline, Nat.pos_of_ne_zero hc, .inl rfl⟩
  head?_eq := rfl
  nesting_pos := by
    intro ls hls hne
    have hlen : ls.length ≤ 1 := hls.length_le
    have hpos : 0 < ls.length := List.length_pos_iff.mpr hne
    have hall : ls = [.opener] := hls.eq_of_length (by simp [Held.lexemes]; omega)
    rw [hall]
    exact Nat.one_pos
  depth_eq := rfl
  not_multiline := by
    intro l hl
    rw [List.mem_singleton.mp hl]
    rfl
  width_eq := rfl
  shown := by
    intro l hl
    rw [List.mem_singleton.mp hl]
    exact Lexeme.shown_opener

/-- One more lexeme is kept if it does not settle the place of its list. -/
theorem push {h : Held} {s : Sheet} {l : Lexeme} (hk : h.KeptOn s) (hl : l.Shown)
    (hs : Printer.settled s (h.push l) l = false) : (h.push l).KeptOn s := by
  obtain ⟨hd, hm, hroom⟩ := Printer.settled_eq_false_iff.mp hs
  have hnest : (h.push l).depth = nesting 0 (h.push l).lexemes := by
    rw [Held.lexemes_push, nesting_append, ← hk.depth_eq]
    rfl
  refine ⟨?_, ?_, ?_, hnest, ?_, Held.width_push hk.width_eq ?_, ?_⟩
  · obtain ⟨o, os, hlists, hstyle, hline, hc, -⟩ := hk.inside
    exact ⟨o, os, hlists, hstyle, hline, hc, .inr ((Sheet.hasRoom_iff hlists _).mp hroom)⟩
  · rfl
  · intro ls hls hne
    rw [Held.lexemes_push, List.prefix_concat_iff] at hls
    rcases hls with rfl | hls
    · rw [← Held.lexemes_push, ← hnest]
      exact Nat.pos_of_ne_zero hd
    · exact hk.nesting_pos ls hls hne
  · intro x hx
    rw [Held.lexemes_push] at hx
    rcases List.mem_append.mp hx with hx | hx
    · exact hk.not_multiline x hx
    · rw [List.mem_singleton.mp hx]
      exact hm
  · intro x hx
    exact hk.not_multiline x (List.mem_cons_of_mem _ (List.mem_reverse.mpr hx))
  · intro x hx
    rw [Held.lexemes_push] at hx
    rcases List.mem_append.mp hx with hx | hx
    · exact hk.shown x hx
    · rw [List.mem_singleton.mp hx]
      exact hl

end Held.KeptOn

namespace Printer

/-- Whatever the printer holds back is kept on its sheet. -/
def Keeps (p : Printer) : Prop := ∀ h ∈ p.held, h.KeptOn p.sheet

theorem keeps_of_held_eq_none {p : Printer} (hh : p.held = none) : p.Keeps := by
  intro h hm
  rw [hh] at hm
  exact absurd hm (by simp)

theorem Keeps.shown {p : Printer} (hk : p.Keeps) : ∀ l ∈ p.heldLexemes, l.Shown := by
  intro l hl
  unfold heldLexemes at hl
  cases hh : p.held with
  | none => exact absurd hl (by simp [hh])
  | some h => exact (hk h hh).shown l (by simpa [hh] using hl)

/-- **A step keeps what is held back in order.** -/
theorem Keeps.step {p : Printer} {l : Lexeme} (hk : p.Keeps) (hl : l.Shown) :
    (p.step l).printer.Keeps := by
  have hs := p.steps_step l
  generalize p.step l = o at hs
  cases hs with
  | print hh hg => exact keeps_of_held_eq_none rfl
  | hold hh hg =>
    intro h hm
    obtain rfl : ({} : Held) = h := Option.some.inj hm
    obtain rfl := hl.1.eq_opener (Sheet.gap?_eq_none_iff.mp hg).1
    exact .start hg
  | @keep h hh hs =>
    intro h' hm
    obtain rfl : h.push l = h' := Option.some.inj hm
    exact (hk h hh).push hl hs
  | release hh hs => exact keeps_of_held_eq_none rfl

theorem shown_step {p : Printer} {l : Lexeme} {queue : List Lexeme}
    (h : ∀ x ∈ p.heldLexemes ++ l :: queue, x.Shown) :
    ∀ x ∈ (p.step l).printer.heldLexemes ++ ((p.step l).again ++ queue), x.Shown :=
  fun x hx => h x (mem_of_mem_step (h l (by simp)).1 hx)

/-! ## Failures -/

/-- A lexeme that cannot be printed takes with it all that is held back. -/
theorem held_lose (p : Printer) (l : Lexeme) : (p.lose l).held = none := by
  unfold lose
  split
  · next hh _ => exact hh
  · rfl

theorem Keeps.printWithin [Memory] {p : Printer} {ls : List Lexeme} (hk : p.Keeps)
    (h : ∀ x ∈ p.heldLexemes ++ ls, x.Shown) : (p.printWithin ls).printer.Keeps := by
  fun_induction Printer.printWithin p ls with
  | case1 p => exact hk
  | case2 p l queue e he => exact keeps_of_held_eq_none (p.held_lose l)
  | case3 p l queue he ih => exact ih (hk.step (h l (by simp))) (shown_step h)

theorem held_printWithin_of_error [Memory] {p : Printer} {ls : List Lexeme} {e : LengthError}
    (he : (p.printWithin ls).error = some e) : (p.printWithin ls).printer.held = none := by
  fun_induction Printer.printWithin p ls with
  | case1 p => exact absurd he (by simp)
  | case2 p l queue e he' => exact p.held_lose l
  | case3 p l queue he' ih => exact ih he

/-- Placing everything leaves nothing behind, whether it is printed or lost. -/
theorem held_releaseAllWithin [Memory] (p : Printer) : p.releaseAllWithin.printer.held = none := by
  fun_induction Printer.releaseAllWithin p with
  | case1 p hh => exact hh
  | case2 p h hh o e he => rfl
  | case3 p h hh o he r e hr => exact held_printWithin_of_error hr
  | case4 p h hh o he r hr ih => exact ih

theorem held_finishWithin [Memory] (p : Printer) (terminate : Bool) :
    (p.finishWithin terminate).printer.held = none := by
  have hr := p.held_releaseAllWithin
  unfold finishWithin
  cases terminate with
  | false => exact hr
  | true =>
    rw [if_pos rfl]
    unfold Printout.andThen
    split
    · exact hr
    · unfold endLine
      split <;> exact hr

end Printer

/-! ## Sessions -/

namespace Session

theorem printer_deliver (x : Session) (scanner : Scanner) (r : Printout) :
    (x.deliver scanner r).2.formatter.printer = r.printer := by
  unfold deliver
  split <;> rfl

/-- **A call keeps what is held back in order**, also if it fails. -/
theorem keeps_call [Memory] {x : Session} (hk : x.formatter.printer.Keeps) (c : Call) :
    (x.call c).2.formatter.printer.Keeps := by
  cases c with
  | event e =>
    cases he : e.char? with
    | none =>
      -- new settings leave what is open and held as it is
      obtain ⟨s, hs⟩ := x.formatter.handle_of_char?_eq_none he
      have hc : (x.call (.event e)).2.formatter.printer = x.formatter.printer.withSettings s := by
        cases e with
        | read c => exact absurd he (by simp [Event.char?])
        | assign t => simp [call, handle, resume, hs, Formatter.withSettings]
        | change c => simp [call, handle, resume, hs, Formatter.withSettings]
      rw [hc]
      intro h hh
      have hkept := hk h hh
      exact ⟨hkept.inside, hkept.head?_eq, hkept.nesting_pos, hkept.depth_eq,
        hkept.not_multiline, hkept.width_eq, hkept.shown⟩
    | some c =>
      obtain rfl := Event.eq_read_of_char? he
      have hc : (x.call (.event (.read c))).2.formatter.printer =
          (x.formatter.printer.printWithin (x.formatter.scanner.read c).1).printer :=
        printer_deliver _ _ _
      rw [hc]
      refine hk.printWithin fun l hl => ?_
      rcases List.mem_append.mp hl with hl | hl
      · exact hk.shown l hl
      · exact x.formatter.scanner.shown_read c l hl
  | finish =>
    have hc : (x.call .finish).2.formatter.printer =
        ((x.formatter.printer.printWithin x.formatter.scanner.endAtom.1).andThen fun p =>
          p.finishWithin (!x.formatter.scanner.endAtom.2.inString)).printer :=
      printer_deliver _ _ _
    rw [hc]
    unfold Printout.andThen
    split
    · next e he => exact Printer.keeps_of_held_eq_none (Printer.held_printWithin_of_error he)
    · exact Printer.keeps_of_held_eq_none (Printer.held_finishWithin _ _)

theorem keeps_calls [Memory] {x : Session} (hk : x.formatter.printer.Keeps) (cs : List Call) :
    (x.calls cs).2.formatter.printer.Keeps := by
  induction cs generalizing x with
  | nil => exact hk
  | cons c cs ih =>
    rw [calls_cons]
    exact ih (x.keeps_call hk c)

end Session

/-! ## How much that is -/

/-- The columns that lexemes take with nothing between them. -/
def totalWidth : List Lexeme → Nat
  | [] => 0
  | l :: ls => l.width + totalWidth ls

/-- Lexemes that stay on a line take at least a column each. -/
theorem length_le_totalWidth {ls : List Lexeme} (hs : ∀ l ∈ ls, l.Shown)
    (hm : ∀ l ∈ ls, l.multiline = false) : ls.length ≤ totalWidth ls := by
  induction ls with
  | nil => exact Nat.le_refl _
  | cons l ls ih =>
    have hpos := (hs l (by simp)).width_pos (hm l (by simp))
    have hle := ih (fun x hx => hs x (by simp [hx])) (fun x hx => hm x (by simp [hx]))
    simp only [List.length_cons, totalWidth]
    omega

/-- On one line they take those columns, and the spaces between them. -/
theorem totalWidth_le_oneLineWidthAfter {ls : List Lexeme} (hm : ∀ l ∈ ls, l.multiline = false)
    (before : Lexeme) : totalWidth ls ≤ oneLineWidthAfter before ls := by
  induction ls generalizing before with
  | nil => exact Nat.le_refl _
  | cons l ls ih =>
    have hl : l.multiline = false := hm l (by simp)
    have hle := ih (fun x hx => hm x (by simp [hx])) l
    simp only [totalWidth, oneLineWidthAfter, hl, Bool.false_eq_true, if_false]
    omega

/-- **No more is held back than one line can hold**: neither lexemes nor columns exceed the column
limit of the list around them. -/
theorem Held.KeptOn.le_columnLimit {h : Held} {s : Sheet} (hk : h.KeptOn s) {o : OpenList}
    (ho : s.lists.head? = some o) :
    h.lexemes.length ≤ totalWidth h.lexemes ∧ totalWidth h.lexemes ≤ h.width ∧
      h.width ≤ o.settings.columnLimit := by
  have hsum := totalWidth_le_oneLineWidthAfter hk.not_multiline .opener
  rw [← oneLineWidth_eq, ← hk.width_eq] at hsum
  refine ⟨length_le_totalWidth hk.shown hk.not_multiline, hsum, ?_⟩
  obtain ⟨o', os, hs, -, -, -, hroom⟩ := hk.inside
  obtain rfl : o' = o := by simpa [hs] using ho
  rcases hroom with hone | hroom
  · -- the opener alone takes one column, and there is no limit below that
    have hw : h.width = 1 := by
      have hrest : h.rest = [] := by simpa [Held.lexemes] using hone
      rw [hk.width_eq, Held.lexemes, hrest]
      rfl
    have hpos := o'.settings.columnLimit_pos
    omega
  · omega

end SExprReflow
