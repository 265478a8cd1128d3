import Mathlib.Data.List.SplitBy
import SExprReflow.Proofs.OneLine

/-!
# The line that is measured

There are three ways to the width of lexemes on one line. `oneLineWidth` goes from lexeme to lexeme
and stops at the first that breaks the line. A list that is held back keeps its width with it, and
`Held.push` adds what one more lexeme takes. And the line can be written and its characters counted,
up to its first line break. The place of a list is settled by the second and chosen by the first, so
they must not differ by a single column.

What the line is, is said here without going from lexeme to lexeme (`joinedText`): lexemes with
nothing between them make a run, and single spaces join the runs.
-/

namespace SExprReflow

/-! ## Runs of lexemes -/

/-- Whether nothing comes between two lexemes on one line. -/
def Lexeme.hugs (before after : Lexeme) : Bool :=
  before.role = .opener || after.role = .closer

theorem Lexeme.spaced_eq_not_hugs (before after : Lexeme) :
    before.spaced after = !before.hugs after := by
  simp [spaced, hugs]

/-- The lexemes on one line: runs in which each lexeme hugs the next, joined by single spaces. -/
def joinedText (ls : List Lexeme) : List Char :=
  [' '].intercalate ((ls.splitBy Lexeme.hugs).map fun run => run.flatMap Lexeme.text)

theorem oneLineTextAfter_append (before : Lexeme) (xs ys : List Lexeme) :
    oneLineTextAfter before (xs ++ ys) =
      oneLineTextAfter before xs ++ oneLineTextAfter (xs.getLast?.getD before) ys := by
  induction xs generalizing before with
  | nil => rfl
  | cons x xs ih =>
    rw [List.cons_append, oneLineTextAfter, oneLineTextAfter, ih x, List.getLast?_cons,
      Option.getD_some, ← List.append_assoc]

/-- Inside a run nothing is added to the lexemes. -/
theorem oneLineTextAfter_of_hugs {before : Lexeme} {run : List Lexeme}
    (h : (before :: run).IsChain fun x y => x.hugs y = true) :
    oneLineTextAfter before run = run.flatMap Lexeme.text := by
  induction run generalizing before with
  | nil => rfl
  | cons l run ih =>
    obtain ⟨hl, hrun⟩ := List.isChain_cons_cons.mp h
    rw [oneLineTextAfter, Lexeme.spaced_eq_not_hugs, hl, ih hrun, List.flatMap_cons]
    rfl

theorem oneLineText_of_hugs {run : List Lexeme}
    (h : run.IsChain fun x y => x.hugs y = true) :
    oneLineText run = run.flatMap Lexeme.text := by
  cases run with
  | nil => rfl
  | cons l run => rw [oneLineText, oneLineTextAfter_of_hugs h, List.flatMap_cons]

/-- Where a lexeme does not hug the next, the line goes on after a space. -/
theorem oneLineText_append {xs ys : List Lexeme} {before after : Lexeme}
    (hx : xs.getLast? = some before) (hy : ys.head? = some after)
    (h : before.hugs after = false) :
    oneLineText (xs ++ ys) = oneLineText xs ++ [' '] ++ oneLineText ys := by
  obtain ⟨rest, rfl⟩ := List.head?_eq_some_iff.mp hy
  have hspace : before.spaced after = true := by rw [Lexeme.spaced_eq_not_hugs, h]; rfl
  rw [oneLineText_eq, oneLineText_eq xs, oneLineTextAfter_append, hx, Option.getD_some,
    oneLineTextAfter, hspace, oneLineText]
  simp

/-- Lexemes cut into runs are written run by run. -/
theorem oneLineText_flatten {runs : List (List Lexeme)}
    (hin : ∀ run ∈ runs, run.IsChain fun x y => x.hugs y = true)
    (hout : runs.IsChain fun xs ys =>
      ∃ hx hy, Lexeme.hugs (xs.getLast hx) (ys.head hy) = false) :
    oneLineText runs.flatten =
      [' '].intercalate (runs.map fun run => run.flatMap Lexeme.text) := by
  induction runs with
  | nil => rfl
  | cons xs runs ih =>
    have hxs : oneLineText xs = xs.flatMap Lexeme.text := oneLineText_of_hugs (hin xs (by simp))
    cases runs with
    | nil => simpa [List.intercalate_singleton] using hxs
    | cons ys runs =>
      -- the space is decided by the two lexemes where the runs meet
      obtain ⟨⟨hx, hy, hgap⟩, hrest⟩ := List.isChain_cons_cons.mp hout
      have hlast : xs.getLast? = some (xs.getLast hx) := List.getLast?_eq_some_getLast hx
      have hfirst : (ys :: runs).flatten.head? = some (ys.head hy) := by
        rw [List.flatten_cons, List.head?_append_of_ne_nil _ hy, List.head?_eq_some_head hy]
      have hruns := ih (fun run hrun => hin run (List.mem_cons_of_mem xs hrun)) hrest
      rw [List.flatten_cons, oneLineText_append hlast hfirst hgap, hruns, hxs]
      simp only [List.map_cons, List.intercalate_cons_cons]

theorem oneLineText_eq_joinedText (ls : List Lexeme) : oneLineText ls = joinedText ls := by
  have h := oneLineText_flatten (fun _ => List.isChain_of_mem_splitBy)
    (List.isChain_getLast_head_splitBy Lexeme.hugs ls)
  rwa [List.flatten_splitBy] at h

/-! ## The width kept with a list -/

namespace Held

theorem getLast?_lexemes (h : Held) : h.lexemes.getLast? = some h.last := by
  rw [lexemes, List.getLast?_cons, getLast?_rest]

theorem lexemes_foldl_push (h : Held) (ls : List Lexeme) :
    (ls.foldl push h).lexemes = h.lexemes ++ ls := by
  induction ls generalizing h with
  | nil => simp
  | cons l ls ih => rw [List.foldl_cons, ih, lexemes_push, List.append_assoc, List.singleton_append]

/-- The width stays right along lexemes of which only the last may break the line. -/
theorem width_foldl_push {h : Held} (hw : h.width = oneLineWidth h.lexemes)
    (hm : ∀ x ∈ h.rest, x.multiline = false) {ls : List Lexeme}
    (hls : ∀ x ∈ ls.dropLast, x.multiline = false) :
    (ls.foldl push h).width = oneLineWidth (ls.foldl push h).lexemes := by
  induction ls generalizing h with
  | nil => exact hw
  | cons l ls ih =>
    have hpush : (h.push l).width = oneLineWidth (h.push l).lexemes := width_push hw hm
    cases ls with
    | nil => exact hpush
    | cons l' ls =>
      -- `l` is not the last, so the line goes on behind it as `width_push` asks
      rw [List.dropLast_cons_cons] at hls
      refine ih hpush ?_ fun x hx => hls x (List.mem_cons_of_mem l hx)
      intro x hx
      rcases List.mem_cons.mp hx with rfl | hx
      · exact hls x List.mem_cons_self
      · exact hm x hx

end Held

/-! ## Three ways to one width -/

/-- **The width of a line measures the line**, and can be kept up to date lexeme by lexeme. It
counts the characters before the first line break. A part of the line from its start is never wider
than the line, and just as wide once it holds a line break. For a list that is held back, one more
lexeme adds its width, and a column for the space that it may need. From an opener alone this comes
to the width that is measured, as long as no lexeme before the last breaks the line. -/
theorem oneLineWidth_measures_line (ls : List Lexeme) :
    (oneLineText ls = joinedText ls ∧
        oneLineWidth ls = ((joinedText ls).takeWhile (· ≠ '\n')).length) ∧
      (∀ ps, ps <+: ls →
        oneLineWidth ps ≤ oneLineWidth ls ∧
          ((∃ l ∈ ps, '\n' ∈ l.text) → oneLineWidth ps = oneLineWidth ls)) ∧
      (∀ (h : Held) (before l : Lexeme), h.lexemes.getLast? = some before →
        (h.push l).lexemes = h.lexemes ++ [l] ∧
          (h.push l).width =
            h.width + (if before.role ≠ .opener ∧ l.role ≠ .closer then 1 else 0) + l.width) ∧
      ((∀ l ∈ ls.dropLast, '\n' ∉ l.text) →
        (ls.foldl Held.push {}).lexemes = .opener :: ls ∧
          (ls.foldl Held.push {}).width = oneLineWidth (.opener :: ls)) := by
  refine ⟨⟨oneLineText_eq_joinedText ls, ?_⟩, ?_, ?_, ?_⟩
  · rw [← oneLineText_eq_joinedText, oneLineText_eq, oneLineWidth_eq]
    exact oneLineWidthAfter_eq_length .opener ls
  · rintro ps ⟨rest, rfl⟩
    refine ⟨oneLineWidth_le_append ps rest, ?_⟩
    rintro ⟨l, hl, hn⟩
    have hm : l.multiline = true := by simpa [Lexeme.multiline] using hn
    exact (oneLineWidth_append_of_multiline ⟨l, hl, hm⟩ rest).symm
  · intro h before l hlast
    obtain rfl : h.last = before := Option.some.inj (h.getLast?_lexemes.symm.trans hlast)
    refine ⟨h.lexemes_push l, ?_⟩
    simp [Held.push, Lexeme.spaced]
  · intro hls
    have hlexemes : (ls.foldl Held.push {}).lexemes = .opener :: ls := Held.lexemes_foldl_push {} ls
    have hwidth := @Held.width_foldl_push {} rfl (by simp) ls fun l hl => by
      simpa [Lexeme.multiline] using hls l hl
    exact ⟨hlexemes, hwidth.trans (congrArg oneLineWidth hlexemes)⟩

/-- A list of three atoms, of which the second breaks the line. -/
def brokenAtomList : List Lexeme :=
  [.opener, .atom ['a'], .atom "\"b\nccc\"".toList, .atom ['d'], .closer]

/-- The first line of it is `(a "b`: five columns, and nothing behind the second atom counts. -/
theorem oneLineWidth_measures_brokenAtomList :
    joinedText brokenAtomList = "(a \"b\nccc\" d)".toList ∧
      oneLineWidth brokenAtomList = 5 ∧
      oneLineWidth (brokenAtomList.take 3) = oneLineWidth brokenAtomList ∧
      ((brokenAtomList.tail.take 2).foldl Held.push {}).width =
        oneLineWidth (brokenAtomList.take 3) := by
  have htext : joinedText brokenAtomList = "(a \"b\nccc\" d)".toList := by decide
  obtain ⟨⟨-, hwidth⟩, hpart, -⟩ := oneLineWidth_measures_line brokenAtomList
  obtain ⟨-, -, -, hheld⟩ := oneLineWidth_measures_line (brokenAtomList.tail.take 2)
  rw [htext] at hwidth
  refine ⟨htext, hwidth, ?_, (hheld (by decide)).2⟩
  exact (hpart _ ⟨brokenAtomList.drop 3, rfl⟩).2
    ⟨.atom "\"b\nccc\"".toList, by decide, by decide⟩

end SExprReflow
