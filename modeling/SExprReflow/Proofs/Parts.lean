import SExprReflow.Proofs.OneLineList

/-!
# The parts of a compact list

For the column limit a compact list consists of items and delimiters. The items are its atoms, those
of the compact lists nested in it, and the other lists in it, as long as these stand on one line
(`OneLineList`). The delimiters are its own and those of the nested compact lists.

`placed` tells where the parts come to stand in a printed text: each part with the places behind its
lexemes. `itemsOn` counts the items that have a lexeme on a line.
-/

namespace SExprReflow

open Piece

/-- A part of a compact list: one of its delimiters, or those of a compact list in it, or an item. -/
inductive Part where
  | opener
  | closer
  | item (ls : List Lexeme)

namespace Part

def lexemes : Part → List Lexeme
  | opener => [.opener]
  | closer => [.closer]
  | item ls => ls

def isItem : Part → Bool
  | item _ => true
  | _ => false

end Part

/-- The lexemes of parts, in order. -/
def lexemesOfParts (ps : List Part) : List Lexeme := ps.flatMap Part.lexemes

@[simp] theorem lexemesOfParts_nil : lexemesOfParts [] = [] := rfl

@[simp] theorem lexemesOfParts_cons (p : Part) (ps : List Part) :
    lexemesOfParts (p :: ps) = p.lexemes ++ lexemesOfParts ps := by
  simp [lexemesOfParts]

@[simp] theorem lexemesOfParts_append (ps qs : List Part) :
    lexemesOfParts (ps ++ qs) = lexemesOfParts ps ++ lexemesOfParts qs := by
  simp [lexemesOfParts]

/-- Children of a compact list: atoms, lists that stand on one line, and compact lists. No atom in
them goes on over more than one line. -/
inductive Packed (c : Settings) : List Part → Prop where
  | nil : Packed c []
  | atom {text : List Char} {ps : List Part} : (Lexeme.atom text).multiline = false →
      Packed c ps → Packed c (.item [.atom text] :: ps)
  | oneLine {ls : List Lexeme} {ps : List Part} : OneLineList c ls → Packed c ps →
      Packed c (.item ls :: ps)
  /-- A compact list in the list. -/
  | list {head : List Char} {ps qs : List Part} : c.styleOf head = .compact →
      (Lexeme.atom head).multiline = false → Packed c ps → Packed c qs →
      Packed c (.opener :: .item [.atom head] :: (ps ++ .closer :: qs))

/-- A compact list, from its opener to its closer. -/
inductive PackedList (c : Settings) : List Part → Prop where
  | mk {head : List Char} {ps : List Part} : c.styleOf head = .compact →
      (Lexeme.atom head).multiline = false → Packed c ps →
      PackedList c (.opener :: .item [.atom head] :: (ps ++ [.closer]))

namespace Packed

variable {c : Settings} {ps : List Part}

theorem balanced (h : Packed c ps) : Balanced (lexemesOfParts ps) := by
  induction h with
  | nil => exact .nil
  | atom _ _ ih => exact .atom rfl ih
  | oneLine hl _ ih =>
    rw [lexemesOfParts_cons]
    exact hl.balanced.append ih
  | @list head ps qs _ _ _ _ ihp ihq =>
    have hlist := Balanced.list (Balanced.atom (l := .atom head) rfl ihp) ihq
    simpa [Part.lexemes] using hlist

theorem not_multiline (h : Packed c ps) : ∀ l ∈ lexemesOfParts ps, l.multiline = false := by
  induction h with
  | nil => simp
  | atom hm _ ih =>
    intro l hl
    rcases List.mem_cons.mp hl with rfl | hl
    · exact hm
    · exact ih l hl
  | oneLine hl _ ih =>
    intro l hm
    rw [lexemesOfParts_cons] at hm
    rcases List.mem_append.mp hm with hm | hm
    · exact hl.not_multiline l hm
    · exact ih l hm
  | list _ hm _ _ ihp ihq =>
    intro l hl
    simp only [lexemesOfParts_cons, lexemesOfParts_append, Part.lexemes, List.mem_append,
      List.mem_singleton] at hl
    rcases hl with rfl | rfl | hl | rfl | hl
    · rfl
    · exact hm
    · exact ihp l hl
    · rfl
    · exact ihq l hl

end Packed

theorem PackedList.packed {c : Settings} {ps : List Part} (h : PackedList c ps) : Packed c ps := by
  cases h with
  | mk hstyle hm hp => exact .list hstyle hm hp .nil

/-! ## Where lexemes end -/

/-- The places behind the lexemes among pieces that are printed from `k` on. -/
def Cursor.ends (k : Cursor) : List Piece → List Cursor
  | [] => []
  | .lexeme l :: ps => k.advance l.text :: ends (k.advance l.text) ps
  | .space :: ps => ends (k.advance Piece.space.text) ps
  | .lineBreak i :: ps => ends (k.advance (Piece.lineBreak i).text) ps

/-- Parts with the places behind their lexemes. -/
def placed : List Part → List Cursor → List (Part × List Cursor)
  | [], _ => []
  | p :: ps, ks => (p, ks.take p.lexemes.length) :: placed ps (ks.drop p.lexemes.length)

/-- The number of items on a line. -/
def itemsOn (xs : List (Part × List Cursor)) (line : Nat) : Nat :=
  xs.countP fun x => x.1.isItem && x.2.any (·.line = line)

theorem Cursor.ends_append (k : Cursor) (ps qs : List Piece) :
    k.ends (ps ++ qs) = k.ends ps ++ (k.advancePieces ps).ends qs := by
  induction ps generalizing k with
  | nil => rfl
  | cons p ps ih =>
    have hnext : k.advancePieces (p :: ps) = (k.advance p.text).advancePieces ps := by
      rw [← nextPiece_eq]
      rfl
    rw [hnext]
    cases p with
    | lexeme l => simp [ends, ih, Piece.text]
    | space => simp [ends, ih]
    | lineBreak i => simp [ends, ih]

theorem Cursor.length_ends (k : Cursor) (ps : List Piece) :
    (k.ends ps).length = (lexemesOf ps).length := by
  induction ps generalizing k with
  | nil => rfl
  | cons p ps ih => cases p <;> simp [ends, ih]

theorem Cursor.ends_gapPieces_append (k : Cursor) (s : Sheet) (depth : Nat) (g : Gap)
    (ps : List Piece) :
    k.ends (s.gapPieces depth g ++ ps) = (k.advancePieces (s.gapPieces depth g)).ends ps := by
  have hgap : k.ends (s.gapPieces depth g) = [] := by cases g <;> rfl
  rw [ends_append, hgap, List.nil_append]

/-- The ends of lexemes that are printed flat. -/
theorem Cursor.mem_ends_flatPieces {ls : List Lexeme} (h : ∀ l ∈ ls, l.multiline = false)
    {before : Lexeme} {k e : Cursor} (he : e ∈ k.ends (flatPieces before ls)) :
    e.line = k.line ∧ e.column ≤ k.column + oneLineWidthAfter before ls := by
  induction ls generalizing before k with
  | nil => exact absurd he (by simp [flatPieces, ends])
  | cons l ls ih =>
    have hl : l.multiline = false := h l (by simp)
    have hk : k.ends (flatPieces before (l :: ls)) =
        ⟨k.line, k.column + (if before.spaced l then 1 else 0) + l.width⟩ ::
          (Cursor.mk k.line (k.column + (if before.spaced l then 1 else 0) + l.width)).ends
            (flatPieces l ls) := by
      rw [flatPieces]
      cases before.spaced l with
      | true => simp [ends, advance_text hl, Piece.text, next]
      | false => simp [ends, advance_text hl]
    rw [hk] at he
    rw [oneLineWidthAfter, hl]
    simp only [Bool.false_eq_true, if_false]
    rcases List.mem_cons.mp he with rfl | he
    · exact ⟨rfl, by simp only; omega⟩
    · obtain ⟨hline, hcol⟩ := ih (fun x hx => h x (List.mem_cons_of_mem l hx)) he
      exact ⟨hline, by simp only at hcol; omega⟩

theorem placed_append {ps : List Part} {ks : List Cursor}
    (h : ks.length = (lexemesOfParts ps).length) (qs : List Part) (ks' : List Cursor) :
    placed (ps ++ qs) (ks ++ ks') = placed ps ks ++ placed qs ks' := by
  induction ps generalizing ks with
  | nil =>
    obtain rfl : ks = [] := List.length_eq_zero_iff.mp h
    rfl
  | cons p ps ih =>
    have hlen : ks.length = p.lexemes.length + (lexemesOfParts ps).length := by
      simpa [lexemesOfParts] using h
    have hle : p.lexemes.length ≤ ks.length := by omega
    rw [List.cons_append, placed, placed, List.take_append_of_le_length hle,
      List.drop_append_of_le_length hle, ih (by simp [hlen]), List.cons_append]

theorem placed_append_right {ps : List Part} {ks : List Cursor}
    (h : ks.length = (lexemesOfParts ps).length) (ks' : List Cursor) :
    placed ps (ks ++ ks') = placed ps ks := by
  simpa [placed] using placed_append h [] ks'

theorem mem_of_mem_placed {ps : List Part} {ks : List Cursor} {x : Part × List Cursor} {e : Cursor}
    (hx : x ∈ placed ps ks) (he : e ∈ x.2) : e ∈ ks := by
  induction ps generalizing ks with
  | nil => exact absurd hx (by simp [placed])
  | cons p ps ih =>
    rcases List.mem_cons.mp hx with rfl | hx
    · exact List.mem_of_mem_take he
    · exact List.mem_of_mem_drop (ih hx)

theorem itemsOn_append (xs ys : List (Part × List Cursor)) (line : Nat) :
    itemsOn (xs ++ ys) line = itemsOn xs line + itemsOn ys line :=
  List.countP_append

theorem itemsOn_eq_zero {xs : List (Part × List Cursor)} {line : Nat}
    (h : ∀ x ∈ xs, ∀ e ∈ x.2, e.line ≠ line) : itemsOn xs line = 0 := by
  refine List.countP_eq_zero.mpr fun x hx hc => ?_
  obtain ⟨-, e, he, hline⟩ : x.1.isItem = true ∧ ∃ e ∈ x.2, e.line = line := by simpa using hc
  exact h x hx e he hline

/-- Items that stand on one line are all counted there. -/
theorem itemsOn_placed {ps : List Part} (hne : ∀ p ∈ ps, p.lexemes ≠ []) {ks : List Cursor}
    {line : Nat} (hks : ∀ e ∈ ks, e.line = line) (hlen : ks.length = (lexemesOfParts ps).length) :
    itemsOn (placed ps ks) line = ps.countP Part.isItem := by
  induction ps generalizing ks with
  | nil => rfl
  | cons p ps ih =>
    have hp : p.lexemes.length ≠ 0 := fun h => hne p (by simp) (List.length_eq_zero_iff.mp h)
    have hlen' : ks.length = p.lexemes.length + (lexemesOfParts ps).length := by
      simpa [lexemesOfParts] using hlen
    have hany : (ks.take p.lexemes.length).any (·.line = line) = true := by
      cases hk : ks with
      | nil => exact absurd hlen' (by simp [hk]; omega)
      | cons e es =>
        have he : e.line = line := hks e (by simp [hk])
        obtain ⟨n, hn⟩ := Nat.exists_eq_succ_of_ne_zero hp
        simp [hn, he]
    have hrest : itemsOn (placed ps (ks.drop p.lexemes.length)) line = ps.countP Part.isItem :=
      ih (fun q hq => hne q (List.mem_cons_of_mem p hq))
        (fun e he => hks e (List.mem_of_mem_drop he)) (by simp [hlen'])
    unfold itemsOn at hrest ⊢
    rw [placed, List.countP_cons, List.countP_cons, hrest, hany, Bool.and_true]

end SExprReflow
