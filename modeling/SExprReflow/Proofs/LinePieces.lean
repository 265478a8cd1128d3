import SExprReflow.Proofs.Lines
import SExprReflow.Proofs.OneLineList
import SExprReflow.Proofs.Segment

/-!
# The pieces of a line

A line of a printed text is a run of pieces without a line break among them, as long as no atom
brings one of its own. Such a run can be read by itself: it has the lexemes that the line has
(`IsLine.exists_pieces`).

In it nothing is left to chance. An opener and a space are followed by a lexeme, and that is not a
closer; an atom and a closer are followed by a space, a closer, or nothing more (`SetOff`). So what
stands on a line behind its last atom can only be closers.
-/

namespace SExprReflow

open Piece

/-! ## Pieces that can be read back -/

/-- Pieces that are kept apart, with complete lexemes but for a last piece that may be cut off. -/
structure Readable (ps : List Piece) : Prop where
  apart : Apart ps
  complete : ∀ u l v, ps = u ++ .lexeme l :: v → l.Complete ∨ v = [] ∧ l.CutOff

theorem exists_append_of_mem_lexemesOf {ps : List Piece} {l : Lexeme} (h : l ∈ lexemesOf ps) :
    ∃ u v, ps = u ++ .lexeme l :: v := by
  obtain ⟨p, hp, hl⟩ := List.mem_filterMap.mp h
  cases p with
  | lexeme x =>
    obtain rfl : x = l := by simpa [lexeme?] using hl
    exact List.append_of_mem hp
  | space => exact absurd hl (by simp [lexeme?])
  | lineBreak i => exact absurd hl (by simp [lexeme?])

@[simp] theorem lexemesOf_replicate (n : Nat) (l : Lexeme) :
    lexemesOf (List.replicate n (.lexeme l)) = List.replicate n l := by
  induction n with
  | zero => rfl
  | succ n ih => rw [List.replicate_succ, lexemesOf_lexeme, ih, List.replicate_succ]

namespace Readable

variable {ps : List Piece}

theorem of_infix (h : Readable ps) {qs mid rs : List Piece} (hp : ps = qs ++ mid ++ rs) :
    Readable mid where
  apart := h.apart.infix ⟨qs, rs, hp.symm⟩
  complete u l v hm := by
    rcases h.complete (qs ++ u) l (v ++ rs) (by simp [hp, hm]) with hc | ⟨hv, hc⟩
    · exact .inl hc
    · exact .inr ⟨(List.append_eq_nil_iff.mp hv).1, hc⟩

/-- **What can be read back is read back**, also if the last lexeme is cut off. -/
theorem lexemes_textOf (h : Readable ps) : lexemes (textOf ps) = lexemesOf ps := by
  by_cases hall : ∀ l ∈ lexemesOf ps, l.Complete
  · exact Piece.lexemes_textOf hall h.apart
  · simp only [not_forall] at hall
    obtain ⟨l, hl, hnot⟩ := hall
    obtain ⟨u, v, rfl⟩ := exists_append_of_mem_lexemesOf hl
    rcases h.complete u l v rfl with hc | ⟨rfl, hc⟩
    · exact absurd hc hnot
    · have hu : ∀ x ∈ lexemesOf u, x.Complete := by
        intro x hx
        obtain ⟨u₁, u₂, rfl⟩ := exists_append_of_mem_lexemesOf hx
        rcases h.complete u₁ x (u₂ ++ [.lexeme l]) (by simp) with hc | ⟨hn, -⟩
        · exact hc
        · exact absurd hn (by simp)
      rw [lexemes_textOf_concat hu h.apart hc]
      simp

end Readable

theorem readable_reflowPieces (s : Settings) (text : List Char) :
    Readable (reflowPieces s text) := by
  obtain ⟨hall, hapart, hlast⟩ := ((Formatter.Tracks.start s).run (text.map .read)).finish
  rw [List.nil_append, List.nil_append, Event.text_map_read] at hall hlast
  have hps : ((Formatter.ofSettings s).run (text.map .read)).1 ++
      ((Formatter.ofSettings s).run (text.map .read)).2.finish.1 = reflowPieces s text :=
    runPieces_map_read s text
  rw [List.nil_append, hps] at hapart
  rw [hps] at hall hlast
  refine ⟨hapart, fun u l v hp => ?_⟩
  have hmem : l ∈ lexemes text := by simp [← hall, hp]
  cases hi : (scannerAfter text).inString with
  | false => exact .inl (complete_of_mem_lexemes hi l hmem)
  | true =>
    -- the lexeme that is cut off is the last piece, and all others have ended
    obtain ⟨x, hls, hcut⟩ := lexemes_of_inString hi
    have hrole : x.role = .atom := by
      obtain ⟨sc, -, -, rfl⟩ := hcut
      rfl
    obtain ⟨qs, hqs⟩ := List.getLast?_eq_some_iff.mp (hlast hi x (by simp [hls]) hrole)
    have hended : lexemesOf qs = endedLexemes text := by
      rw [hqs, hls, lexemesOf_append] at hall
      exact List.append_cancel_right hall
    rw [hp] at hqs
    rcases List.eq_nil_or_concat v with rfl | ⟨v, p, rfl⟩
    · obtain rfl : l = x := by simpa using List.append_inj_right' hqs rfl
      exact .inr ⟨rfl, hcut⟩
    · have hsplit : u ++ .lexeme l :: v ++ [p] = qs ++ [.lexeme x] := by simpa using hqs
      have hleft : u ++ .lexeme l :: v = qs := List.append_inj_left' hsplit rfl
      have hmem' : l ∈ endedLexemes text := by simp [← hended, ← hleft]
      exact .inl (complete_of_mem_endedLexemes l hmem')

/-! ## Lines -/

/-- The text has a line, with `a` before it and `b` behind it. -/
structure IsLine (text a line b : List Char) : Prop where
  eq : text = a ++ line ++ b
  /-- The line begins where the text does, or behind a line break. -/
  starts : ∀ c ∈ a.getLast?, c = '\n'
  /-- It ends where the text does, or before a line break. -/
  ends : ∀ c ∈ b.head?, c = '\n'
  newline_not_mem : '\n' ∉ line

/-- A line is as long as the column that it ends at. -/
theorem IsLine.column_eq {text a line b : List Char} (h : IsLine text a line b) :
    (Cursor.advance {} (a ++ line)).column = line.length := by
  have hzero : (Cursor.advance {} a).column = 0 := by
    rcases List.eq_nil_or_concat a with rfl | ⟨a, c, rfl⟩
    · rfl
    · obtain rfl := h.starts c (by simp)
      simp [Cursor.next]
  rw [Cursor.advance_append, Cursor.advance_of_not_mem h.newline_not_mem]
  simp [hzero]

namespace Piece

/-- Whether a piece is a line break. -/
def isBreak : Piece → Bool
  | lineBreak _ => true
  | _ => false

theorem isBreak_iff {p : Piece} : p.isBreak = true ↔ ∃ i, p = lineBreak i := by
  cases p with
  | lexeme l => simp [isBreak]
  | space => simp [isBreak]
  | lineBreak i => simp [isBreak]

end Piece

/-- Where no lexeme breaks the line, a line break of the text is a piece. -/
theorem exists_lineBreak {ps : List Piece} (hm : ∀ l ∈ lexemesOf ps, l.multiline = false)
    {a b : List Char} (h : textOf ps = a ++ '\n' :: b) :
    ∃ qs i rs, ps = qs ++ .lineBreak i :: rs ∧ textOf qs = a ∧ i.text ++ textOf rs = b := by
  induction ps generalizing a with
  | nil => exact absurd h (by simp)
  | cons p ps ih =>
    rw [textOf_cons] at h
    rcases mem_part h with ⟨v, hp, rfl⟩ | ⟨u, hps, rfl⟩
    · cases p with
      | lexeme l =>
        have hl : '\n' ∉ l.text := by simpa [Lexeme.multiline] using hm l (by simp)
        exact absurd (by simp [show l.text = a ++ '\n' :: v from hp]) hl
      | space => exact absurd hp (by simp [Piece.text, List.cons_eq_append_iff])
      | lineBreak i =>
        rw [Piece.text, List.cons_eq_append_iff] at hp
        rcases hp with ⟨rfl, hv⟩ | ⟨a', -, hi⟩
        · obtain rfl : v = i.text := by simpa using hv
          exact ⟨[], i, ps, rfl, rfl, rfl⟩
        · exact absurd (by simp [hi]) i.newline_not_mem_text
    · have hps' : ∀ l ∈ lexemesOf ps, l.multiline = false := by
        intro l hl
        refine hm l ?_
        rw [← List.singleton_append, lexemesOf_append]
        exact List.mem_append_right _ hl
      obtain ⟨qs, i, rs, rfl, rfl, rfl⟩ := ih hps' hps
      exact ⟨p :: qs, i, rs, rfl, by simp, rfl⟩

/-- The pieces `mid` are those of one line. -/
structure LinePieces (ps qs mid rs : List Piece) : Prop where
  eq : ps = qs ++ mid ++ rs
  inner : ∀ p ∈ mid, p.isBreak = false
  ends : ∀ p ∈ rs.head?, p.isBreak = true

/-- **A line of a printed text has its own pieces**, and its own lexemes. -/
theorem IsLine.exists_pieces {ps : List Piece} (hm : ∀ l ∈ lexemesOf ps, l.multiline = false)
    {a line b : List Char} (h : IsLine (textOf ps) a line b) :
    ∃ qs mid rs, LinePieces ps qs mid rs ∧ textOf (qs ++ mid) = a ++ line ∧
      lexemes line = lexemes (textOf mid) := by
  -- the indentation is no piece of its own
  obtain ⟨qs, ind, ps', rfl, ha, hline, hind, hblank⟩ : ∃ qs ind ps', ps = qs ++ ps' ∧
      textOf qs = a ++ ind ∧ ind ++ textOf ps' = line ++ b ∧ '\n' ∉ ind ∧
        ∀ c ∈ ind, CharClass.isBlank c = true := by
    have heq := h.eq
    rcases List.eq_nil_or_concat a with rfl | ⟨a, c, rfl⟩
    · exact ⟨[], [], ps, rfl, rfl, by simpa using heq, by simp, by simp⟩
    · obtain rfl := h.starts c (by simp)
      obtain ⟨qs, i, rs, rfl, hqs, hrs⟩ := exists_lineBreak hm (a := a) (b := line ++ b)
        (by simpa using heq)
      exact ⟨qs ++ [.lineBreak i], i.text, rs, by simp, by simp [hqs, Piece.text], hrs,
        i.newline_not_mem_text, i.isBlank_of_mem_text⟩
  obtain ⟨mid, rs, rfl, hmid, hends⟩ : ∃ mid rs, ps' = mid ++ rs ∧ ind ++ textOf mid = line ∧
      ∀ p ∈ rs.head?, p.isBreak = true := by
    cases b with
    | nil => exact ⟨ps', [], by simp, by simpa using hline, by simp⟩
    | cons c b =>
      obtain rfl := h.ends c (by simp)
      rcases mem_part hline with ⟨v, hv, -⟩ | ⟨u, hu, hl⟩
      · exact absurd (by simp [hv]) hind
      · have hm' : ∀ l ∈ lexemesOf ps', l.multiline = false := fun l hl => hm l (by simp [hl])
        obtain ⟨mid, i, rs, rfl, rfl, -⟩ := exists_lineBreak hm' hu
        exact ⟨mid, .lineBreak i :: rs, rfl, hl.symm, by simp [isBreak]⟩
  refine ⟨qs, mid, rs, ⟨by simp, ?_, hends⟩, by simp [ha, ← hmid], ?_⟩
  · intro p hp
    cases hb : p.isBreak with
    | false => rfl
    | true =>
      obtain ⟨i, rfl⟩ := isBreak_iff.mp hb
      have hnl : '\n' ∈ textOf mid := List.mem_flatMap.mpr ⟨_, hp, by simp [Piece.text]⟩
      exact absurd (by simp [← hmid, hnl]) h.newline_not_mem
  · rw [← hmid]
    simp [lexemes, Scanner.readAll_append, Scanner.readAll_blanks hblank]

/-! ## What follows a piece -/

namespace Piece

/-- Whether something has to follow a piece on its line. -/
def leads : Piece → Bool
  | lexeme l => l.role = .opener
  | space => true
  | lineBreak _ => false

/-- Whether a piece is a lexeme that does not close a list. -/
def begins : Piece → Bool
  | lexeme l => l.role ≠ .closer
  | _ => false

end Piece

/-- On a line, an opener or a space is followed by a lexeme that is no closer, and nothing else is. -/
inductive SetOff : List Piece → Prop where
  | nil : SetOff []
  | lineBreak {i : Indent} {ps : List Piece} : SetOff ps → SetOff (.lineBreak i :: ps)
  | cons {p : Piece} {ps : List Piece} : p.leads = ps.head?.any Piece.begins → SetOff ps →
      SetOff (p :: ps)

namespace SetOff

theorem of_append {us ps : List Piece} (h : SetOff (us ++ ps)) : SetOff ps := by
  induction us with
  | nil => exact h
  | cons u us ih =>
    rw [List.cons_append] at h
    cases h with
    | lineBreak hps => exact ih hps
    | cons _ hps => exact ih hps

/-- What follows a piece in the middle of a line. -/
theorem leads_eq {us : List Piece} {p : Piece} {ps : List Piece} (h : SetOff (us ++ p :: ps))
    (hp : p.isBreak = false) : p.leads = ps.head?.any Piece.begins := by
  have hps := h.of_append
  cases hps with
  | lineBreak _ => exact absurd hp (by simp [isBreak])
  | cons hlead _ => exact hlead

/-- What comes before the closers at the end of a line does not lead to anything: it is an atom. -/
theorem exists_atom {us rs : List Piece} {p : Piece} {k : Nat}
    (h : SetOff (us ++ p :: (List.replicate k (.lexeme .closer) ++ rs)))
    (hends : ∀ r ∈ rs.head?, r.isBreak = true) (hp : p.isBreak = false)
    (hne : p ≠ .lexeme .closer) (hproper : ∀ l, p = .lexeme l → l.Proper) :
    ∃ l : Lexeme, p = .lexeme l ∧ l.role = .atom := by
  have hlead : p.leads = false := by
    rw [h.leads_eq hp]
    cases k with
    | zero =>
      cases rs with
      | nil => rfl
      | cons r rs =>
        obtain ⟨i, rfl⟩ := isBreak_iff.mp (hends r (by simp))
        simp [begins]
    | succ k => simp [List.replicate_succ, begins, Lexeme.closer]
  cases p with
  | lexeme l =>
    rcases hproper l rfl with hr | rfl | rfl
    · exact ⟨l, rfl, hr⟩
    · exact absurd hlead (by simp [leads, Lexeme.opener])
    · exact absurd rfl hne
  | space => exact absurd hlead (by simp [leads])
  | lineBreak i => exact absurd hp (by simp [isBreak])

/-- What comes before openers and an atom leads to them: it is a space. -/
theorem eq_space {us vs : List Piece} {p : Piece} {m : Nat} {l : Lexeme}
    (h : SetOff (us ++ p :: (List.replicate m (.lexeme .opener) ++ .lexeme l :: vs)))
    (hl : l.role = .atom) (hp : p.isBreak = false) (hne : p ≠ .lexeme .opener)
    (hproper : ∀ x, p = .lexeme x → x.Proper) : p = .space := by
  have hlead : p.leads = true := by
    rw [h.leads_eq hp]
    cases m with
    | zero => simp [begins, hl]
    | succ m => simp [List.replicate_succ, begins, Lexeme.opener]
  cases p with
  | lexeme x =>
    have hx : x.role = .opener := by simpa [leads] using hlead
    rw [(hproper x rfl).eq_opener hx] at hne
    exact absurd rfl hne
  | space => rfl
  | lineBreak i => exact absurd hp (by simp [isBreak])

end SetOff

/-- Behind every opener there is a lexeme, and it is no closer. -/
def OpenersLead (ls : List Lexeme) : Prop :=
  ∀ u v, ls = u ++ .opener :: v → ∃ l v', v = l :: v' ∧ l.role ≠ .closer

theorem OpenersLead.tail {l : Lexeme} {ls : List Lexeme} (h : OpenersLead (l :: ls)) :
    OpenersLead ls := by
  intro u v hls
  exact h (l :: u) v (by rw [hls, List.cons_append])

namespace Sheet

/-- A lexeme is printed behind a gap, and nothing follows it but the line break behind a list
that stands outside all others. -/
theorem exists_pieces_eq (s : Sheet) (g : Gap) {l : Lexeme} (hl : l.Proper) :
    ∃ ws, s.pieces g l = s.gapPieces (s.gapDepth l) g ++ .lexeme l :: ws ∧
      (ws = [] ∨ ∃ i, ws = [.lineBreak i]) ∧ (s.put g l).Wrote l (textOf ws) := by
  obtain ⟨w, hw, htext⟩ := s.exists_textOf_pieces g hl
  obtain ⟨ws, hp, hws⟩ : ∃ ws, s.pieces g l = s.gapPieces (s.gapDepth l) g ++ .lexeme l :: ws ∧
      (ws = [] ∨ ∃ i, ws = [.lineBreak i]) := by
    rcases hl with hr | rfl | rfl
    · exact ⟨[], by simp [pieces, gapDepth, hr], .inl rfl⟩
    · exact ⟨[], by simp [pieces, gapDepth, Lexeme.opener], .inl rfl⟩
    · by_cases hlen : s.lists.length = 1
      · exact ⟨[s.lineBreak 0], by simp [pieces, gapDepth, Lexeme.closer, hlen], .inr ⟨_, rfl⟩⟩
      · exact ⟨[], by simp [pieces, gapDepth, Lexeme.closer, hlen], .inl rfl⟩
  have hsame : textOf ws = w := by
    rw [hp, textOf_append, textOf_gapPieces, textOf_cons, List.append_assoc] at htext
    exact List.append_cancel_left (List.append_cancel_left htext)
  exact ⟨ws, hp, hws, hsame ▸ hw⟩

theorem getLast?_printBefore_ne_space (s : Sheet) {xs : List Lexeme} (hx : ∀ l ∈ xs, l.Proper)
    (ys : List Lexeme) : (s.printBefore ys xs).1.getLast? ≠ some .space := by
  rcases List.eq_nil_or_concat xs with rfl | ⟨xs, x, rfl⟩
  · simp [printBefore]
  · rw [List.concat_eq_append, printBefore_append]
    generalize s.printBefore ([x] ++ ys) xs = r
    obtain ⟨ws, hp, hws, -⟩ := r.2.exists_pieces_eq (r.2.gapAhead x ys) (hx x (by simp))
    have hlast : (r.2.printBefore ys [x]).1 = r.2.pieces (r.2.gapAhead x ys) x := by
      simp [printBefore]
    rcases hws with rfl | ⟨i, rfl⟩ <;> simp [hlast, hp]

/-- A line break has been written only behind a closer. -/
theorem Wrote.eq_nil_of_ne_closer {s : Sheet} {before : Lexeme} {ws : List Piece}
    (h : s.Wrote before (textOf ws)) (hb : before ≠ .closer)
    (hws : ws = [] ∨ ∃ i, ws = [.lineBreak i]) : ws = [] := by
  rcases hws with rfl | ⟨i, rfl⟩
  · rfl
  · generalize ht : textOf [.lineBreak i] = t at h
    cases h with
    | nothing _ => exact absurd ht (by simp [Piece.text])
    | lineBreak hc _ _ => exact absurd hc hb

/-- **A lexeme is set off from the one before it.** -/
theorem Behind.setOff_cons {s : Sheet} {before l : Lexeme} {ws ps : List Piece}
    (hb : s.Behind before) (hws : ws = [] ∨ ∃ i, ws = [.lineBreak i])
    (hw : s.Wrote before (textOf ws)) (hc : before.Complete) (ls : List Lexeme)
    (hopen : before.role = .opener → l.role ≠ .closer) (hps : SetOff (.lexeme l :: ps)) :
    SetOff (.lexeme before :: (ws ++ (s.gapPieces (s.gapDepth l) (s.gapAhead l ls) ++
      .lexeme l :: ps))) := by
  by_cases ho : before.role = .opener
  · -- behind an opener the lexeme hugs it
    have hcl : before ≠ .closer := fun h => absurd ho (by simp [h, Lexeme.closer])
    rw [hw.eq_nil_of_ne_closer hcl hws, hb.gapAhead_eq_hug ho]
    exact .cons (by simp [leads, begins, ho, hopen ho, gapPieces]) hps
  · have hsep := (hb.separator hw hc l ls).of_nil
    have hspace : s.gapAhead l ls = .space → l.role ≠ .closer :=
      fun hg hl => gapAhead_ne_space hl ls hg
    generalize s.gapAhead l ls = g at hsep hspace
    have hgap : SetOff (s.gapPieces (s.gapDepth l) g ++ .lexeme l :: ps) := by
      cases g with
      | hug => exact hps
      | space => exact .cons (by simp [leads, begins, hspace rfl]) hps
      | line => exact .lineBreak hps
    rcases hws with rfl | ⟨i, rfl⟩
    · refine .cons ?_ hgap
      cases g with
      | hug =>
        rcases hsep rfl with h | h
        · exact absurd h ho
        · simp [leads, begins, ho, h, gapPieces]
      | space => simp [leads, begins, ho, gapPieces]
      | line => simp [leads, begins, ho, gapPieces, Sheet.lineBreak]
    · exact .cons (by simp [leads, begins, ho]) (.lineBreak hgap)

/-- Lexemes printed ahead are set off from each other. -/
theorem Behind.setOff {s : Sheet} {before : Lexeme} {ws : List Piece} {ls : List Lexeme}
    (hb : s.Behind before) (hws : ws = [] ∨ ∃ i, ws = [.lineBreak i])
    (hw : s.Wrote before (textOf ws)) (hscan : Scanned (before :: ls))
    (hlead : OpenersLead (before :: ls)) (terminate : Bool) :
    SetOff (.lexeme before ::
      (ws ++ ((s.printAhead ls).1 ++ (s.printAhead ls).2.endPieces terminate))) := by
  induction ls generalizing s before ws with
  | nil =>
    have ho : before.role ≠ .opener := by
      intro ho
      obtain rfl := (hscan.proper before (by simp)).eq_opener ho
      obtain ⟨l, v, hv, -⟩ := hlead [] [] rfl
      exact absurd hv (by simp)
    have hend : SetOff (s.endPieces terminate) := by
      unfold endPieces
      split
      · exact .lineBreak .nil
      · exact .nil
    rw [printAhead, List.nil_append]
    rcases hws with rfl | ⟨i, rfl⟩
    · refine .cons ?_ hend
      unfold endPieces
      split <;> simp [leads, begins, ho, Sheet.lineBreak]
    · exact .cons (by simp [leads, begins, ho]) (.lineBreak hend)
  | cons l ls ih =>
    obtain ⟨ws', hp, hws', hw'⟩ :=
      s.exists_pieces_eq (s.gapAhead l ls) (hscan.tail.proper l (by simp))
    have hrest := ih (behind_put hb.outer (s.gapAhead l ls) l) hws' hw' hscan.tail hlead.tail
    have hopen : before.role = .opener → l.role ≠ .closer := by
      intro ho
      obtain rfl := (hscan.proper before (by simp)).eq_opener ho
      obtain ⟨x, v, hv, hx⟩ := hlead [] (l :: ls) rfl
      obtain ⟨rfl, -⟩ := List.cons.inj hv
      exact hx
    rw [printAhead, hp]
    simpa using hb.setOff_cons hws hw hscan.head_complete ls hopen hrest

end Sheet

/-- Pieces up to a lexeme are told by the lexemes among them. -/
theorem Piece.append_lexeme_inj {ps qs ps' qs' : List Piece} {l l' : Lexeme}
    (h : ps ++ lexeme l :: qs = ps' ++ lexeme l' :: qs') (hl : lexemesOf ps = lexemesOf ps') :
    ps = ps' := by
  have hcut := (cut_concat ps l qs).1
  rw [h, hl, (cut_concat ps' l' qs').1] at hcut
  exact (List.append_inj_left' hcut rfl).symm

/-- A space in a printed text is a gap that the sheet has chosen. -/
theorem gapAhead_of_space (s : Settings) {text : List Char} {u v : List Piece} {l : Lexeme}
    (hp : reflowPieces s text = u ++ .space :: .lexeme l :: v) :
    lexemes text = lexemesOf u ++ l :: lexemesOf v ∧
      (sheetAt s (lexemesOf u) (l :: lexemesOf v)).gapAhead l (lexemesOf v) = .space ∧
      (sheetAt s (lexemesOf u) (l :: lexemesOf v)).cursor = Cursor.advancePieces {} u := by
  have htext : lexemes text = lexemesOf u ++ l :: lexemesOf v := by
    rw [← lexemesOf_reflowPieces s, hp]
    simp
  have hproper : ∀ x ∈ lexemesOf u, x.Proper := by
    intro x hx
    have hmem : x ∈ lexemes text := by simp [htext, hx]
    exact proper_of_mem_lexemes x hmem
  obtain ⟨qs, hqs⟩ := exists_reflowPieces_eq_gapBefore s htext
  have hcursor : (sheetAt s (lexemesOf u) (l :: lexemesOf v)).cursor = _ :=
    Sheet.cursor_printBefore { settings := s } (lexemesOf u) (l :: lexemesOf v)
  have hlast := Sheet.getLast?_printBefore_ne_space { settings := s } hproper (l :: lexemesOf v)
  have hbefore := lexemesOf_printBefore_start s htext
  generalize (Sheet.printBefore { settings := s } (l :: lexemesOf v) (lexemesOf u)).1 = ps at *
  generalize sheetAt s (lexemesOf u) (l :: lexemesOf v) = sheet at *
  have hsplit : u ++ [.space] = ps ++ sheet.gapBefore l (lexemesOf v) := by
    have heq : u ++ [.space] ++ .lexeme l :: v =
        ps ++ sheet.gapBefore l (lexemesOf v) ++ .lexeme l :: qs := by
      rw [← hqs, hp]
      simp
    exact append_lexeme_inj heq (by simp [hbefore])
  refine ⟨htext, ?_⟩
  rw [Sheet.gapBefore] at hsplit
  cases hg : sheet.gapAhead l (lexemesOf v) with
  | hug =>
    rw [hg, Sheet.gapPieces, List.append_nil] at hsplit
    exact absurd (by simp [← hsplit]) hlast
  | space =>
    rw [hg, Sheet.gapPieces] at hsplit
    rw [hcursor, List.append_inj_left' hsplit rfl]
    exact ⟨rfl, rfl⟩
  | line =>
    rw [hg, Sheet.gapPieces, Sheet.lineBreak] at hsplit
    exact absurd (List.append_inj_right' hsplit rfl) (by simp)

/-- **In a printed text everything is set off**, if every opener has a lexeme behind it that is no
closer. -/
theorem setOff_reflowPieces (s : Settings) {text : List Char} (h : OpenersLead (lexemes text)) :
    SetOff (reflowPieces s text) := by
  rw [reflowPieces_eq, Printer.pieces_eq_printedAhead s _ proper_of_mem_lexemes]
  generalize (!endsInString (lexemes text)) = terminate
  have hscan := Scanned.of_text text
  cases hls : lexemes text with
  | nil => cases terminate <;> exact .nil
  | cons l ls =>
    rw [hls] at h hscan
    generalize hstart : ({ settings := s } : Sheet) = start
    have hg : start.gapAhead l ls = .hug := hstart ▸ Sheet.gapAhead_start s l ls
    have houter : start.OuterBegun := hstart ▸ Sheet.outerBegun_start s
    obtain ⟨ws, hp, hws, hw⟩ := start.exists_pieces_eq .hug (hscan.proper l (by simp))
    have hrest := (Sheet.behind_put houter .hug l).setOff hws hw hscan h terminate
    rw [printedAhead, hstart, Sheet.printAhead, hg, hp]
    simpa [Sheet.gapPieces] using hrest

end SExprReflow
