/-!
# Sets of list heads

The style of a list is chosen by its head, the first atom in it. `Heads` is a finite set
of such atoms. The members are kept in increasing order of their code points and
without repetition, so two sets with the same members are the same value, and none of
them is empty, because no atom is.
-/

namespace SExprReflow

/-! ## The order of texts -/

/-- Whether a text comes before another one: at the first place where they differ it has
the smaller code point, or it has ended. -/
def Precedes : List Char → List Char → Prop
  | _, [] => False
  | [], _ :: _ => True
  | a :: as, b :: bs => a.toNat < b.toNat ∨ (a = b ∧ Precedes as bs)

instance decidablePrecedes : (s t : List Char) → Decidable (Precedes s t)
  | [], [] | _ :: _, [] => isFalse id
  | [], _ :: _ => isTrue trivial
  | a :: as, b :: bs =>
    have := decidablePrecedes as bs
    inferInstanceAs (Decidable (a.toNat < b.toNat ∨ (a = b ∧ Precedes as bs)))

theorem Precedes.trans {s t u : List Char} (hst : Precedes s t) (htu : Precedes t u) :
    Precedes s u := by
  induction s generalizing t u with
  | nil =>
    cases t with
    | nil => exact htu
    | cons b bs =>
      cases u with
      | nil => exact htu
      | cons c cs => trivial
  | cons a as ih =>
    cases t with
    | nil => exact hst.elim
    | cons b bs =>
      cases u with
      | nil => exact htu
      | cons c cs =>
        rcases hst with hab | ⟨rfl, has⟩
        · rcases htu with hbc | ⟨rfl, _⟩
          · exact Or.inl (Nat.lt_trans hab hbc)
          · exact Or.inl hab
        · rcases htu with hbc | ⟨rfl, hbs⟩
          · exact Or.inl hbc
          · exact Or.inr ⟨rfl, ih has hbs⟩

/-- Of two different texts one comes before the other. -/
theorem Precedes.of_not {s t : List Char} (h : ¬ Precedes s t) (hne : s ≠ t) : Precedes t s := by
  induction s generalizing t with
  | nil =>
    cases t with
    | nil => exact absurd rfl hne
    | cons b bs => exact absurd trivial h
  | cons a as ih =>
    cases t with
    | nil => trivial
    | cons b bs =>
      rcases Nat.lt_trichotomy a.toNat b.toNat with hab | hab | hab
      · exact absurd (Or.inl hab) h
      · obtain rfl : a = b := Char.toNat_inj.mp hab
        exact Or.inr ⟨rfl, ih (fun has => h (Or.inr ⟨rfl, has⟩)) (fun e => hne (e ▸ rfl))⟩
      · exact Or.inl hab

/-! ## Increasing lists -/

/-- Puts `h` into an increasing list, unless it is there already. -/
def insertSorted (h : List Char) : List (List Char) → List (List Char)
  | [] => [h]
  | x :: xs =>
    if Precedes h x then h :: x :: xs
    else if h = x then x :: xs
    else x :: insertSorted h xs

theorem mem_insertSorted {h y : List Char} {xs : List (List Char)} :
    y ∈ insertSorted h xs ↔ y = h ∨ y ∈ xs := by
  induction xs with
  | nil => simp [insertSorted]
  | cons x xs ih => grind [insertSorted]

theorem pairwise_insertSorted {h : List Char} {xs : List (List Char)}
    (hs : xs.Pairwise Precedes) : (insertSorted h xs).Pairwise Precedes := by
  induction xs with
  | nil => simp [insertSorted]
  | cons x xs ih =>
    obtain ⟨hx, hxs⟩ := List.pairwise_cons.mp hs
    rw [insertSorted]
    split
    · next hlt =>
      refine List.pairwise_cons.mpr ⟨?_, hs⟩
      intro y hy
      rcases List.mem_cons.mp hy with rfl | hy
      · exact hlt
      · exact hlt.trans (hx y hy)
    · next hlt =>
      split
      · exact hs
      · next hne =>
        refine List.pairwise_cons.mpr ⟨?_, ih hxs⟩
        intro y hy
        rcases mem_insertSorted.mp hy with rfl | hy
        · exact Precedes.of_not hlt hne
        · exact hx y hy

/-! ## Sets -/

/-- A finite set of atoms that can head a list. -/
structure Heads where
  toList : List (List Char) := []
  sorted : toList.Pairwise Precedes := by simp
  ne_nil : ∀ h ∈ toList, h ≠ [] := by simp
deriving DecidableEq

namespace Heads

instance : EmptyCollection Heads := ⟨{}⟩

instance : Membership (List Char) Heads := ⟨fun s h => h ∈ s.toList⟩

instance (h : List Char) (s : Heads) : Decidable (h ∈ s) :=
  inferInstanceAs (Decidable (h ∈ s.toList))

/-- The set with one more head. -/
def insert (s : Heads) (h : List Char) (hne : h ≠ []) : Heads where
  toList := insertSorted h s.toList
  sorted := pairwise_insertSorted s.sorted
  ne_nil := by
    intro y hy
    rcases mem_insertSorted.mp hy with rfl | hy
    · exact hne
    · exact s.ne_nil y hy

/-- The set of the given heads. -/
def ofList : (hs : List (List Char)) → (∀ h ∈ hs, h ≠ []) → Heads
  | [], _ => ∅
  | h :: hs, hne =>
    (ofList hs fun x hx => hne x (List.mem_cons_of_mem h hx)).insert h (hne h List.mem_cons_self)

/-- The texts in a set, in increasing order. -/
def texts (s : Heads) : List String := s.toList.map String.ofList

@[simp] theorem not_mem_empty (h : List Char) : ¬ h ∈ (∅ : Heads) :=
  List.not_mem_nil

@[simp] theorem mem_insert {s : Heads} {h y : List Char} {hne : h ≠ []} :
    y ∈ s.insert h hne ↔ y = h ∨ y ∈ s :=
  mem_insertSorted

@[simp] theorem mem_ofList {hs : List (List Char)} {hne : ∀ h ∈ hs, h ≠ []} {y : List Char} :
    y ∈ ofList hs hne ↔ y ∈ hs := by
  induction hs with
  | nil => simp [ofList]
  | cons h hs ih => simp [ofList, ih]

end Heads

end SExprReflow
