/-!
# Running a machine over a list of inputs

The scanner, the printer and the formatter are all machines of one shape: a state
reads one input, yields some outputs and becomes another state. `runAll` runs such a
machine over a whole list. It keeps the outputs newest first while it runs, so a long
input needs no stack; `runAll_nil`, `runAll_cons` and `runAll_append` say what it
computes without that detail, and are all that later proofs need.
-/

namespace SExprReflow

variable {σ α β : Type}

/-- Runs `step` over `xs` and puts what it yields, newest first, on `done`. -/
def runOnto (step : σ → α → List β × σ) (done : List β) (s : σ) : List α → List β × σ
  | [] => (done, s)
  | x :: xs => runOnto step ((step s x).1.reverse ++ done) (step s x).2 xs

/-- Everything that `step` yields from `s` over `xs`, in order, and the state it ends in. -/
def runAll (step : σ → α → List β × σ) (s : σ) (xs : List α) : List β × σ :=
  ((runOnto step [] s xs).1.reverse, (runOnto step [] s xs).2)

theorem runOnto_eq (step : σ → α → List β × σ) (done : List β) (s : σ) (xs : List α) :
    runOnto step done s xs = ((runOnto step [] s xs).1 ++ done, (runOnto step [] s xs).2) := by
  induction xs generalizing done s with
  | nil => rfl
  | cons x xs ih =>
    rw [runOnto, ih, runOnto, ih ((step s x).1.reverse ++ [])]
    simp

@[simp] theorem runAll_nil (step : σ → α → List β × σ) (s : σ) : runAll step s [] = ([], s) := rfl

@[simp] theorem runAll_cons (step : σ → α → List β × σ) (s : σ) (x : α) (xs : List α) :
    runAll step s (x :: xs) =
      ((step s x).1 ++ (runAll step (step s x).2 xs).1, (runAll step (step s x).2 xs).2) := by
  simp only [runAll, runOnto]
  rw [runOnto_eq]
  simp

theorem runAll_append (step : σ → α → List β × σ) (s : σ) (xs ys : List α) :
    runAll step s (xs ++ ys) =
      ((runAll step s xs).1 ++ (runAll step (runAll step s xs).2 ys).1,
        (runAll step (runAll step s xs).2 ys).2) := by
  induction xs generalizing s with
  | nil => simp
  | cons x xs ih => simp [ih]

end SExprReflow
