/-
  Foundation/Run.lean --- runs of a deterministic machine.

  A machine is a step function that takes a state and an input to the next state
  and an output.  A run folds it over a list of inputs.  The rules below are the
  only inductions over runs that the development uses: an invariant of the step
  is an invariant of every run, and a property of states and of the transitions
  so far is carried along a run from the right.
-/
import Mathlib.Data.List.Induction

set_option autoImplicit false

namespace Gump.Foundation

/-- One step of a run: the state before, the input, the output, the state after. -/
structure Transition (σ ι ω : Type) where
  before : σ
  input : ι
  output : ω
  after : σ

section Runs

variable {σ ι ω : Type} (step : σ → ι → σ × ω)

/-- The state reached from `s` by a list of inputs. -/
def runFrom : σ → List ι → σ
  | s, [] => s
  | s, i :: rest => runFrom (step s i).1 rest

/-- The transitions of a run, in order. -/
def transitions : σ → List ι → List (Transition σ ι ω)
  | _, [] => []
  | s, i :: rest =>
    ⟨s, i, (step s i).2, (step s i).1⟩ :: transitions (step s i).1 rest

/-- The outputs of a run, in order. -/
def outputs (s : σ) (inputs : List ι) : List ω :=
  (transitions step s inputs).map Transition.output

@[simp] theorem runFrom_nil (s : σ) : runFrom step s [] = s := rfl

@[simp] theorem runFrom_cons (s : σ) (i : ι) (rest : List ι) :
    runFrom step s (i :: rest) = runFrom step (step s i).1 rest := rfl

@[simp] theorem transitions_nil (s : σ) : transitions step s [] = [] := rfl

@[simp] theorem transitions_cons (s : σ) (i : ι) (rest : List ι) :
    transitions step s (i :: rest) =
      ⟨s, i, (step s i).2, (step s i).1⟩ :: transitions step (step s i).1 rest := rfl

theorem runFrom_append (s : σ) (xs ys : List ι) :
    runFrom step s (xs ++ ys) = runFrom step (runFrom step s xs) ys := by
  induction xs generalizing s with
  | nil => rfl
  | cons i rest ih => exact ih (step s i).1

theorem transitions_append (s : σ) (xs ys : List ι) :
    transitions step s (xs ++ ys) =
      transitions step s xs ++ transitions step (runFrom step s xs) ys := by
  induction xs generalizing s with
  | nil => rfl
  | cons i rest ih => simp [ih]

/-- The last state of a run that ends with the input `i`. -/
theorem runFrom_concat (s : σ) (xs : List ι) (i : ι) :
    runFrom step s (xs ++ [i]) = (step (runFrom step s xs) i).1 :=
  runFrom_append step s xs [i]

theorem transitions_concat (s : σ) (xs : List ι) (i : ι) :
    transitions step s (xs ++ [i]) = transitions step s xs ++
      [⟨runFrom step s xs, i, (step (runFrom step s xs) i).2, (step (runFrom step s xs) i).1⟩] :=
  transitions_append step s xs [i]

variable {step}

variable {s : σ}

/-- An invariant of the step function holds after every run. -/
theorem runFrom_invariant {P : σ → Prop} (hstep : ∀ s i, P s → P (step s i).1) (hs : P s)
    (inputs : List ι) : P (runFrom step s inputs) := by
  induction inputs generalizing s with
  | nil => exact hs
  | cons i rest ih => exact ih (hstep s i hs)

variable {inputs : List ι}

/-- A property kept by the transitions of one run holds at its end. -/
theorem runFrom_of_transitions {P : σ → Prop}
    (hstep : ∀ t ∈ transitions step s inputs, P t.before → P t.after) (hs : P s) :
    P (runFrom step s inputs) := by
  induction inputs generalizing s with
  | nil => exact hs
  | cons i rest ih =>
    exact ih (fun t ht => hstep t (List.mem_cons_of_mem _ ht)) (hstep _ List.mem_cons_self hs)

/-- A property of the state and of the inputs still to come, kept by every step,
holds at the end of the run. -/
theorem runFrom_of_inputs {P : σ → List ι → Prop}
    (hstep : ∀ s i rest, P s (i :: rest) → P (step s i).1 rest) (hs : P s inputs) :
    P (runFrom step s inputs) [] := by
  induction inputs generalizing s with
  | nil => exact hs
  | cons i rest ih => exact ih (hstep s i rest hs)

/-- A property of the state and of the transitions so far, kept by every step
taken from a state of the run, holds after the whole run. -/
theorem runFrom_history {P : σ → List (Transition σ ι ω) → Prop} (hs : P s [])
    (hstep : ∀ s' past i, P s' past →
      P (step s' i).1 (past ++ [⟨s', i, (step s' i).2, (step s' i).1⟩])) (inputs : List ι) :
    P (runFrom step s inputs) (transitions step s inputs) := by
  induction inputs using List.reverseRecOn with
  | nil => exact hs
  | append_singleton xs i ih =>
    rw [runFrom_concat, transitions_concat]
    exact hstep _ _ i ih

/-- Every transition of a run is a step taken from a state the run reaches. -/
theorem exists_split_of_mem_transitions {t : Transition σ ι ω} (h : t ∈ transitions step s inputs) :
    ∃ pre post, inputs = pre ++ t.input :: post ∧ t.before = runFrom step s pre ∧
      t.output = (step t.before t.input).2 ∧ t.after = (step t.before t.input).1 := by
  induction inputs generalizing s with
  | nil => simp at h
  | cons i rest ih =>
    rcases List.mem_cons.mp h with heq | hmem
    · subst heq
      exact ⟨[], rest, rfl, rfl, rfl, rfl⟩
    · obtain ⟨pre, post, hsplit, hbefore, hout, hafter⟩ := ih hmem
      exact ⟨i :: pre, post, by rw [hsplit]; rfl, hbefore, hout, hafter⟩

end Runs

end Gump.Foundation
