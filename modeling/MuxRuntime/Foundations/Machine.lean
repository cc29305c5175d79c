import Mathlib

/-!
# Runs of a machine

A machine is a function that takes a state and an input to the next state. A
statement about the steps of a run holds along the run when it holds of each
input in the state in which the machine meets it.
-/

namespace Machine

variable {σ ι : Type} (step : σ → ι → σ)

/-- The state after a list of inputs. -/
def run (s : σ) (inputs : List ι) : σ :=
  inputs.foldl step s

/-- Every input of the run meets `P` in the state in which it comes. -/
def Always (P : σ → ι → Prop) : σ → List ι → Prop
  | _, [] => True
  | s, i :: rest => P s i ∧ Always P (step s i) rest

variable {step} {P Q : σ → ι → Prop} {I : σ → Prop} {s : σ} {inputs : List ι}

/-- What the steps that meet a condition preserve holds at the end of a run whose steps all meet it.
-/
theorem run_invariant (hstep : ∀ s i, I s → P s i → I (step s i)) (hs : I s)
    (h : Always step P s inputs) : I (run step s inputs) := by
  induction inputs generalizing s with
  | nil => exact hs
  | cons i rest ih => exact ih (hstep s i hs h.1) h.2

lemma run_keeps (hstep : ∀ s i, I s → I (step s i)) (hs : I s) : I (run step s inputs) := by
  induction inputs generalizing s with
  | nil => exact hs
  | cons i rest ih => exact ih (hstep s i hs)

/-- Along a run that keeps an invariant, one statement gives the other. -/
lemma Always.mono (hstep : ∀ s i, I s → P s i → I (step s i)) (hs : I s)
    (himp : ∀ s i, I s → P s i → Q s i) (h : Always step P s inputs) : Always step Q s inputs := by
  induction inputs generalizing s with
  | nil => trivial
  | cons i rest ih => exact ⟨himp s i hs h.1, ih (hstep s i hs h.1) h.2⟩

lemma always_of_forall_mem {R : ι → Prop} (h : ∀ i ∈ inputs, R i) :
    Always step (fun _ i => R i) s inputs := by
  induction inputs generalizing s with
  | nil => trivial
  | cons i rest ih =>
    rw [List.forall_mem_cons] at h
    exact ⟨h.1, ih h.2⟩

/-- Two statements that agree in the states of an invariant hold along the same runs. -/
theorem always_iff (hstep : ∀ s i, I s → P s i → I (step s i)) (hs : I s)
    (hiff : ∀ s i, I s → (Q s i ↔ P s i)) : Always step Q s inputs ↔ Always step P s inputs := by
  constructor
  · exact Always.mono (fun s i hi hq => hstep s i hi ((hiff s i hi).mp hq)) hs
      (fun s i hi => (hiff s i hi).mp)
  · exact Always.mono hstep hs (fun s i hi => (hiff s i hi).mpr)

lemma always_append (before after : List ι) : Always step P s (before ++ after) ↔
      Always step P s before ∧ Always step P (run step s before) after := by
  induction before generalizing s with
  | nil => simp [Always, run]
  | cons i rest ih => rw [List.cons_append, Always, ih, Always, and_assoc]; rfl

end Machine
