import Mathlib

/-!
# Lists as queues

The raw `List` functions and the functions on list values, run against a double-ended queue.
The raw `push` appends.
-/

namespace MuxRuntime.Sequences

open List

variable {α : Type}

inductive Operation (α : Type) where
  | push (v : α)
  | pushBack (v : α)
  | pop
  | popBack

/-- `Vec::push`, in `mux_list_push_back` and `mux_list_push_back_value`. -/
def pushBack (list : List α) (v : α) : List α :=
  list ++ [v]

def muxListPush (list : List α) (v : α) : List α :=
  pushBack list v

def muxListPushValue (list : List α) (v : α) : List α :=
  list.insertIdx 0 v

/-- `remove(0)` of a list that is not empty, in `mux_list_pop` and `mux_list_pop_value`. -/
def pop : List α → Option α × List α
  | [] => (none, [])
  | v :: list => (some v, list)

/-- `Vec::pop`, in `mux_list_pop_back` and `mux_list_pop_back_value`. -/
def popBack (list : List α) : Option α × List α :=
  (list.getLast?, list.dropLast)

/-- The functions on `List`. -/
def rawStep (list : List α) : Operation α → Option α × List α
  | .push v => (none, muxListPush list v)
  | .pushBack v => (none, pushBack list v)
  | .pop => pop list
  | .popBack => popBack list

/-- The functions on a list value. -/
def valueStep (list : List α) : Operation α → Option α × List α
  | .push v => (none, muxListPushValue list v)
  | .pushBack v => (none, pushBack list v)
  | .pop => pop list
  | .popBack => popBack list

/-- The double-ended queue. -/
def dequeStep (queue : List α) : Operation α → Option α × List α
  | .push v => (none, v :: queue)
  | .pushBack v => (none, queue ++ [v])
  | .pop => (queue.head?, queue.tail)
  | .popBack => (queue.getLast?, queue.dropLast)

/-- What each operation returns, and the list after it. -/
def trace (step : List α → Operation α → Option α × List α) :
    List α → List (Operation α) → List (Option α × List α)
  | _, [] => []
  | list, operation :: operations =>
    step list operation :: trace step (step list operation).2 operations

/-- Every push is onto copies of its value. -/
def Uniform : List α → List (Operation α) → Prop
  | _, [] => True
  | queue, operation :: operations =>
    (∀ v, operation = .push v → ∀ x ∈ queue, x = v) ∧
      Uniform (dequeStep queue operation).2 operations

lemma valueStep_eq_dequeStep : valueStep (α := α) = dequeStep := by
  ext1 list
  ext1 operation
  cases operation with
  | push v | pushBack v | popBack => rfl
  | pop => cases list <;> rfl

lemma concat_eq_cons_iff (list : List α) (v : α) : list ++ [v] = v :: list ↔ ∀ x ∈ list, x = v := by
  induction list with
  | nil => simp
  | cons x list ih =>
    rw [cons_append, cons.injEq, forall_mem_cons]
    refine and_congr_right fun hx => ?_
    rw [hx, ih]

lemma rawStep_eq_iff (list : List α) (operation : Operation α) :
    rawStep list operation = dequeStep list operation ↔
      ∀ v, operation = .push v → ∀ x ∈ list, x = v := by
  cases operation with
  | push v => simp [rawStep, dequeStep, muxListPush, pushBack, concat_eq_cons_iff]
  | pushBack v | popBack => simp [rawStep, dequeStep, pushBack, popBack]
  | pop => cases list <;> simp [rawStep, dequeStep, pop]

/-- The operations for which all runs agree. -/
theorem traces_eq_iff (list : List α) (operations : List (Operation α)) :
    trace rawStep list operations = trace valueStep list operations ∧
        trace valueStep list operations = trace dequeStep list operations ↔
      Uniform list operations := by
  rw [valueStep_eq_dequeStep, and_iff_left rfl]
  induction operations generalizing list with
  | nil => exact iff_of_true rfl trivial
  | cons operation operations ih =>
    unfold trace Uniform
    rw [cons.injEq, rawStep_eq_iff, ← ih]
    refine and_congr_right fun hstep => ?_
    rw [(rawStep_eq_iff list operation).mpr hstep]

/-- One push tells the two apart. -/
theorem traces_ne : ¬ trace rawStep [1] [.push 2] = trace valueStep [1] [.push 2] := by decide

end MuxRuntime.Sequences
