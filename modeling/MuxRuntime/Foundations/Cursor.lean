import Mathlib

/-!
# Positions in a sequence

Scanners keep an index into their input. The index is described by what has been
consumed and what is left, so that facts about the text ahead become facts about
the scanner's reads.
-/

namespace Cursor

open List

variable {α : Type}

/-- The elements between two positions. -/
def slice (input : List α) (start stop : Nat) : List α :=
  (input.drop start).take (stop - start)

lemma take_append_slice {start stop : Nat} (input : List α) (h : start ≤ stop) :
    input.take start ++ slice input start stop = input.take stop := by
  obtain ⟨n, rfl⟩ := Nat.exists_eq_add_of_le h
  rw [slice, Nat.add_sub_cancel_left, take_add]

lemma slice_append_slice {start mid stop : Nat} (input : List α) (hmid : start ≤ mid)
    (hstop : mid ≤ stop) : slice input start mid ++ slice input mid stop = slice input start stop := by
  obtain ⟨m, rfl⟩ := Nat.exists_eq_add_of_le hmid
  obtain ⟨n, rfl⟩ := Nat.exists_eq_add_of_le hstop
  rw [slice, slice, slice, Nat.add_sub_cancel_left, Nat.add_sub_cancel_left, Nat.add_assoc,
    Nat.add_sub_cancel_left, take_add, drop_drop]

lemma slice_cons {a : α} {input : List α} {start stop : Nat} (h : input[start]? = some a)
    (hlt : start < stop) : slice input start stop = a :: slice input (start + 1) stop := by
  rcases List.getElem?_eq_some_iff.mp h with ⟨hlength, ha⟩
  obtain ⟨n, rfl⟩ := Nat.exists_eq_add_of_lt hlt
  rw [slice, slice, drop_eq_getElem_cons hlength, ha, Nat.add_assoc start n 1,
    Nat.add_sub_cancel_left, take_succ_cons, Nat.add_comm n 1, ← Nat.add_assoc,
    Nat.add_sub_cancel_left]

/-- The run of a predicate from a position on. -/
lemma slice_takeWhile (input : List α) (start : Nat) (p : α → Bool) :
    slice input start (start + ((input.drop start).takeWhile p).length) =
      (input.drop start).takeWhile p := by
  rw [slice, Nat.add_sub_cancel_left]
  exact prefix_iff_eq_take.mp (List.takeWhile_prefix p) |>.symm

/-- A run ends where its predicate first fails. -/
lemma takeWhile_run {p : α → Bool} {run rest : List α} (hrun : ∀ a ∈ run, p a = true)
    (hstop : ∀ a ∈ rest.head?, p a = false) : (run ++ rest).takeWhile p = run := by
  rw [takeWhile_append_of_pos hrun]
  cases rest with
  | nil => simp
  | cons a rest => simp [hstop a rfl]

/-- `pre` has been consumed and `rest` is left. -/
structure At (input : List α) (index : Nat) (pre rest : List α) : Prop where
  input_eq : input = pre ++ rest
  index_eq : index = pre.length

namespace At

variable {input pre rest : List α} {index : Nat}

lemma start (input : List α) : At input 0 [] input := ⟨rfl, rfl⟩

section

variable (h : At input index pre rest)

include h

lemma getElem? (k : Nat) : input[index + k]? = rest[k]? := by
  rw [h.input_eq, h.index_eq, List.getElem?_append_right (by omega)]
  congr 1
  omega

lemma head : input[index]? = rest[0]? := h.getElem? 0

lemma drop (k : Nat) : input.drop (index + k) = rest.drop k := by
  rw [h.input_eq, h.index_eq, ← drop_drop, drop_left]

lemma drop_index : input.drop index = rest := by rw [h.input_eq, h.index_eq, drop_left]

lemma length_le_iff : input.length ≤ index ↔ rest = [] := by
  rw [h.input_eq, h.index_eq, length_append, eq_nil_iff_length_eq_zero]
  omega

lemma slice (n : Nat) : slice input index (index + n) = rest.take n := by
  rw [Cursor.slice, h.drop_index, Nat.add_sub_cancel_left]

end

/-- Consuming the next elements. -/
lemma advance (text : List α) (h : At input index pre (text ++ rest)) :
    At input (index + text.length) (pre ++ text) rest where
  input_eq := by rw [h.input_eq, append_assoc]
  index_eq := by rw [h.index_eq, length_append]

end At

end Cursor
