import Mathlib

/-!
# First occurrence of a pattern

A reader that looks for a delimiter looks at what it has buffered, which is a
prefix of the whole text. The first occurrence in the text is found in exactly
those prefixes that contain it.
-/

namespace Search

open List

variable {α : Type} [DecidableEq α]

/-- Index of the first window that equals the pattern. -/
def position (pattern : List α) : List α → Option Nat
  | [] => none
  | a :: text =>
    if pattern.isPrefixOf (a :: text) then some 0
    else (position pattern text).map (· + 1)

variable {pattern text : List α}

lemma position_eq_none_iff (hpattern : pattern ≠ []) :
    position pattern text = none ↔ ∀ j, ¬ pattern <+: text.drop j := by
  induction text with
  | nil =>
    simp only [position, drop_nil, prefix_nil, true_iff]
    exact fun _ => hpattern
  | cons a text ih => ?_
  by_cases hinit : pattern <+: a :: text
  · have hfirst : ¬ ∀ j, ¬ pattern <+: (a :: text).drop j := fun h => h 0 hinit
    simp [position, hinit, hfirst]
  simp only [position, List.isPrefixOf_iff_prefix, hinit, if_false, Option.map_eq_none_iff, ih]
  constructor
  · intro h j
    cases j with
    | zero => exact hinit
    | succ j => exact h j
  · intro h j
    exact h (j + 1)

variable {i : Nat}

section

variable (hpattern : pattern ≠ [])

include hpattern

lemma position_eq_some_iff : position pattern text = some i ↔
      pattern <+: text.drop i ∧ ∀ j < i, ¬ pattern <+: text.drop j := by
  induction text generalizing i with
  | nil => simp [position, hpattern]
  | cons a text ih => ?_
  by_cases hinit : pattern <+: a :: text
  · simp only [position, List.isPrefixOf_iff_prefix, hinit, if_true, Option.some.injEq]
    constructor
    · rintro rfl
      exact ⟨hinit, fun j hj => absurd hj (Nat.not_lt_zero j)⟩
    · rintro ⟨-, hfirst⟩
      by_contra hne
      exact hfirst 0 (by omega) hinit
  · simp only [position, List.isPrefixOf_iff_prefix, hinit, if_false, Option.map_eq_some_iff, ih]
    constructor
    · rintro ⟨i, ⟨hat, hfirst⟩, rfl⟩
      refine ⟨hat, fun j hj => ?_⟩
      cases j with
      | zero => exact hinit
      | succ j => exact hfirst j (by omega)
    · rintro ⟨hat, hfirst⟩
      cases i with
      | zero => exact absurd hat hinit
      | succ i => exact ⟨i, ⟨hat, fun j hj => hfirst (j + 1) (by omega)⟩, rfl⟩

omit [DecidableEq α] in
/-- An occurrence in a prefix is an occurrence that the prefix contains. -/
lemma prefix_drop_take_iff {n j : Nat} :
    pattern <+: (text.take n).drop j ↔ pattern <+: text.drop j ∧ j + pattern.length ≤ n := by
  have hpos : 0 < pattern.length := length_pos_iff.mpr hpattern
  rw [drop_take, prefix_take_iff]
  constructor
  all_goals
    rintro ⟨hat, hlen⟩
    exact ⟨hat, by omega⟩

/-- A prefix answers as the text does once it reaches past the first occurrence, and not before. -/
theorem position_take (h : position pattern text = some i) (n : Nat) :
    position pattern (text.take n) = if i + pattern.length ≤ n then some i else none := by
  obtain ⟨hat, hfirst⟩ := (position_eq_some_iff hpattern).mp h
  split_ifs with hn
  · rw [position_eq_some_iff hpattern]
    refine ⟨(prefix_drop_take_iff hpattern).mpr ⟨hat, hn⟩, fun j hj hj' => ?_⟩
    exact hfirst j hj ((prefix_drop_take_iff hpattern).mp hj').1
  rw [position_eq_none_iff hpattern]
  intro j hj
  obtain ⟨hj, hlen⟩ := (prefix_drop_take_iff hpattern).mp hj
  by_cases hji : j < i
  · exact hfirst j hji hj
  · omega

lemma position_take_of_none (h : position pattern text = none) (n : Nat) :
    position pattern (text.take n) = none := by
  rw [position_eq_none_iff hpattern] at h ⊢
  exact fun j hj => h j ((prefix_drop_take_iff hpattern).mp hj).1

/-- What precedes the first occurrence has none. -/
lemma position_eq_some_split (h : position pattern text = some i) :
    position pattern (text.take i) = none ∧
      text = text.take i ++ (pattern ++ text.drop (i + pattern.length)) := by
  constructor
  · have hpos : 0 < pattern.length := length_pos_iff.mpr hpattern
    rw [position_take hpattern h, if_neg (by omega)]
  · obtain ⟨⟨rest, hrest⟩, -⟩ := (position_eq_some_iff hpattern).mp h
    have hdrop : text.drop (i + pattern.length) = rest := by rw [← drop_drop, ← hrest, drop_left]
    rw [hdrop, hrest, take_append_drop]

end

/-- A pattern does not occur where its first element does not. -/
lemma position_eq_none_of_not_mem {a : α} {tail : List α} (h : a ∉ text) :
    position (a :: tail) text = none := by
  rw [position_eq_none_iff (cons_ne_nil a tail)]
  intro j hj
  exact h (drop_subset j text (hj.subset mem_cons_self))

/-- A delimiter of two different elements does not straddle the end of a line. -/
theorem position_line {a b : α} (hab : a ≠ b) {line : List α}
    (hline : position [a, b] line = none) (rest : List α) :
    position [a, b] (line ++ a :: b :: rest) = some line.length := by
  induction line with
  | nil => simp [position]
  | cons c line ih => ?_
  simp only [position] at hline
  split_ifs at hline with hinit
  have htail : position [a, b] line = none := by simpa using hline
  have hnot : ¬ [a, b].isPrefixOf (c :: (line ++ a :: b :: rest)) = true := by
    cases line with
    | nil => simpa [List.isPrefixOf] using fun _ => hab.symm
    | cons d line => simpa [List.isPrefixOf] using hinit
  simp only [cons_append, position, hnot, ih htail, Bool.false_eq_true, if_false,
    Option.map_some, length_cons]

end Search
