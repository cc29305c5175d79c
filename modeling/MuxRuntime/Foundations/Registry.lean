import Mathlib

/-!
# Registries of handles

A registry sends the handles of a program to what they stand for. Handles are
drawn from a counter, so that a registry has entries only below it; its entries
can then be listed and counted.
-/

/-- What a program keeps under its handles. -/
abbrev Registry (α : Type) := Nat → Option α

namespace Registry

variable {α : Type}

/-- Change what is kept under one handle. -/
def set (r : Registry α) (k : Nat) (v : Option α) : Registry α :=
  fun j => if j = k then v else r j

def insert (r : Registry α) (k : Nat) (v : α) : Registry α :=
  r.set k (some v)

def remove (r : Registry α) (k : Nat) : Registry α :=
  r.set k none

/-- The handles in use among the first `n`. -/
def keys (r : Registry α) (n : Nat) : List Nat :=
  (List.range n).filter fun k => (r k).isSome

/-- All entries lie below `n`. -/
def Below (r : Registry α) (n : Nat) : Prop :=
  ∀ k v, r k = some v → k < n

/-- How many of the entries below `n` have the property. -/
def count (r : Registry α) (p : α → Bool) (n : Nat) : Nat :=
  (List.range n).countP fun k => (r k).any p

variable {r : Registry α} {k j n : Nat} {v w : α}

@[simp]
lemma set_self {v : Option α} : r.set k v k = v :=
  if_pos rfl

@[simp]
lemma set_of_ne {v : Option α} (h : j ≠ k) : r.set k v j = r j :=
  if_neg h

@[simp]
lemma insert_self : r.insert k v k = some v := set_self

@[simp]
lemma insert_of_ne (h : j ≠ k) : r.insert k v j = r j := set_of_ne h

@[simp]
lemma remove_self : r.remove k k = none := set_self

@[simp]
lemma remove_of_ne (h : j ≠ k) : r.remove k j = r j := set_of_ne h

@[grind =]
lemma insert_eq_some_iff : r.insert k v j = some w ↔ (j = k ∧ w = v) ∨ (j ≠ k ∧ r j = some w) := by
  by_cases h : j = k
  · subst h
    simp [eq_comm]
  · simp [h]

/-- What holds of all entries and of a new one. -/
lemma forall_insert {P : Nat → α → Prop} (h : ∀ j w, r j = some w → P j w) (hv : P k v) :
    ∀ j w, r.insert k v j = some w → P j w := by
  intro j w hj
  rcases insert_eq_some_iff.mp hj with ⟨rfl, rfl⟩ | ⟨_, hj⟩
  · exact hv
  · exact h j w hj

@[grind =]
lemma remove_eq_some_iff : r.remove k j = some w ↔ j ≠ k ∧ r j = some w := by
  by_cases h : j = k
  · subst h
    simp
  · simp [h]

lemma set_eq_self : r.set k (r k) = r := by
  funext j
  by_cases h : j = k <;> simp [h]

lemma insert_eq_self (h : r k = some v) : r.insert k v = r := by
  rw [insert, ← h]
  exact set_eq_self

lemma remove_eq_self (h : r k = none) : r.remove k = r := by
  rw [remove, ← h]
  exact set_eq_self

@[simp]
lemma insert_remove : (r.remove k).insert k v = r.insert k v := by
  funext j
  by_cases h : j = k <;> simp [h]

/-- Removing several handles removes exactly those. -/
lemma foldl_remove_eq_some_iff {l : List Nat} :
    l.foldl remove r j = some w ↔ j ∉ l ∧ r j = some w := by
  induction l generalizing r with
  | nil => simp
  | cons k l ih =>
    rw [List.foldl_cons, ih, remove_eq_some_iff, List.mem_cons, not_or]
    tauto

namespace Below

lemma mono {m : Nat} (h : r.Below n) (hnm : n ≤ m) : r.Below m :=
  fun k v hk => lt_of_lt_of_le (h k v hk) hnm

lemma insert (h : r.Below n) (hk : k < n) : (r.insert k v).Below n := by
  intro j w hj
  rcases insert_eq_some_iff.mp hj with ⟨rfl, -⟩ | ⟨-, hj⟩
  · exact hk
  · exact h j w hj

lemma remove (h : r.Below n) : (r.remove k).Below n :=
  fun j w hj => h j w (remove_eq_some_iff.mp hj).2

lemma eq_none (h : r.Below n) (hk : n ≤ k) : r k = none := by
  rcases hv : r k with _ | v
  · rfl
  · exact absurd (h k v hv) (by omega)

end Below

/-- Below the counter nothing is missed when a registry is listed. -/
theorem mem_keys (h : r.Below n) : k ∈ r.keys n ↔ ∃ v, r k = some v := by
  rw [keys, List.mem_filter, List.mem_range, Option.isSome_iff_exists]
  constructor
  · exact fun hk => hk.2
  · rintro ⟨v, hv⟩
    exact ⟨h k v hv, v, hv⟩

variable {p : α → Bool}

/-- Whether one entry counts. -/
def weight (p : α → Bool) (v : Option α) : Nat :=
  if v.any p then 1 else 0

lemma count_succ : r.count p (n + 1) = r.count p n + weight p (r n) := by
  simp [count, weight, List.range_succ, List.countP_append, List.countP_singleton]

lemma count_eq_of_le {m : Nat} (h : r.Below n) (hnm : n ≤ m) : r.count p m = r.count p n := by
  induction m, hnm using Nat.le_induction with
  | base => rfl
  | succ m hnm ih => simp [count_succ, ih, h.eq_none hnm, weight]

/-- An entry above those counted does not matter. -/
lemma count_set_of_le {v : Option α} (h : n ≤ k) : (r.set k v).count p n = r.count p n := by
  induction n with
  | zero => rfl
  | succ n ih => rw [count_succ, count_succ, ih (by omega), set_of_ne (by omega)]

/-- Changing one entry changes the count by what that entry counts. -/
theorem count_set {v : Option α} (h : k < n) :
    (r.set k v).count p n + weight p (r k) = r.count p n + weight p v := by
  induction n with
  | zero => omega
  | succ n ih => ?_
  rw [count_succ, count_succ]
  rcases Nat.lt_succ_iff_lt_or_eq.mp h with h | rfl
  · rw [set_of_ne (by omega)]
    omega
  · rw [count_set_of_le (le_refl _), set_self]
    omega

lemma count_insert (h : k < n) :
    (r.insert k v).count p n + weight p (r k) = r.count p n + weight p (some v) :=
  count_set h

lemma count_remove (h : k < n) : (r.remove k).count p n + weight p (r k) = r.count p n :=
  count_set h

/-- A new entry at the counter. -/
lemma count_push (h : r.Below n) :
    (r.insert n v).count p (n + 1) = r.count p n + weight p (some v) := by
  have hinsert := count_insert (r := r) (p := p) (v := v) (Nat.lt_succ_self n)
  rw [h.eq_none (le_refl n), count_eq_of_le h (Nat.le_succ n)] at hinsert
  exact hinsert

lemma count_pos_iff (h : r.Below n) : 0 < r.count p n ↔ ∃ k v, r k = some v ∧ p v = true := by
  rw [count, List.countP_pos_iff]
  simp only [List.mem_range, Option.any_eq_true]
  constructor
  · rintro ⟨k, -, v, hv, hp⟩
    exact ⟨k, v, hv, hp⟩
  · rintro ⟨k, v, hv, hp⟩
    exact ⟨k, h k v hv, v, hv, hp⟩

/-- The number of entries. -/
def size (r : Registry α) (n : Nat) : Nat :=
  r.count (fun _ => true) n

lemma size_mono {q : Registry α} (h : ∀ k v, q k = some v → ∃ w, r k = some w) :
    q.size n ≤ r.size n := by
  refine List.countP_mono_left fun k _ hk => ?_
  obtain ⟨v, hv, -⟩ := (Option.any_eq_true _ _).mp hk
  obtain ⟨w, hw⟩ := h k v hv
  simp [hw]

lemma size_remove_lt (h : k < n) (hv : r k = some v) : (r.remove k).size n < r.size n := by
  have := count_remove (r := r) (p := fun _ => true) h
  simp only [hv, weight, Option.any_some, if_true] at this
  unfold size
  omega

end Registry
