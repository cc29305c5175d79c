import Mathlib

/-!
# Lists threaded through indexed memory

A doubly linked list kept in memory cells is described by the partial map from
addresses to `prev` and `next` links and by the list of addresses it stands for.
`Threaded` says that the two agree at every position, and `Chained` says so for
a free list.
-/

namespace Threading

open List

variable {ι : Type}

/-- The `prev` and `next` links of the cells in use. -/
abbrev Links (ι : Type) := ι → Option (Option ι × Option ι)

/-- Bring cell `i` into use with the given links. -/
def put [DecidableEq ι] (links : Links ι) (i : ι) (pair : Option ι × Option ι) : Links ι :=
  fun j => if j = i then some pair else links j

/-- Take cell `i` out of use. -/
def remove [DecidableEq ι] (links : Links ι) (i : ι) : Links ι :=
  fun j => if j = i then none else links j

/-- Rewrite the links of the optional cell `target`. -/
def relink [DecidableEq ι] (links : Links ι) (target : Option ι)
    (f : Option ι × Option ι → Option ι × Option ι) : Links ι :=
  fun j => if some j = target then (links j).map f else links j

/-- Redirect the `next` link of the optional cell `target`. -/
def setNext [DecidableEq ι] (links : Links ι) (target next : Option ι) : Links ι :=
  relink links target (fun pair => (pair.1, next))

/-- Redirect the `prev` link of the optional cell `target`. -/
def setPrev [DecidableEq ι] (links : Links ι) (target prev : Option ι) : Links ι :=
  relink links target (fun pair => (prev, pair.2))

/-- `links` threads exactly the addresses `order`, in that order. -/
structure Threaded (links : Links ι) (order : List ι) : Prop where
  nodup : order.Nodup
  link : ∀ before i after, order = before ++ i :: after →
    links i = some (before.getLast?, after.head?)

/-- In a duplicate-free list a cell with a successor is not the last one. -/
lemma ne_getLast?_of_nodup {before rest : List ι} {j y : ι}
    (hnd : (before ++ j :: y :: rest).Nodup) : some j ≠ (before ++ j :: y :: rest).getLast? := by
  intro hcon
  have hlast : (before ++ j :: y :: rest).getLast? = (y :: rest).getLast? := by
    rw [List.getLast?_append_of_ne_nil _ (by simp), List.getLast?_cons_cons]
  have hmem : j ∈ y :: rest := mem_of_getLast? (hlast ▸ hcon.symm)
  exact (nodup_cons.mp (nodup_append.mp hnd).2.1).1 hmem

variable {i : ι}

namespace Threaded

variable {links : Links ι} {order : List ι}

lemma nil (links : Links ι) : Threaded links [] where
  nodup := nodup_nil
  link := by
    intro before i after h
    simp at h

lemma isSome_of_mem (h : Threaded links order) (hi : i ∈ order) : (links i).isSome := by
  rcases append_of_mem hi with ⟨before, after, hsplit⟩
  simp [h.link before i after hsplit]

/-- Only the links of the threaded addresses matter. -/
lemma congr {links' : Links ι} (h : Threaded links order)
    (hagree : ∀ i ∈ order, links' i = links i) : Threaded links' order where
  nodup := h.nodup
  link := by
    intro before i after hsplit
    rw [hagree i (by simp [hsplit]), h.link before i after hsplit]

/-- Appending a fresh cell behind the last one. -/
theorem append [DecidableEq ι] (h : Threaded links order) (hi : i ∉ order) :
    Threaded (setNext (put links i (order.getLast?, none)) order.getLast? (some i))
      (order ++ [i]) where
  nodup := by
    rw [nodup_append]
    refine ⟨h.nodup, nodup_singleton i, ?_⟩
    intro a ha b hb hab
    rw [mem_singleton.mp hb] at hab
    exact hi (hab ▸ ha)
  link := by
    intro before j after hsplit
    have hlast_ne : some i ≠ order.getLast? := by
      intro hlast
      exact hi (mem_of_getLast? hlast.symm)
    rcases eq_nil_or_concat after with rfl | ⟨rest, z, rfl⟩
    · -- the new cell itself
      rcases append_inj' hsplit (by simp) with ⟨rfl, hj⟩
      obtain rfl : i = j := by simpa using hj
      simp [setNext, relink, put, hlast_ne]
    -- an old cell, whose `next` changes only when it was the last one
    have hsplit' : order ++ [i] = (before ++ j :: rest) ++ [z] := by simpa using hsplit
    rcases append_inj' hsplit' (by simp) with ⟨horder, hz⟩
    obtain rfl : i = z := by simpa using hz
    have hji : j ≠ i := by
      intro hji
      exact hi (by simp [horder, hji])
    have hold := h.link before j rest horder
    cases rest with
    | nil =>
      have hlast : order.getLast? = some j := by simp [horder]
      simp [setNext, relink, put, hlast, hji, hold]
    | cons y ys =>
      have hjlast : some j ≠ order.getLast? := by
        rw [horder]
        exact ne_getLast?_of_nodup (horder ▸ h.nodup)
      simp [setNext, relink, put, hjlast, hji, hold]

/-- Bridging the neighbours of a cell that goes out of use. -/
theorem unlink [DecidableEq ι] {before after : List ι} (h : Threaded links (before ++ i :: after)) :
    Threaded (setPrev (setNext (remove links i) before.getLast? after.head?)
        after.head? before.getLast?)
      (before ++ after) where
  nodup := (nodup_middle.mp h.nodup).of_cons
  link := by
    have hnd := h.nodup
    rw [nodup_append] at hnd
    rcases hnd with ⟨hbnd, hiand, hcross⟩
    rcases nodup_cons.mp hiand with ⟨hia, hand⟩
    have hdisj : ∀ x ∈ before, x ∉ after := by
      intro x hx hxa
      exact hcross x hx x (by simp [hxa]) rfl
    have hib : i ∉ before := fun hi => hcross i hi i (by simp) rfl
    have hbehind : ∀ j ∈ after, j ≠ i ∧ some j ≠ before.getLast? := fun j hj =>
      ⟨fun hji => hia (hji ▸ hj), fun hcon => hdisj j (mem_of_getLast? hcon.symm) hj⟩
    intro b j a hsplit
    rcases append_eq_append_iff.mp hsplit with ⟨c, hb, hafter⟩ | ⟨c, hbefore, hja⟩
    · -- `j` lies behind the removed cell
      subst hb
      rcases hbehind j (by simp [hafter]) with ⟨hji, hjlast⟩
      have hold := h.link (before ++ i :: c) j a (by simp [hafter])
      cases c with
      | nil =>
        have hhead : after.head? = some j := by simp [hafter]
        have hnone : before.getLast? = some j ↔ False := by simpa [eq_comm] using hjlast
        simp [setPrev, setNext, relink, remove, hhead, hji, hold, hnone, eq_comm]
      | cons y ys => ?_
      have hhead : after.head? = some y := by simp [hafter]
      have hyj : j ≠ y := by
        intro hjy
        rw [hafter] at hand
        have := (nodup_cons.mp hand).1
        exact this (by simp [hjy])
      simp [setPrev, setNext, relink, remove, hhead, hji, hold, hjlast, hyj, List.getLast?_append]
    · rcases append_eq_cons_iff.mp hja.symm with ⟨rfl, hafter⟩ | ⟨rest, rfl, rfl⟩
      · -- `j` is the first cell behind the removed one, split at the seam
        simp only [append_nil] at hbefore
        subst hbefore
        rcases hbehind j (by simp [hafter]) with ⟨hji, hjlast⟩
        have hold := h.link (before ++ [i]) j a (by simp [hafter])
        have hhead : after.head? = some j := by simp [hafter]
        simp [setPrev, setNext, relink, remove, hhead, hji, hold, hjlast]
      · -- `j` lies in front of the removed cell
        subst hbefore
        have hjb : j ∈ b ++ j :: rest := by simp
        have hji : j ≠ i := fun hji => hib (hji ▸ hjb)
        have hjhead : some j ≠ after.head? := by
          intro hcon
          exact hdisj j hjb (mem_of_mem_head? hcon.symm)
        have hold := h.link b j (rest ++ i :: after) (by simp)
        rcases rest with _ | ⟨y, ys⟩
        · simp [setPrev, setNext, relink, remove, hji, hold, hjhead]
        have hjlast := ne_getLast?_of_nodup hbnd
        simp only [setPrev, setNext, relink, remove, if_neg hji, if_neg hjhead, if_neg hjlast]
        simpa using hold

end Threaded

/-! ## Singly linked chains -/

/-- `next` chains exactly the addresses `order`. -/
structure Chained (next : ι → Option (Option ι)) (order : List ι) : Prop where
  nodup : order.Nodup
  link : ∀ before i after, order = before ++ i :: after → next i = some after.head?

namespace Chained

variable {next next' : ι → Option (Option ι)} {order : List ι}

lemma nil (next : ι → Option (Option ι)) : Chained next [] where
  nodup := nodup_nil
  link := by
    intro before i after h
    simp at h

/-- Only the links of the chained addresses matter. -/
lemma congr (h : Chained next order) (hagree : ∀ i ∈ order, next' i = next i) :
    Chained next' order where
  nodup := h.nodup
  link := by
    intro before i after hsplit
    rw [hagree i (by simp [hsplit]), h.link before i after hsplit]

/-- Pushing a cell that points at the old head. -/
theorem push (h : Chained next order) (hi : i ∉ order) (hnew : next' i = some order.head?)
    (hagree : ∀ j ∈ order, next' j = next j) : Chained next' (i :: order) where
  nodup := nodup_cons.mpr ⟨hi, h.nodup⟩
  link := by
    intro before j after hsplit
    cases before with
    | nil =>
      obtain ⟨rfl, rfl⟩ : i = j ∧ order = after := by simpa using hsplit
      exact hnew
    | cons b before =>
      obtain ⟨rfl, horder⟩ : i = b ∧ order = before ++ j :: after := by simpa using hsplit
      rw [hagree j (by simp [horder]), h.link before j after horder]

/-- Dropping the head leaves the rest chained. -/
theorem pop (h : Chained next (i :: order)) : Chained next order where
  nodup := (nodup_cons.mp h.nodup).2
  link := by
    intro before j after hsplit
    exact h.link (i :: before) j after (by simp [hsplit])

end Chained

end Threading
