import Mathlib

/-!
# Equalities and three-way comparisons that are lawful on a set

Recursive data types compare their values through comparisons of their parts,
which are known to be lawful only on the parts that are smaller. This module
therefore states the laws of a Boolean equality and of a three-way comparison
relative to a predicate, and lifts them to lists, pairs and sorted entry lists.
-/

namespace Comparison

open List

variable {α β : Type}

/-- `eq` is an equivalence on the values that satisfy `P`. -/
structure EquivOn (P : α → Prop) (eq : α → α → Bool) : Prop where
  refl : ∀ {a}, P a → eq a a = true
  symm : ∀ {a b}, P a → P b → eq a b = true → eq b a = true
  trans : ∀ {a b c}, P a → P b → P c → eq a b = true → eq b c = true → eq a c = true

/-- `cmp` is a total order on the values that satisfy `P`, up to the equality `eq`. -/
structure LawfulOn (P : α → Prop) (eq : α → α → Bool) (cmp : α → α → Ordering) : Prop where
  swap : ∀ {a b}, P a → P b → cmp a b = (cmp b a).swap
  trans : ∀ {a b c}, P a → P b → P c → (cmp a b).isLE → (cmp b c).isLE → (cmp a c).isLE
  eq_iff : ∀ {a b}, P a → P b → (cmp a b = .eq ↔ eq a b = true)

variable {a b c : α}

namespace LawfulOn

variable {P : α → Prop} {eq : α → α → Bool} {cmp : α → α → Ordering}

section

variable (h : LawfulOn P eq cmp)

include h

lemma refl (ha : P a) : cmp a a = .eq := by
  have hswap := h.swap ha ha
  cases hcmp : cmp a a <;> simp [hcmp] at hswap ⊢

lemma isGE_iff (ha : P a) (hb : P b) : (cmp a b).isGE ↔ (cmp b a).isLE := by
  rw [h.swap ha hb]
  cases cmp b a <;> simp

lemma eq_symm (ha : P a) (hb : P b) (hab : cmp a b = .eq) : cmp b a = .eq := by
  rw [h.swap hb ha, hab]
  rfl

/-- Replacing the left argument by an equal one does not change a comparison. -/
lemma congr_left (ha : P a) (hb : P b) (hc : P c) (hab : cmp a b = .eq) : cmp a c = cmp b c := by
  have hba := h.eq_symm ha hb hab
  have hle : (cmp a c).isLE ↔ (cmp b c).isLE := ⟨fun hac => h.trans hb ha hc (by simp [hba]) hac,
      fun hbc => h.trans ha hb hc (by simp [hab]) hbc⟩
  have hge : (cmp a c).isGE ↔ (cmp b c).isGE := by
    rw [h.isGE_iff ha hc, h.isGE_iff hb hc]
    exact ⟨fun hca => h.trans hc ha hb hca (by simp [hab]),
      fun hcb => h.trans hc hb ha hcb (by simp [hba])⟩
  cases hac : cmp a c <;> cases hbc : cmp b c <;> simp_all

lemma congr_right (ha : P a) (hb : P b) (hc : P c) (hab : cmp a b = .eq) : cmp c a = cmp c b := by
  rw [h.swap hc ha, h.swap hc hb, h.congr_left ha hb hc hab]

/-- The equality of a lawful comparison is an equivalence. -/
lemma equivOn : EquivOn P eq where
  refl := fun ha => (h.eq_iff ha ha).mp (h.refl ha)
  symm := fun ha hb hab => (h.eq_iff hb ha).mp (h.eq_symm ha hb ((h.eq_iff ha hb).mpr hab))
  trans := by
    intro a b c ha hb hc hab hbc
    rw [← h.eq_iff ha hc, h.congr_left ha hb hc ((h.eq_iff ha hb).mpr hab)]
    exact (h.eq_iff hb hc).mpr hbc

end

end LawfulOn

/-- `eq` is an equivalence on `P`, and values it identifies feed a hasher alike. -/
structure HashableOn {F : Type} (P : α → Prop) (eq : α → α → Bool) (feed : α → F) : Prop
    extends EquivOn P eq where
  feed_eq : ∀ {a b}, P a → P b → eq a b = true → feed a = feed b

/-- Equality, hashing and comparison fit together on `P`. The comparison is only
spoken of where `ordered` holds. -/
structure CoherentOn {F : Type} (P : α → Prop) (eq : α → α → Bool) (feed : α → F)
    (cmp : α → α → Ordering) (ordered : Prop) : Prop extends HashableOn P eq feed where
  lawful : ordered → LawfulOn P eq cmp

/-! ## Transport along constructors

A sum type is compared by first comparing which constructor was used.
`CoherentOn.transport` moves the laws of a payload to the values that represent
it, and `CoherentOn.ofTag` puts the constructors together.
-/

variable {P : α → Prop} {Q : β → Prop} {eq : α → α → Bool} {eq' : β → β → Bool}
  {cmp : α → α → Ordering} {cmp' : β → β → Ordering} {F G : Type} {feed : α → F} {feed' : β → G}
  {ordered : Prop}

/-- The laws move from payloads to the values they represent. -/
lemma CoherentOn.transport (h : CoherentOn Q eq' feed' cmp' ordered) (rep : α → β → Prop)
    (hP : ∀ a, P a → ∃ x, rep a x ∧ Q x) (heq : ∀ {a b x y}, rep a x → rep b y → eq a b = eq' x y)
    (hfeed : ∀ {a b x y}, rep a x → rep b y → feed' x = feed' y → feed a = feed b)
    (hcmp : ∀ {a b x y}, rep a x → rep b y → cmp a b = cmp' x y) :
    CoherentOn P eq feed cmp ordered := by
  choose payload hrep hQ using hP
  have hEq : ∀ {a b} (ha : P a) (hb : P b), eq a b = eq' (payload a ha) (payload b hb) :=
    fun ha hb => heq (hrep _ ha) (hrep _ hb)
  have hCmp : ∀ {a b} (ha : P a) (hb : P b), cmp a b = cmp' (payload a ha) (payload b hb) :=
    fun ha hb => hcmp (hrep _ ha) (hrep _ hb)
  refine ⟨⟨⟨fun ha => ?_, fun ha hb => ?_, fun ha hb hc => ?_⟩, fun ha hb hab => ?_⟩,
    fun ho => ⟨fun ha hb => ?_, fun ha hb hc => ?_, fun ha hb => ?_⟩⟩
  · rw [hEq ha ha]
    exact h.refl (hQ _ ha)
  · rw [hEq ha hb, hEq hb ha]
    exact h.symm (hQ _ ha) (hQ _ hb)
  · rw [hEq ha hb, hEq hb hc, hEq ha hc]
    exact h.trans (hQ _ ha) (hQ _ hb) (hQ _ hc)
  · rw [hEq ha hb] at hab
    exact hfeed (hrep _ ha) (hrep _ hb) (h.feed_eq (hQ _ ha) (hQ _ hb) hab)
  · rw [hCmp ha hb, hCmp hb ha]
    exact (h.lawful ho).swap (hQ _ ha) (hQ _ hb)
  · rw [hCmp ha hb, hCmp hb hc, hCmp ha hc]
    exact (h.lawful ho).trans (hQ _ ha) (hQ _ hb) (hQ _ hc)
  · rw [hCmp ha hb, hEq ha hb]
    exact (h.lawful ho).eq_iff (hQ _ ha) (hQ _ hb)

/-- Values with different tags are never equal and are ordered by their tags;
within a tag the laws hold. -/
lemma CoherentOn.ofTag (tag : α → Nat) (heq : ∀ {a b}, eq a b = true → tag a = tag b)
    (hcmp : ordered → ∀ {a b}, tag a ≠ tag b → cmp a b = compare (tag a) (tag b))
    (h : ∀ a, P a → CoherentOn (fun b => P b ∧ tag b = tag a) eq feed cmp ordered) :
    CoherentOn P eq feed cmp ordered where
  refl := fun ha => (h _ ha).refl ⟨ha, rfl⟩
  symm := fun ha hb hab => (h _ ha).symm ⟨ha, rfl⟩ ⟨hb, (heq hab).symm⟩ hab
  trans := fun ha hb hc hab hbc => (h _ ha).trans ⟨ha, rfl⟩ ⟨hb, (heq hab).symm⟩
    ⟨hc, ((heq hab).trans (heq hbc)).symm⟩ hab hbc
  feed_eq := fun ha hb hab => (h _ ha).feed_eq ⟨ha, rfl⟩ ⟨hb, (heq hab).symm⟩ hab
  lawful := by
    intro ho
    have hle : ∀ {x y}, (cmp x y).isLE → tag x ≤ tag y := by
      intro x y hxy
      by_cases htag : tag x = tag y
      · exact htag.le
      · rw [hcmp ho htag] at hxy
        exact Nat.isLE_compare.mp hxy
    refine ⟨?_, ?_, ?_⟩
    · intro a b ha hb
      by_cases hab : tag a = tag b
      · exact ((h a ha).lawful ho).swap ⟨ha, rfl⟩ ⟨hb, hab.symm⟩
      · rw [hcmp ho hab, hcmp ho (Ne.symm hab)]
        exact (Nat.compare_swap _ _).symm
    · intro a b c ha hb hc hab hbc
      by_cases htag : tag a = tag c
      · have hb' : tag b = tag a := le_antisymm ((hle hbc).trans htag.ge) (hle hab)
        exact ((h a ha).lawful ho).trans ⟨ha, rfl⟩ ⟨hb, hb'⟩ ⟨hc, htag.symm⟩ hab hbc
      · rw [hcmp ho htag]
        exact Nat.isLE_compare.mpr ((hle hab).trans (hle hbc))
    · intro a b ha hb
      by_cases hab : tag a = tag b
      · exact ((h a ha).lawful ho).eq_iff ⟨ha, rfl⟩ ⟨hb, hab.symm⟩
      · rw [hcmp ho hab, Nat.compare_eq_eq]
        exact ⟨fun htag => absurd htag hab, fun hEq => absurd (heq hEq) hab⟩

/-- Laws that pass from the values below a size to those of that size hold. -/
lemma CoherentOn.ofMeasure (size : α → Nat)
    (hstep : ∀ n, CoherentOn (fun a => P a ∧ size a < n) eq feed cmp ordered →
      CoherentOn (fun a => P a ∧ size a < n + 1) eq feed cmp ordered) :
    CoherentOn P eq feed cmp ordered := by
  have h : ∀ n, CoherentOn (fun a => P a ∧ size a < n) eq feed cmp ordered := by
    intro n
    induction n with
    | zero => refine ⟨⟨⟨?_, ?_, ?_⟩, ?_⟩, fun _ => ⟨?_, ?_, ?_⟩⟩ <;> simp
    | succ n ih => exact hstep n ih
  refine ⟨⟨⟨?_, ?_, ?_⟩, ?_⟩, fun ho => ⟨?_, ?_, ?_⟩⟩
  · exact fun ha => (h _).refl ⟨ha, Nat.lt_succ_self _⟩
  · intro a b ha hb
    exact (h (size a + size b + 1)).symm ⟨ha, by omega⟩ ⟨hb, by omega⟩
  · intro a b c ha hb hc
    exact (h (size a + size b + size c + 1)).trans ⟨ha, by omega⟩ ⟨hb, by omega⟩ ⟨hc, by omega⟩
  · intro a b ha hb
    exact (h (size a + size b + 1)).feed_eq ⟨ha, by omega⟩ ⟨hb, by omega⟩
  · intro a b ha hb
    exact ((h (size a + size b + 1)).lawful ho).swap ⟨ha, by omega⟩ ⟨hb, by omega⟩
  · intro a b c ha hb hc
    exact ((h (size a + size b + size c + 1)).lawful ho).trans ⟨ha, by omega⟩ ⟨hb, by omega⟩
      ⟨hc, by omega⟩
  · intro a b ha hb
    exact ((h (size a + size b + 1)).lawful ho).eq_iff ⟨ha, by omega⟩ ⟨hb, by omega⟩

/-- An equality that is decided by a key is lawful. -/
lemma HashableOn.ofKey {K : Type} [DecidableEq K] (key : α → K)
    (heq : ∀ a b, eq a b = decide (key a = key b))
    (hfeed : ∀ a b, key a = key b → feed a = feed b) : HashableOn P eq feed where
  refl := by simp [heq]
  symm := by
    intro a b _ _
    simp only [heq, decide_eq_true_eq]
    exact Eq.symm
  trans := by
    intro a b c _ _ _
    simp only [heq, decide_eq_true_eq]
    exact Eq.trans
  feed_eq := by
    intro a b _ _
    simp only [heq, decide_eq_true_eq]
    exact hfeed a b

/-- A comparison by a key of a lawfully ordered type is lawful. -/
lemma LawfulOn.ofKey {K : Type} [DecidableEq K] [Ord K] [Std.TransOrd K] [Std.LawfulEqOrd K]
    (key : α → K) (heq : ∀ a b, eq a b = decide (key a = key b))
    (hcmp : ∀ a b, cmp a b = compare (key a) (key b)) : LawfulOn P eq cmp where
  swap := by
    intro a b _ _
    rw [hcmp, hcmp]
    exact Std.OrientedCmp.eq_swap
  trans := by
    intro a b c _ _ _
    rw [hcmp, hcmp, hcmp]
    exact Std.TransCmp.isLE_trans
  eq_iff := by
    intro a b _ _
    rw [hcmp, heq, decide_eq_true_eq]
    exact Std.LawfulEqCmp.compare_eq_iff_eq

/-! ## Lists and pairs -/

/-- Componentwise equality of lists. -/
def listEq (eq : α → α → Bool) : List α → List α → Bool
  | [], [] => true
  | a :: as, b :: bs => eq a b && listEq eq as bs
  | _, _ => false

variable {l l' : List α}

lemma listEq_iff {eq : α → α → Bool} :
    listEq eq l l' = true ↔ List.Forall₂ (fun a b => eq a b = true) l l' := by
  induction l generalizing l' with
  | nil => cases l' <;> simp [listEq]
  | cons a l ih => cases l' <;> simp [listEq, ih]

/-- Equality of lists depends on the equality of their members only. -/
lemma listEq_congr {eq eq' : α → α → Bool} (h : ∀ a ∈ l, ∀ b ∈ l', eq a b = eq' a b) :
    listEq eq l l' = listEq eq' l l' := by
  induction l generalizing l' with
  | nil => cases l' <;> rfl
  | cons a l ih => ?_
  cases l' with
  | nil => rfl
  | cons b l' =>
    rw [listEq, listEq, h a (by simp) b (by simp),
      ih (fun x hx y hy => h x (by simp [hx]) y (by simp [hy]))]

lemma all_congr_of_mem {p q : α → Bool} (h : ∀ a ∈ l, p a = q a) : l.all p = l.all q := by
  rw [Bool.eq_iff_iff, all_eq_true, all_eq_true]
  exact forall₂_congr (fun a ha => by rw [h a ha])

/-- Lexicographic comparison depends on the comparison of members only. -/
lemma compareLex_congr {cmp cmp' : α → α → Ordering} (h : ∀ a ∈ l, ∀ b ∈ l', cmp a b = cmp' a b) :
    List.compareLex cmp l l' = List.compareLex cmp' l l' := by
  induction l generalizing l' with
  | nil => cases l' <;> rfl
  | cons a l ih => ?_
  cases l' with
  | nil => rfl
  | cons b l' =>
    rw [List.compareLex_cons_cons, List.compareLex_cons_cons, h a (by simp) b (by simp),
      ih (fun x hx y hy => h x (by simp [hx]) y (by simp [hy]))]

/-- Componentwise equality of pairs. -/
def pairEq (eq : α → α → Bool) (eq' : β → β → Bool) (p q : α × β) : Bool :=
  eq p.1 q.1 && eq' p.2 q.2

/-- Lexicographic comparison of pairs. -/
def pairCmp (cmp : α → α → Ordering) (cmp' : β → β → Ordering) (p q : α × β) : Ordering :=
  (cmp p.1 q.1).then (cmp' p.2 q.2)

/-- Equality of options. -/
def optionEq (eq : α → α → Bool) : Option α → Option α → Bool
  | none, none => true
  | some a, some b => eq a b
  | _, _ => false

/-- Comparison of options, with `none` first. -/
def optionCmp (cmp : α → α → Ordering) : Option α → Option α → Ordering
  | none, none => .eq
  | none, some _ => .lt
  | some _, none => .gt
  | some a, some b => cmp a b

/-- Equality of results. -/
def exceptEq (eq : α → α → Bool) : Except α α → Except α α → Bool
  | .ok a, .ok b => eq a b
  | .error a, .error b => eq a b
  | _, _ => false

/-- Comparison of results, with successes first. -/
def exceptCmp (cmp : α → α → Ordering) : Except α α → Except α α → Ordering
  | .ok a, .ok b => cmp a b
  | .ok _, .error _ => .lt
  | .error _, .ok _ => .gt
  | .error a, .error b => cmp a b

/-- Which side a result is on, and its payload. -/
def sided : Except α α → Bool × α
  | .ok a => (false, a)
  | .error a => (true, a)

/-- A lexicographic step: the second comparison decides only a first tie. -/
lemma then_isLE_iff {a b : Ordering} : (a.then b).isLE ↔ a = .lt ∨ (a = .eq ∧ b.isLE) := by
  cases a <;> simp

/-- Strict comparisons compose with weak ones. -/
lemma LawfulOn.lt_trans_isLE (h : LawfulOn P eq cmp) (ha : P a) (hb : P b) (hc : P c)
    (hab : cmp a b = .lt) (hbc : (cmp b c).isLE) : cmp a c = .lt := by
  have hac := h.trans ha hb hc (by simp [hab]) hbc
  cases hcase : cmp a c with
  | lt => rfl
  | gt => simp [hcase] at hac
  | eq =>
    rw [← h.congr_right ha hc hb hcase, h.swap hb ha, hab] at hbc
    exact absurd hbc (by decide)

section

variable (h : CoherentOn P eq feed cmp ordered)

include h

theorem CoherentOn.prod (h' : CoherentOn Q eq' feed' cmp' ordered) :
    CoherentOn (fun p : α × β => P p.1 ∧ Q p.2) (pairEq eq eq') (fun p => (feed p.1, feed' p.2))
      (pairCmp cmp cmp') ordered where
  refl := by
    intro p hp
    simp [pairEq, h.refl hp.1, h'.refl hp.2]
  symm := by
    intro p q hp hq hpq
    simp only [pairEq, Bool.and_eq_true] at *
    exact ⟨h.symm hp.1 hq.1 hpq.1, h'.symm hp.2 hq.2 hpq.2⟩
  trans := by
    intro p q r hp hq hr hpq hqr
    simp only [pairEq, Bool.and_eq_true] at *
    exact ⟨h.trans hp.1 hq.1 hr.1 hpq.1 hqr.1, h'.trans hp.2 hq.2 hr.2 hpq.2 hqr.2⟩
  feed_eq := by
    intro p q hp hq hpq
    simp only [pairEq, Bool.and_eq_true] at hpq
    rw [h.feed_eq hp.1 hq.1 hpq.1, h'.feed_eq hp.2 hq.2 hpq.2]
  lawful := by
    intro ho
    have hl := h.lawful ho
    have hl' := h'.lawful ho
    refine ⟨?_, ?_, ?_⟩
    · intro p q hp hq
      rw [pairCmp, pairCmp, hl.swap hp.1 hq.1, hl'.swap hp.2 hq.2, Ordering.swap_then]
    · intro p q r hp hq hr hpq hqr
      simp only [pairCmp, then_isLE_iff] at *
      rcases hpq with hpq | ⟨hpq, hpq'⟩
      · left
        have hle : (cmp q.1 r.1).isLE := by rcases hqr with hqr | ⟨hqr, -⟩ <;> simp [hqr]
        exact hl.lt_trans_isLE hp.1 hq.1 hr.1 hpq hle
      · rw [hl.congr_left hp.1 hq.1 hr.1 hpq]
        rcases hqr with hqr | ⟨hqr, hqr'⟩
        · exact Or.inl hqr
        · exact Or.inr ⟨hqr, hl'.trans hp.2 hq.2 hr.2 hpq' hqr'⟩
    · intro p q hp hq
      simp only [pairCmp, pairEq, Ordering.then_eq_eq, Bool.and_eq_true]
      rw [hl.eq_iff hp.1 hq.1, hl'.eq_iff hp.2 hq.2]

theorem CoherentOn.option :
    CoherentOn (fun o : Option α => ∀ a ∈ o.toList, P a) (optionEq eq) (fun o => o.map feed)
      (optionCmp cmp) ordered := by
  refine CoherentOn.ofTag (fun o => o.toList.length) ?_ ?_ ?_
  · intro o o' hEq
    cases o <;> cases o' <;> simp [optionEq] at hEq ⊢
  · intro _ o o' hne
    cases o <;> cases o' <;> simp [optionCmp] at hne ⊢ <;> rfl
  intro o _
  rcases o with _ | a
  · refine ⟨⟨⟨?_, ?_, ?_⟩, ?_⟩, fun _ => ⟨?_, ?_, ?_⟩⟩ <;> simp_all [optionEq, optionCmp]
  refine h.transport (fun o a => o = some a) ?_ ?_ ?_ ?_
  · rintro (_ | b) ⟨hb, hlen⟩
    · simp at hlen
    · exact ⟨b, rfl, hb b (by simp)⟩
  · rintro _ _ x y rfl rfl
    rfl
  · rintro _ _ x y rfl rfl hfeed
    simp [hfeed]
  · rintro _ _ x y rfl rfl
    rfl

lemma CoherentOn.except : CoherentOn (fun r : Except α α => P (sided r).2) (exceptEq eq)
      (fun r => ((sided r).1, feed (sided r).2)) (exceptCmp cmp) ordered := by
  have hside : CoherentOn (fun _ => True) (fun a b : Bool => a == b) id compare ordered :=
    ⟨HashableOn.ofKey id (by simp [Bool.beq_eq_decide_eq]) (fun _ _ hab => hab),
      fun _ => LawfulOn.ofKey id (by simp [Bool.beq_eq_decide_eq]) (fun _ _ => rfl)⟩
  refine (hside.prod h).transport (fun r p => p = sided r)
    (fun r hr => ⟨sided r, rfl, trivial, hr⟩) ?_ ?_ ?_
  · rintro r r' _ _ rfl rfl
    cases r <;> cases r' <;> simp [exceptEq, pairEq, sided]
  · rintro r r' _ _ rfl rfl hfeed
    exact hfeed
  · rintro r r' _ _ rfl rfl
    cases r <;> cases r' <;> rfl

/-- A nonempty list is a pair of its head and a shorter list. -/
theorem CoherentOn.list :
    CoherentOn (fun l : List α => ∀ a ∈ l, P a) (listEq eq) (fun l => l.map feed)
      (List.compareLex cmp) ordered := by
  refine CoherentOn.ofMeasure List.length (fun n ih => ?_)
  refine (h.prod ih).option.transport (fun l o => o = l.next?) ?_ ?_ ?_ ?_
  · rintro (_ | ⟨a, l⟩) ⟨hl, hlen⟩
    · exact ⟨none, rfl, by simp⟩
    · simp only [length_cons, Nat.add_lt_add_iff_right] at hlen
      exact ⟨some (a, l), rfl, by simpa [hlen] using hl⟩
  · rintro l l' _ _ rfl rfl
    cases l <;> cases l' <;> rfl
  · rintro l l' _ _ rfl rfl hfeed
    cases l <;> cases l' <;> simp_all
  · rintro l l' _ _ rfl rfl
    cases l <;> cases l' <;> try rfl
    exact List.compareLex_cons_cons

end

/-! ## Recursion on two arguments at once -/

section Iterate

/-- Iterate a body that recurses on parts of either of its two arguments. -/
def iterate {δ : Type} (body : (α → α → δ) → α → α → δ) (base : δ) : Nat → α → α → δ
  | 0 => fun _ _ => base
  | n + 1 => body (iterate body base n)

/-- A body that recurses on smaller arguments only. -/
def Shrinking {δ : Type} (size : α → Nat) (body : (α → α → δ) → α → α → δ) : Prop :=
  ∀ rec rec' a b, (∀ x y, size x < max (size a) (size b) → size y < max (size a) (size b) →
    rec x y = rec' x y) → body rec a b = body rec' a b

variable {δ : Type} {size : α → Nat} {body : (α → α → δ) → α → α → δ} {base : δ}

/-- More iterations than the arguments are large change nothing. -/
lemma iterate_stable (hbody : Shrinking size body) (hpos : ∀ a, 0 < size a) {n m : Nat}
    (hn : max (size a) (size b) ≤ n) (hm : max (size a) (size b) ≤ m) :
    iterate body base n a b = iterate body base m a b := by
  induction n generalizing m a b with
  | zero =>
    have := hpos a
    omega
  | succ n ih => ?_
  cases m with
  | zero =>
    have := hpos a
    omega
  | succ m => refine hbody _ _ a b (fun x y hx hy => ih ?_ ?_) <;> omega

/-- Iterating as often as the arguments are large solves the recursive equation. -/
lemma iterate_unfold (hbody : Shrinking size body) (hpos : ∀ a, 0 < size a) (a b : α) :
    iterate body base (max (size a) (size b)) a b =
      body (fun x y => iterate body base (max (size x) (size y)) x y) a b := by
  rw [iterate_stable hbody hpos le_rfl (Nat.le_succ (max (size a) (size b)))]
  exact hbody _ _ a b (fun x y hx hy => iterate_stable hbody hpos (by omega) le_rfl)

end Iterate

/-! ## Matching two lists -/

variable {R : α → β → Prop}

/-- An injective matching between lists of the same length pairs one of them with
a permutation of the other. -/
theorem exists_perm_forall₂ {l' : List β} (hmatch : ∀ a ∈ l, ∃ b ∈ l', R a b)
    (hinj : l.Pairwise (fun a a' => ∀ b ∈ l', R a b → ¬ R a' b)) (hlen : l.length = l'.length) :
    ∃ l'', l''.Perm l' ∧ List.Forall₂ R l l'' := by
  induction l generalizing l' with
  | nil =>
    have hnil : l' = [] := length_eq_zero_iff.mp hlen.symm
    exact ⟨[], by simp [hnil], List.Forall₂.nil⟩
  | cons a l ih => ?_
  rcases hmatch a (by simp) with ⟨b, hb, hab⟩
  rcases append_of_mem hb with ⟨before, after, rfl⟩
  rw [pairwise_cons] at hinj
  have hrest : ∀ x ∈ l, ∃ y ∈ before ++ after, R x y := by
    intro x hx
    rcases hmatch x (by simp [hx]) with ⟨y, hy, hxy⟩
    have hne : y ≠ b := by
      rintro rfl
      exact hinj.1 x hx y hb hab hxy
    refine ⟨y, ?_, hxy⟩
    simpa [hne] using hy
  have hinj' : l.Pairwise (fun x x' => ∀ y ∈ before ++ after, R x y → ¬ R x' y) := by
    refine hinj.2.imp ?_
    intro x x' hxx y hy
    exact hxx y (by rcases mem_append.mp hy with h | h <;> simp [h])
  rcases ih hrest hinj' (by simp at hlen ⊢; omega) with ⟨l'', hperm, hforall⟩
  exact ⟨b :: l'', (hperm.cons b).trans perm_middle.symm, List.Forall₂.cons hab hforall⟩

/-- Every member of a matched list has its partner in the other list. -/
lemma exists_of_forall₂ {l' : List β} (h : List.Forall₂ R l l') (ha : a ∈ l) : ∃ b ∈ l', R a b := by
  induction h with
  | nil => simp at ha
  | @cons x y _ _ hxy _ ih =>
    rcases mem_cons.mp ha with rfl | ha
    · exact ⟨y, by simp, hxy⟩
    · rcases ih ha with ⟨b, hb, hab⟩
      exact ⟨b, by simp [hb], hab⟩

/-- A pairwise relation moves along a matching that preserves it. -/
lemma pairwise_of_forall₂ {S : α → α → Prop} {S' : β → β → Prop} {l' : List β}
    (h : List.Forall₂ R l l') (hS : l.Pairwise S)
    (hmove : ∀ a ∈ l, ∀ b ∈ l', ∀ a' ∈ l, ∀ b' ∈ l', R a b → R a' b' → S a a' → S' b b') :
    l'.Pairwise S' := by
  induction h with
  | nil => exact List.Pairwise.nil
  | @cons a b l l' hab hrest ih => ?_
  rw [pairwise_cons] at hS ⊢
  refine ⟨?_, ih hS.2 ?_⟩
  · intro b' hb'
    rcases exists_of_forall₂ (R := fun y x => R x y) hrest.flip hb' with ⟨a', ha', ha'b'⟩
    exact hmove a (by simp) b (by simp) a' (by simp [ha']) b' (by simp [hb']) hab ha'b'
      (hS.1 a' ha')
  · intro x hx y hy x' hx' y' hy'
    exact hmove x (by simp [hx]) y (by simp [hy]) x' (by simp [hx']) y' (by simp [hy'])

/-! ## Sorting by a lawful comparison -/

/-- Stable sort by a three-way comparison. -/
def sortBy (cmp : α → α → Ordering) (l : List α) : List α :=
  l.mergeSort (fun a b => (cmp a b).isLE)

lemma sortBy_perm (cmp : α → α → Ordering) (l : List α) : (sortBy cmp l).Perm l :=
  mergeSort_perm l _

lemma mem_sortBy {cmp : α → α → Ordering} : a ∈ sortBy cmp l ↔ a ∈ l := (sortBy_perm cmp l).mem_iff

/-- Sorting depends on the comparisons of members only. -/
lemma sortBy_congr {cmp cmp' : α → α → Ordering} (h : ∀ a ∈ l, ∀ b ∈ l, cmp a b = cmp' a b) :
    sortBy cmp l = sortBy cmp' l := by
  have hmap := map_mergeSort (r := fun a b => (cmp a b).isLE)
    (s := fun a b => (cmp' a b).isLE) (f := id) (l := l) (by intro a ha b hb; simp [h a ha b hb])
  simpa [sortBy] using hmap

lemma LawfulOn.pairwise_sortBy (h : LawfulOn P eq cmp) (hl : ∀ a ∈ l, P a) :
    (sortBy cmp l).Pairwise (fun a b => (cmp a b).isLE) := by
  have hmap : (l.attachWith P hl).map Subtype.val = l := attachWith_map_subtype_val hl
  have hsorted : ((l.attachWith P hl).mergeSort (fun a b => (cmp a.1 b.1).isLE)).Pairwise
      (fun a b => (cmp a.1 b.1).isLE) := by
    apply pairwise_mergeSort
    · intro a b c
      exact h.trans a.2 b.2 c.2
    · intro a b
      rw [h.swap a.2 b.2]
      cases cmp b.1 a.1 <;> simp
  have hval := map_mergeSort (r := fun a b : {a // P a} => (cmp a.1 b.1).isLE)
    (s := fun a b => (cmp a b).isLE) (f := Subtype.val) (l := l.attachWith P hl)
    (by intro a _ b _; rfl)
  rw [hmap] at hval
  rw [sortBy, ← hval, pairwise_map]
  exact hsorted

/-- Sorting distinct entries gives a strictly increasing list. -/
lemma LawfulOn.pairwise_lt_sortBy (h : LawfulOn P eq cmp) (hl : ∀ a ∈ l, P a)
    (hdistinct : l.Pairwise (fun a b => eq a b = false)) :
    (sortBy cmp l).Pairwise (fun a b => cmp a b = .lt) := by
  have hperm := sortBy_perm cmp l
  have hmem : ∀ a ∈ sortBy cmp l, P a := fun a ha => hl a (hperm.mem_iff.mp ha)
  have hne : (sortBy cmp l).Pairwise (fun a b => P a → P b → cmp a b ≠ .eq) := by
    have hne' : l.Pairwise (fun a b => P a → P b → cmp a b ≠ .eq) := by
      refine hdistinct.imp ?_
      intro a b hab ha hb heq
      rw [h.eq_iff ha hb, hab] at heq
      exact absurd heq (by simp)
    refine (hperm.pairwise_iff ?_).mpr hne'
    intro a b hab hb ha heq
    exact hab ha hb (h.eq_symm hb ha heq)
  have hboth := (h.pairwise_sortBy hl).and hne
  refine hboth.imp_of_mem ?_
  intro a b ha hb hab
  cases hcase : cmp a b <;> simp_all

/-- Entries with distinct keys match as collections exactly when their sorted
lists match position by position. `cmp` compares keys, `R` whole entries. -/
theorem LawfulOn.forall₂_sortBy_iff (h : LawfulOn P eq cmp) {R : α → α → Prop}
    (hR : ∀ {a b}, P a → P b → R a b → eq a b = true) (hl : ∀ a ∈ l, P a) (hl' : ∀ a ∈ l', P a)
    (hd : l.Pairwise (fun a b => eq a b = false)) (hd' : l'.Pairwise (fun a b => eq a b = false)) :
    (l.length = l'.length ∧ ∀ a ∈ l, ∃ b ∈ l', R a b) ↔
      List.Forall₂ R (sortBy cmp l) (sortBy cmp l') := by
  have hperm := sortBy_perm cmp l
  have hperm' := sortBy_perm cmp l'
  constructor
  · rintro ⟨hlen, hmatch⟩
    have hinj : l.Pairwise (fun a a' => ∀ b ∈ l', R a b → ¬ R a' b) := by
      refine hd.imp_of_mem ?_
      intro a a' ha ha' haa b hb hab ha'b
      have hcmp := (h.eq_iff (hl a ha) (hl' b hb)).mpr (hR (hl a ha) (hl' b hb) hab)
      have hcmp' := (h.eq_iff (hl a' ha') (hl' b hb)).mpr (hR (hl a' ha') (hl' b hb) ha'b)
      have hba' := h.eq_symm (hl a' ha') (hl' b hb) hcmp'
      rw [← h.congr_left (hl a ha) (hl' b hb) (hl a' ha') hcmp,
        h.eq_iff (hl a ha) (hl a' ha'), haa] at hba'
      exact absurd hba' (by simp)
    rcases exists_perm_forall₂ hmatch hinj hlen with ⟨l'', hperm'', hforall⟩
    rcases perm_comp_forall₂ hperm hforall with ⟨sorted, hpair, hsorted⟩
    have hmem : ∀ b ∈ sorted, P b := fun b hb => hl' b (hperm''.mem_iff.mp (hsorted.mem_iff.mp hb))
    have hstrict : sorted.Pairwise (fun a b => cmp a b = .lt) := by
      have hlt := h.pairwise_lt_sortBy hl hd
      have hlP : ∀ a ∈ sortBy cmp l, P a := fun a ha => hl a (hperm.mem_iff.mp ha)
      refine pairwise_of_forall₂ hpair hlt ?_
      intro a ha b hb a' ha' b' hb' hab ha'b' haa
      rw [← h.congr_left (hlP a ha) (hmem b hb) (hmem b' hb')
          ((h.eq_iff (hlP a ha) (hmem b hb)).mpr (hR (hlP a ha) (hmem b hb) hab)),
        ← h.congr_right (hlP a' ha') (hmem b' hb') (hlP a ha)
          ((h.eq_iff (hlP a' ha') (hmem b' hb')).mpr (hR (hlP a' ha') (hmem b' hb') ha'b'))]
      exact haa
    have heq : sorted = sortBy cmp l' := by
      refine List.Perm.eq_of_pairwise ?_ hstrict (h.pairwise_lt_sortBy hl' hd')
        ((hsorted.trans hperm'').trans hperm'.symm)
      intro a b ha hb hab hba
      rw [h.swap (hmem a ha) (hl' b (hperm'.mem_iff.mp hb)), hba] at hab
      exact absurd hab (by simp)
    rw [← heq]
    exact hpair
  · intro hpair
    refine ⟨?_, ?_⟩
    · rw [← hperm.length_eq, ← hperm'.length_eq]
      exact hpair.length_eq
    · intro a ha
      rcases exists_of_forall₂ hpair (hperm.mem_iff.mpr ha) with ⟨b, hb, hab⟩
      exact ⟨b, hperm'.mem_iff.mp hb, hab⟩

end Comparison
