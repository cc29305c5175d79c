import Mathlib

/-!
# Insertion-ordered association lists

The abstract object behind an insertion-ordered map: a list of key/value pairs
in which every key occurs once. Keys are compared by a Boolean equality that is
only assumed to be an equivalence, so two keys may be equal without being
identical; a replaced entry keeps the key that was stored first.
-/

namespace AssocList

open List

variable {K V : Type} [BEq K]

/-- The value stored under `k`. -/
def lookup (l : List (K × V)) (k : K) : Option V :=
  (l.find? (fun e => e.1 == k)).map Prod.snd

/-- Whether some entry is stored under `k`. -/
def contains (l : List (K × V)) (k : K) : Bool :=
  l.any (fun e => e.1 == k)

/-- Overwrite the value stored under `k`, keeping keys and positions. -/
def replace (l : List (K × V)) (k : K) (v : V) : List (K × V) :=
  l.map (fun e => if e.1 == k then (e.1, v) else e)

/-- Overwrite a present key in place, append an absent one. -/
def insert (l : List (K × V)) (k : K) (v : V) : List (K × V) :=
  if contains l k then replace l k v else l ++ [(k, v)]

/-- Remove the entry stored under `k`. -/
def erase (l : List (K × V)) (k : K) : List (K × V) :=
  l.filter (fun e => !(e.1 == k))

/-- Keys are pairwise different. -/
def NodupKeys (l : List (K × V)) : Prop :=
  l.Pairwise (fun a b => (a.1 == b.1) = false)

/-! ## Reading -/

lemma contains_eq_true_iff {l : List (K × V)} {k : K} :
    contains l k = true ↔ ∃ e ∈ l, (e.1 == k) = true := by
  simp [contains]

lemma contains_eq_false_iff {l : List (K × V)} {k : K} :
    contains l k = false ↔ ∀ e ∈ l, (e.1 == k) = false := by
  simp [contains]

/-- Membership of a key and definedness of its lookup are the same test. -/
lemma isSome_lookup (l : List (K × V)) (k : K) : (lookup l k).isSome = contains l k := by
  rw [Bool.eq_iff_iff, contains_eq_true_iff, lookup, Option.isSome_map, List.find?_isSome]

lemma lookup_eq_none_of_contains {l : List (K × V)} {k : K}
    (h : contains l k = false) : lookup l k = none := by
  have hnone : (lookup l k).isSome = false := by rw [isSome_lookup, h]
  simpa using hnone

/-- An association list that contains `k` splits at the entry of `k`. -/
lemma exists_split_of_contains {l : List (K × V)} {k : K} (h : contains l k = true) :
    ∃ before k₀ v₀ after, l = before ++ (k₀, v₀) :: after ∧ (k₀ == k) = true := by
  rcases contains_eq_true_iff.mp h with ⟨e, he, hek⟩
  rcases append_of_mem he with ⟨before, after, hl⟩
  exact ⟨before, e.1, e.2, after, hl, hek⟩

section Split

variable [EquivBEq K] {before after : List (K × V)} {k k₀ : K} {v v₀ : V}

omit [EquivBEq K] in
lemma contains_of_split (hk : (k₀ == k) = true) :
    contains (before ++ (k₀, v₀) :: after) k = true := by
  simp [contains, hk]

variable (hnd : NodupKeys (before ++ (k₀, v₀) :: after)) (hk : (k₀ == k) = true)

include hnd hk

lemma NodupKeys.before_ne : ∀ e ∈ before, (e.1 == k) = false := by
  intro e he
  have hne : (e.1 == k₀) = false := (pairwise_append.mp hnd).2.2 e he (k₀, v₀) (by simp)
  by_contra hcon
  have hek : (e.1 == k) = true := by simpa using hcon
  have : (e.1 == k₀) = true := BEq.trans hek (BEq.symm hk)
  simp [this] at hne

lemma NodupKeys.after_ne : ∀ e ∈ after, (e.1 == k) = false := by
  intro e he
  have htail : NodupKeys ((k₀, v₀) :: after) := (pairwise_append.mp hnd).2.1
  have hne : (k₀ == e.1) = false := (pairwise_cons.mp htail).1 e he
  by_contra hcon
  have hek : (e.1 == k) = true := by simpa using hcon
  have : (k₀ == e.1) = true := BEq.trans hk (BEq.symm hek)
  simp [this] at hne

/-- A lookup reads the unique entry stored under its key. -/
theorem lookup_eq_of_split : lookup (before ++ (k₀, v₀) :: after) k = some v₀ := by
  have hbefore : before.find? (fun e => e.1 == k) = none := by
    rw [List.find?_eq_none]
    intro e he
    simp [hnd.before_ne hk e he]
  simp [lookup, List.find?_append, hbefore, hk]

/-- Overwriting a present key changes the value of its entry and nothing else. -/
lemma replace_eq_of_split :
    replace (before ++ (k₀, v₀) :: after) k v = before ++ (k₀, v) :: after := by
  have hfix : ∀ l : List (K × V), (∀ e ∈ l, (e.1 == k) = false) →
      l.map (fun e => if e.1 == k then (e.1, v) else e) = l := by
    intro l hl
    conv_rhs => rw [← map_id l]
    apply map_congr_left
    intro e he
    simp [hl e he]
  simp only [replace, map_append, map_cons, hk, if_true]
  rw [hfix before (hnd.before_ne hk), hfix after (hnd.after_ne hk)]

/-- Inserting a present key rewrites its value in place. -/
theorem insert_eq_of_split :
    insert (before ++ (k₀, v₀) :: after) k v = before ++ (k₀, v) :: after := by
  rw [insert, if_pos (contains_of_split hk), replace_eq_of_split hnd hk]

/-- Erasing a present key removes its entry and nothing else. -/
theorem erase_eq_of_split : erase (before ++ (k₀, v₀) :: after) k = before ++ after := by
  have hkeep : ∀ l : List (K × V), (∀ e ∈ l, (e.1 == k) = false) →
      l.filter (fun e => !(e.1 == k)) = l := by
    intro l hl
    rw [filter_eq_self]
    intro e he
    simp [hl e he]
  simp only [erase, filter_append, filter_cons, hk]
  simp [hkeep before (hnd.before_ne hk), hkeep after (hnd.after_ne hk)]

end Split

/-! ## Updates of an absent key -/

lemma insert_eq_append {l : List (K × V)} {k : K} {v : V}
    (h : contains l k = false) : insert l k v = l ++ [(k, v)] := by
  simp [insert, h]

lemma mem_insert {l : List (K × V)} {k : K} {v : V} {e : K × V} (h : e ∈ insert l k v) :
    e.2 = v ∨ e ∈ l := by
  unfold insert replace at h
  split at h
  · rcases mem_map.mp h with ⟨e', he', rfl⟩
    split
    · exact Or.inl rfl
    · exact Or.inr he'
  · rcases mem_append.mp h with h | h
    · exact Or.inr h
    · rw [mem_singleton.mp h]
      exact Or.inl rfl

lemma replace_eq_self {l : List (K × V)} {k : K} {v : V}
    (h : contains l k = false) : replace l k v = l := by
  rw [contains_eq_false_iff] at h
  conv_rhs => rw [← map_id l]
  apply map_congr_left
  intro e he
  simp [h e he]

lemma erase_eq_self {l : List (K × V)} {k : K} (h : contains l k = false) : erase l k = l := by
  rw [contains_eq_false_iff] at h
  rw [erase, filter_eq_self]
  intro e he
  simp [h e he]

/-! ## Distinct keys are preserved -/

/-- Distinctness only looks at the keys. -/
lemma NodupKeys.of_replaced {before after : List (K × V)} {k : K} {v w : V}
    (hnd : NodupKeys (before ++ (k, v) :: after)) : NodupKeys (before ++ (k, w) :: after) := by
  unfold NodupKeys at *
  rw [pairwise_append, pairwise_cons] at *
  rcases hnd with ⟨hbefore, ⟨hhead, htail⟩, hcross⟩
  refine ⟨hbefore, ⟨fun e he => hhead e he, htail⟩, ?_⟩
  intro a ha b hb
  rcases mem_cons.mp hb with rfl | hb
  · exact hcross a ha (k, v) (by simp)
  · exact hcross a ha b (by simp [hb])

lemma nodupKeys_iff {l : List (K × V)} :
    NodupKeys l ↔ (l.map Prod.fst).Pairwise (fun a b => (a == b) = false) := by
  rw [NodupKeys, pairwise_map]

lemma NodupKeys.nodup [LawfulBEq K] {l : List (K × V)} (hnd : NodupKeys l) :
    (l.map Prod.fst).Nodup :=
  (nodupKeys_iff.mp hnd).imp (fun h => beq_eq_false_iff_ne.mp h)

lemma NodupKeys.append_of_absent {l : List (K × V)} {k : K} {v : V}
    (hnd : NodupKeys l) (h : contains l k = false) : NodupKeys (l ++ [(k, v)]) := by
  rw [contains_eq_false_iff] at h
  unfold NodupKeys at *
  rw [pairwise_append]
  refine ⟨hnd, pairwise_singleton _ _, ?_⟩
  intro a ha b hb
  rw [mem_singleton.mp hb]
  exact h a ha

theorem NodupKeys.insert [EquivBEq K] {l : List (K × V)} (hnd : NodupKeys l)
    (k : K) (v : V) : NodupKeys (insert l k v) := by
  cases h : contains l k with
  | false =>
    rw [insert_eq_append h]
    exact hnd.append_of_absent h
  | true =>
    rcases exists_split_of_contains h with ⟨before, k₀, v₀, after, rfl, hk⟩
    rw [insert_eq_of_split hnd hk]
    exact hnd.of_replaced

/-! ## Repeated keys -/

section Repeated

/-- The keys of a list of entries in the order of their first occurrence. -/
def distinctKeys (l : List (K × V)) : List K :=
  (l.map Prod.fst).eraseDups

/-- Each key once, with the value it has first. -/
def withFirst (l : List (K × V)) : List (K × V) :=
  (distinctKeys l).filterMap (fun k => (lookup l k).map (fun v => (k, v)))

/-- Each key once, with the value it has last. -/
def withLast (l : List (K × V)) : List (K × V) :=
  (distinctKeys l).filterMap (fun k => (lookup l.reverse k).map (fun v => (k, v)))

lemma isSome_lookup_reverse {l : List (K × V)} (k : K) :
    (lookup l.reverse k).isSome = contains l k := by
  rw [isSome_lookup, contains, any_reverse]
  rfl

variable [LawfulBEq K] {l : List (K × V)} {k : K} {v : V}

lemma mem_distinctKeys : k ∈ distinctKeys l ↔ contains l k = true := by
  rw [distinctKeys, mem_eraseDups, contains_eq_true_iff]
  simp

lemma distinctKeys_append_singleton : distinctKeys (l ++ [(k, v)]) =
      if contains l k then distinctKeys l else distinctKeys l ++ [k] := by
  have hmem : k ∈ l.map Prod.fst ↔ contains l k = true := by
    rw [contains_eq_true_iff]
    simp
  rw [distinctKeys, map_append, eraseDups_append]
  cases h : contains l k with
  | false =>
    have hnew : k ∉ l.map Prod.fst := by simp [hmem, h]
    simp [List.removeAll, distinctKeys, hnew, eraseDups_cons]
  | true =>
    have hold : k ∈ l.map Prod.fst := by simp [hmem, h]
    simp [List.removeAll, distinctKeys, hold]

lemma distinctKeys_of_nodup (h : (l.map Prod.fst).Nodup) : distinctKeys l = l.map Prod.fst := by
  rw [distinctKeys]
  generalize l.map Prod.fst = ks at h ⊢
  induction ks with
  | nil => rfl
  | cons a ks ih => ?_
  rcases nodup_cons.mp h with ⟨ha, h⟩
  have hne : ∀ b ∈ ks, (!b == a) = true := by
    intro b hb
    simpa using fun heq : b = a => ha (heq ▸ hb)
  rw [eraseDups_cons, filter_eq_self.mpr hne, ih h]

lemma mem_of_lookup (h : lookup l k = some v) : (k, v) ∈ l := by
  rcases Option.map_eq_some_iff.mp h with ⟨e, he, rfl⟩
  have hkey := List.find?_some he
  rw [← beq_iff_eq.mp hkey]
  exact mem_of_find?_eq_some he

lemma lookup_append_singleton {k' : K} : lookup (l ++ [(k, v)]) k' =
      if contains l k' then lookup l k' else if k == k' then some v else none := by
  rw [← isSome_lookup, lookup, lookup, List.find?_append]
  cases l.find? (fun e => e.1 == k') with
  | none => by_cases hk : k = k' <;> simp [hk]
  | some e => simp

lemma lookup_cons {k' : K} : lookup ((k, v) :: l) k' = if k == k' then some v else lookup l k' := by
  by_cases hk : k = k' <;> simp [lookup, hk]

/-- Entries that are added to a list that keeps first values. -/
lemma withFirst_append_singleton :
    withFirst (l ++ [(k, v)]) = if contains l k then withFirst l else withFirst l ++ [(k, v)] := by
  have hold : ∀ k' ∈ distinctKeys l, (lookup (l ++ [(k, v)]) k').map (fun v => (k', v)) =
        (lookup l k').map (fun v => (k', v)) := by
    intro k' hk'
    rw [lookup_append_singleton, mem_distinctKeys.mp hk', if_pos rfl]
  rw [withFirst, distinctKeys_append_singleton]
  cases h : contains l k with
  | false =>
    have hnew : lookup (l ++ [(k, v)]) k = some v := by
      rw [lookup_append_singleton, h]
      simp
    simp only [Bool.false_eq_true, if_false, filterMap_append, withFirst]
    rw [filterMap_congr hold]
    simp [hnew]
  | true => exact filterMap_congr hold

section Chosen

variable {f : K → Option V} (hf : ∀ k, (f k).isSome = contains l k)

include hf

lemma keys_filterMap :
    ((distinctKeys l).filterMap (fun k => (f k).map (fun v => (k, v)))).map Prod.fst =
      distinctKeys l := by
  have hsome : ∀ k ∈ distinctKeys l, ((f k).map (fun v => (k, v))).map Prod.fst = some k := by
    intro k hk
    rcases Option.isSome_iff_exists.mp ((hf k).trans (mem_distinctKeys.mp hk)) with ⟨v, hv⟩
    rw [hv]
    rfl
  rw [map_filterMap, filterMap_congr hsome, filterMap_some]

lemma lookup_filterMap :
    lookup ((distinctKeys l).filterMap (fun k => (f k).map (fun v => (k, v)))) k = f k := by
  have hkeys : ∀ ks : List K, lookup (ks.filterMap (fun k => (f k).map (fun v => (k, v)))) k =
      if k ∈ ks then f k else none := by
    intro ks
    induction ks with
    | nil => rfl
    | cons a ks ih => by_cases ha : a = k <;> cases h : f a <;> grind [lookup_cons]
  simp only [hkeys, mem_distinctKeys, ← hf]
  cases f k <;> rfl

end Chosen

lemma lookup_withFirst : lookup (withFirst l) k = lookup l k := lookup_filterMap (isSome_lookup l)

lemma lookup_withLast : lookup (withLast l) k = lookup l.reverse k :=
  lookup_filterMap isSome_lookup_reverse

lemma keys_withFirst : (withFirst l).map Prod.fst = distinctKeys l :=
  keys_filterMap (isSome_lookup l)

lemma keys_withLast : (withLast l).map Prod.fst = distinctKeys l :=
  keys_filterMap isSome_lookup_reverse

lemma contains_withFirst : contains (withFirst l) k = contains l k := by
  rw [← isSome_lookup, lookup_withFirst, isSome_lookup]

lemma contains_withLast : contains (withLast l) k = contains l k := by
  rw [← isSome_lookup, lookup_withLast, isSome_lookup_reverse]

/-- Inserting the entries one after the other keeps the last values, at the place of
the first occurrence. -/
theorem withLast_append_singleton : withLast (l ++ [(k, v)]) = insert (withLast l) k v := by
  have hlast : ∀ k', lookup (l ++ [(k, v)]).reverse k' =
      if k == k' then some v else lookup l.reverse k' := by
    intro k'
    rw [reverse_append, reverse_singleton, singleton_append, lookup_cons]
  have hreplace : (distinctKeys l).filterMap
      (fun k' => (lookup (l ++ [(k, v)]).reverse k').map (fun v => (k', v))) =
        replace (withLast l) k v := by
    rw [replace, withLast, map_filterMap]
    apply filterMap_congr
    intro k' hk'
    rw [hlast]
    have hsome := (isSome_lookup_reverse k').trans (mem_distinctKeys.mp hk')
    rcases Option.isSome_iff_exists.mp hsome with ⟨w, hw⟩
    by_cases hkk : k = k'
    · simp [hkk, hw]
    · simp [hkk, hw, Ne.symm hkk]
  rw [insert, contains_withLast, withLast, distinctKeys_append_singleton]
  cases h : contains l k with
  | true => simpa using hreplace
  | false => ?_
  have habsent : contains (withLast l) k = false := by rw [contains_withLast, h]
  rw [replace_eq_self habsent] at hreplace
  have hnew : (lookup (l ++ [(k, v)]).reverse k).map (fun v => (k, v)) = some (k, v) := by
    rw [hlast, BEq.rfl, if_pos rfl]
    rfl
  simp only [Bool.false_eq_true, if_false, filterMap_append, hreplace,
    filterMap_cons, hnew, filterMap_nil]

end Repeated

/-! ## Related lists -/

/-- Two lists of entries with the same keys and related values. -/
def Related {W : Type} (R : V → W → Prop) (l : List (K × V)) (m : List (K × W)) : Prop :=
  List.Forall₂ (fun a b => a.1 = b.1 ∧ R a.2 b.2) l m

section Related

variable {W : Type} {R : V → W → Prop} {l : List (K × V)} {m : List (K × W)} {k : K} {v : V}
  {w : W}

omit [BEq K] in
lemma Related.keys_eq (h : Related R l m) : l.map Prod.fst = m.map Prod.fst := by
  induction h with
  | nil => rfl
  | cons hab _ ih => rw [map_cons, map_cons, hab.1, ih]

lemma Related.contains (h : Related R l m) : contains l k = contains m k := by
  induction h with
  | nil => rfl
  | cons hab _ ih =>
    unfold AssocList.contains at ih ⊢
    rw [any_cons, any_cons, hab.1, ih]

omit [BEq K] in
lemma Related.append {l' : List (K × V)} {m' : List (K × W)} (h : Related R l m)
    (h' : Related R l' m') : Related R (l ++ l') (m ++ m') :=
  rel_append h h'

theorem Related.insert (h : Related R l m) (hvw : R v w) :
    Related R (insert l k v) (insert m k w) := by
  have hreplace : Related R (replace l k v) (replace m k w) := by
    induction h with
    | nil => exact .nil
    | @cons a b _ _ hab _ ih => ?_
    refine .cons ?_ ih
    dsimp only
    rw [hab.1]
    split
    · exact ⟨rfl, hvw⟩
    · exact hab
  unfold AssocList.insert
  rw [h.contains]
  split
  · exact hreplace
  · exact h.append (.cons ⟨rfl, hvw⟩ .nil)

end Related

/-! ## Reading after a change -/

section Lawful

variable {K V : Type} [BEq K] [LawfulBEq K] {l : List (K × V)} {k : K} {v : V}

lemma lookup_replace_of_ne {k' : K} (hk : k' ≠ k) : lookup (replace l k v) k' = lookup l k' := by
  induction l with
  | nil => rfl
  | cons e l ih => ?_
  rcases e with ⟨key, value⟩
  have hcons : replace ((key, value) :: l) k v =
      (if key == k then (key, v) else (key, value)) :: replace l k v := rfl
  by_cases hkey : key = k
  · rw [hcons, if_pos (beq_iff_eq.mpr hkey), lookup_cons, lookup_cons, ih,
      if_neg (fun heq => hk ((beq_iff_eq.mp heq).symm.trans hkey)),
      if_neg (fun heq => hk ((beq_iff_eq.mp heq).symm.trans hkey))]
  · rw [hcons, if_neg (fun heq => hkey (beq_iff_eq.mp heq)), lookup_cons, lookup_cons, ih]

lemma lookup_replace_self (h : contains l k = true) : lookup (replace l k v) k = some v := by
  induction l with
  | nil => cases h
  | cons e l ih => ?_
  rcases e with ⟨key, value⟩
  have hcons : replace ((key, value) :: l) k v =
      (if key == k then (key, v) else (key, value)) :: replace l k v := rfl
  by_cases hkey : key = k
  · rw [hcons, if_pos (beq_iff_eq.mpr hkey), lookup_cons, if_pos (beq_iff_eq.mpr hkey)]
  have hne : ¬ (key == k) = true := fun heq => hkey (beq_iff_eq.mp heq)
  rw [hcons, if_neg hne, lookup_cons, if_neg hne]
  apply ih
  rw [contains, any_cons, Bool.or_eq_true] at h
  exact h.resolve_left hne

lemma lookup_insert_self : lookup (insert l k v) k = some v := by
  unfold insert
  split
  · rename_i hcontains
    exact lookup_replace_self hcontains
  · rename_i hcontains
    rw [lookup_append_singleton, if_neg hcontains, if_pos (beq_self_eq_true k)]

lemma lookup_insert_of_ne {k' : K} (hk : k' ≠ k) : lookup (insert l k v) k' = lookup l k' := by
  unfold insert
  split
  · exact lookup_replace_of_ne hk
  rw [lookup_append_singleton, if_neg (fun heq => hk (beq_iff_eq.mp heq).symm)]
  split
  · rfl
  · rename_i habsent
    rw [lookup_eq_none_of_contains (Bool.not_eq_true _ |>.mp habsent)]

end Lawful

end AssocList
