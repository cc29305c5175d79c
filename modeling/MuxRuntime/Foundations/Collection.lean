import Mathlib
import MuxRuntime.Foundations.Comparison

/-!
# Comparing keyed collections regardless of insertion order

A collection is a list of entries with pairwise different keys, together with
the hasher its lookups go through. Equality looks every entry of one
collection up in the other, comparison sorts both by key first, and hashing
combines the entries' hashes without regard to their order.
-/

namespace Comparison

open List

variable {α γ S F G : Type}

/-- The entry stored under a key, found by hash and then by key equality. -/
def findBy (hash : α → UInt64) (eq : α → α → Bool) (key : γ → α) (l : List γ) (k : α) : Option γ :=
  l.find? (fun e => hash (key e) == hash k && eq (key e) k)

variable {l : List γ}

/-- A lookup depends on the equality of the stored keys with the key sought only. -/
lemma findBy_congr {hash : α → UInt64} {eq eq' : α → α → Bool} {key : γ → α} {k : α}
    (h : ∀ e ∈ l, eq (key e) k = eq' (key e) k) :
    findBy hash eq key l k = findBy hash eq' key l k := by
  refine List.find?_congr (fun e he => ?_)
  rw [h e he]

/-- Same number of entries, and every entry of `a` is found in `b` with the same content. -/
def collectionEq (hash : α → UInt64) (eq : α → α → Bool) (key : γ → α)
    (same : γ → γ → Bool) (a b : List γ) : Bool :=
  a.length == b.length && a.all (fun e => (findBy hash eq key b (key e)).any (fun e' => same e' e))

/-- Equality of whole entries: equal keys and the same content. -/
def entryEq (eq : α → α → Bool) (key : γ → α) (same : γ → γ → Bool) (e e' : γ) : Bool :=
  eq (key e) (key e') && same e e'

/-- Entries satisfying `P`, with pairwise different keys. -/
structure CollectionOn (P : γ → Prop) (eq : α → α → Bool) (key : γ → α) (l : List γ) : Prop where
  mem : ∀ e ∈ l, P e
  distinct : l.Pairwise (fun e e' => eq (key e) (key e') = false)

section Equality

variable {K : α → Prop} {P : γ → Prop} {eq : α → α → Bool} {key : γ → α} {same : γ → γ → Bool}
  {feed : α → F} {feedEntry : γ → G} {hash : S → α → UInt64}

section

variable (hk : HashableOn K eq feed)

include hk

section

variable (hkey : ∀ {e}, P e → K (key e))

include hkey

/-- Entries with equal keys are the same entry. -/
lemma CollectionOn.eq_of_key_eq (h : CollectionOn P eq key l) {e e' : γ} (he : e ∈ l)
    (he' : e' ∈ l) (hee : eq (key e) (key e') = true) : e = e' := by
  induction l with
  | nil => simp at he
  | cons x l ih => ?_
  rcases h with ⟨hmem, hdistinct⟩
  rw [pairwise_cons] at hdistinct
  have hrest : CollectionOn P eq key l := ⟨fun y hy => hmem y (by simp [hy]), hdistinct.2⟩
  have hflip := hk.symm (hkey (hmem e he)) (hkey (hmem e' he')) hee
  rcases mem_cons.mp he with rfl | hel <;> rcases mem_cons.mp he' with rfl | hel'
  · rfl
  · simp [hdistinct.1 e' hel'] at hee
  · simp [hdistinct.1 e hel] at hflip
  · exact ih hrest hel hel'

/-- What a lookup finds, in terms of membership. -/
lemma CollectionOn.findBy_any_iff (hhash : ∀ s {x y}, feed x = feed y → hash s x = hash s y)
    (h : CollectionOn P eq key l) (s : S) {k : α} (hK : K k) (p : γ → Bool) :
    (findBy (hash s) eq key l k).any p = true ↔ ∃ e ∈ l, eq (key e) k = true ∧ p e = true := by
  constructor
  · intro hany
    rcases hfind : findBy (hash s) eq key l k with _ | e
    · simp [hfind] at hany
    have hpred := List.find?_some hfind
    simp only [Bool.and_eq_true] at hpred
    rw [hfind, Option.any_some] at hany
    exact ⟨e, mem_of_find?_eq_some hfind, hpred.2, hany⟩
  · rintro ⟨e, he, hek, hp⟩
    have hfound : (findBy (hash s) eq key l k).isSome := by
      rw [findBy, List.find?_isSome]
      refine ⟨e, he, ?_⟩
      rw [hhash s (hk.feed_eq (hkey (h.mem e he)) hK hek)]
      simp [hek]
    rcases Option.isSome_iff_exists.mp hfound with ⟨e', hfind⟩
    have hpred := List.find?_some hfind
    simp only [Bool.and_eq_true] at hpred
    have he' := mem_of_find?_eq_some hfind
    have hsame : e' = e := by
      refine h.eq_of_key_eq hk hkey he' he ?_
      exact hk.trans (hkey (h.mem e' he')) hK (hkey (h.mem e he)) hpred.2
        (hk.symm (hkey (h.mem e he)) hK hek)
    rw [hfind, hsame, Option.any_some]
    exact hp

/-- Equality of collections is a matching of their entries. -/
theorem collectionEq_iff (hhash : ∀ s {x y}, feed x = feed y → hash s x = hash s y)
    (he : HashableOn P (entryEq eq key same) feedEntry) {a b : List γ}
    (ha : CollectionOn P eq key a) (hb : CollectionOn P eq key b) (s : S) :
    collectionEq (hash s) eq key same a b = true ↔
      a.length = b.length ∧ ∀ e ∈ a, ∃ e' ∈ b, entryEq eq key same e e' = true := by
  simp only [collectionEq, Bool.and_eq_true, beq_iff_eq, all_eq_true]
  refine and_congr_right (fun _ => forall₂_congr (fun e hea => ?_))
  rw [hb.findBy_any_iff hk hkey hhash s (hkey (ha.mem e hea))]
  refine exists_congr (fun e' => and_congr_right (fun heb => ?_))
  have hflip : entryEq eq key same e' e = true ↔ entryEq eq key same e e' = true :=
    ⟨he.symm (hb.mem e' heb) (ha.mem e hea), he.symm (ha.mem e hea) (hb.mem e' heb)⟩
  rw [← hflip, entryEq, Bool.and_eq_true]

/-- A matching in one direction pairs the two collections up. -/
lemma CollectionOn.exists_perm {a b : List γ} (ha : CollectionOn P eq key a)
    (hb : CollectionOn P eq key b) (hlen : a.length = b.length)
    (hmatch : ∀ e ∈ a, ∃ e' ∈ b, entryEq eq key same e e' = true) :
    ∃ b', b'.Perm b ∧ List.Forall₂ (fun e e' => entryEq eq key same e e' = true) a b' := by
  refine exists_perm_forall₂ hmatch ?_ hlen
  refine ha.distinct.imp_of_mem ?_
  intro x y hx hy hxy z hz hxz hyz
  simp only [entryEq, Bool.and_eq_true] at hxz hyz
  have hKx := hkey (ha.mem x hx)
  have hKy := hkey (ha.mem y hy)
  have hKz := hkey (hb.mem z hz)
  rw [hk.trans hKx hKz hKy hxz.1 (hk.symm hKy hKz hyz.1)] at hxy
  exact absurd hxy (by simp)

end

end

variable {cmp : α → α → Ordering} {cmpEntry : γ → γ → Ordering} {ordered : Prop}

/-- Collections are compared by their entries sorted by key. -/
theorem CoherentOn.collection (hk : CoherentOn K eq feed cmp ordered)
    (hkey : ∀ {e}, P e → K (key e)) (hhash : ∀ s {x y}, feed x = feed y → hash s x = hash s y)
    (he : CoherentOn P (entryEq eq key same) feedEntry cmpEntry ordered) :
    CoherentOn (fun c : S × List γ => CollectionOn P eq key c.2)
      (fun c c' => collectionEq (hash c'.1) eq key same c.2 c'.2)
      (fun c => (c.2.length, (c.2.map feedEntry : Multiset G)))
      (fun c c' => List.compareLex cmpEntry (sortBy (fun e e' => cmp (key e) (key e')) c.2)
        (sortBy (fun e e' => cmp (key e) (key e')) c'.2)) ordered where
  refl := by
    rintro ⟨s, a⟩ ha
    rw [collectionEq_iff hk.toHashableOn hkey hhash he.toHashableOn ha ha]
    exact ⟨rfl, fun e hea => ⟨e, hea, he.refl (ha.mem e hea)⟩⟩
  symm := by
    rintro ⟨s, a⟩ ⟨t, b⟩ ha hb hab
    rw [collectionEq_iff hk.toHashableOn hkey hhash he.toHashableOn ha hb] at hab
    rw [collectionEq_iff hk.toHashableOn hkey hhash he.toHashableOn hb ha]
    rcases ha.exists_perm hk.toHashableOn hkey hb hab.1 hab.2 with ⟨b', hperm, hforall⟩
    refine ⟨hab.1.symm, fun e heb => ?_⟩
    rcases exists_of_forall₂ (R := fun e e' => entryEq eq key same e' e = true) hforall.flip
      (hperm.mem_iff.mpr heb) with ⟨e', hea, hee⟩
    exact ⟨e', hea, he.symm (ha.mem e' hea) (hb.mem e heb) hee⟩
  trans := by
    rintro ⟨s, a⟩ ⟨t, b⟩ ⟨u, c⟩ ha hb hc hab hbc
    rw [collectionEq_iff hk.toHashableOn hkey hhash he.toHashableOn ha hb] at hab
    rw [collectionEq_iff hk.toHashableOn hkey hhash he.toHashableOn hb hc] at hbc
    rw [collectionEq_iff hk.toHashableOn hkey hhash he.toHashableOn ha hc]
    refine ⟨hab.1.trans hbc.1, fun x hx => ?_⟩
    rcases hab.2 x hx with ⟨y, hy, hxy⟩
    rcases hbc.2 y hy with ⟨z, hz, hyz⟩
    exact ⟨z, hz, he.trans (ha.mem x hx) (hb.mem y hy) (hc.mem z hz) hxy hyz⟩
  feed_eq := by
    rintro ⟨s, a⟩ ⟨t, b⟩ ha hb hab
    rw [collectionEq_iff hk.toHashableOn hkey hhash he.toHashableOn ha hb] at hab
    rcases ha.exists_perm hk.toHashableOn hkey hb hab.1 hab.2 with ⟨b', hperm, hforall⟩
    have hb' : ∀ e ∈ b', P e := fun e heb => hb.mem e (hperm.mem_iff.mp heb)
    have hmap : a.map feedEntry = b'.map feedEntry :=
      he.list.feed_eq ha.mem hb' (listEq_iff.mpr hforall)
    refine Prod.ext hab.1 ?_
    rw [hmap, Multiset.coe_eq_coe]
    exact hperm.map feedEntry
  lawful := by
    intro ho
    have hsort : ∀ {l : List γ}, CollectionOn P eq key l →
        ∀ e ∈ sortBy (fun e e' => cmp (key e) (key e')) l, P e :=
      fun h e he => h.mem e ((sortBy_perm _ _).mem_iff.mp he)
    have hcmp := hk.lawful ho
    have hbyKey : LawfulOn P (fun e e' => eq (key e) (key e')) (fun e e' => cmp (key e) (key e')) :=
      ⟨fun ha hb => hcmp.swap (hkey ha) (hkey hb),
        fun ha hb hc => hcmp.trans (hkey ha) (hkey hb) (hkey hc),
        fun ha hb => hcmp.eq_iff (hkey ha) (hkey hb)⟩
    have hentries := he.list.lawful ho
    refine ⟨?_, ?_, ?_⟩
    · exact fun ha hb => hentries.swap (hsort ha) (hsort hb)
    · exact fun ha hb hc => hentries.trans (hsort ha) (hsort hb) (hsort hc)
    intro c c' ha hb
    rw [collectionEq_iff hk.toHashableOn hkey hhash he.toHashableOn ha hb, hbyKey.forall₂_sortBy_iff
        (fun _ _ hR => (Bool.and_eq_true _ _ ▸ hR : _ ∧ _).1) ha.mem hb.mem ha.distinct
        hb.distinct, ← listEq_iff]
    exact hentries.eq_iff (hsort ha) (hsort hb)

end Equality

end Comparison
