import MuxRuntime.Foundations.AssocList
import MuxRuntime.Foundations.Threading
import MuxRuntime.Ordered.Map

/-!
# Ordered map - the simulation invariant

`Inv m order holes l` ties the three structures of a map together. `order` is
the list of live slot indices that the links thread, `holes` the list of free
slot indices that the free list chains, and `l` the association list the map
stands for. The hash index files every live slot exactly once, under the hash
of the key stored there.
-/

namespace MuxRuntime
namespace Ordered

open Threading AssocList

variable {T S K V : Type}

/-! ## Views of the slab -/

/-- The order links of the live slots. -/
def linksOf (slab : List (Slot K V)) : Links Nat := fun i =>
  match slab[i]? with
  | some (.occupied _ _ prev next) => some (prev, next)
  | _ => none

/-- The free-list links of the holes. -/
def nextFreeOf (slab : List (Slot K V)) (i : Nat) : Option (Option Nat) :=
  match slab[i]? with
  | some (.free nextFree) => some nextFree
  | _ => none

/-- The entry stored in a live slot. -/
def entryOf (slab : List (Slot K V)) (i : Nat) : Option (K × V) :=
  match slab[i]? with
  | some (.occupied key value _ _) => some (key, value)
  | _ => none

variable {slab slab' : List (Slot K V)} {i : Nat}

lemma linksOf_congr (h : slab'[i]? = slab[i]?) : linksOf slab' i = linksOf slab i := by
  simp [linksOf, h]

lemma nextFreeOf_congr (h : slab'[i]? = slab[i]?) : nextFreeOf slab' i = nextFreeOf slab i := by
  simp [nextFreeOf, h]

lemma entryOf_congr (h : slab'[i]? = slab[i]?) : entryOf slab' i = entryOf slab i := by
  simp [entryOf, h]

variable {k : K} {v : V}

/-- The hash that is recomputed for a slot depends on its key only. -/
lemma rehash_eq [BuildHasher S K] {hasher : S} : OrderedMap.rehash slab hasher i =
      ((entryOf slab i).map fun e => BuildHasher.hashOne hasher e.1).getD 0 := by
  unfold OrderedMap.rehash entryOf
  rcases slab[i]? with _ | _ | _ <;> rfl

lemma keyAt_eq (m : OrderedMap T S K V) (i : Nat) :
    m.keyAt i = (entryOf m.slab i).map Prod.fst := by
  unfold OrderedMap.keyAt OrderedMap.entryAt entryOf
  cases m.slab[i]? with
  | none => rfl
  | some slot => cases slot <;> rfl

variable {prev next : Option Nat}

/-- A slot is live exactly when it has order links. -/
lemma getElem?_of_links (hlink : linksOf slab i = some (prev, next))
    (hentry : entryOf slab i = some (k, v)) : slab[i]? = some (.occupied k v prev next) := by
  unfold linksOf at hlink
  unfold entryOf at hentry
  split at hlink <;> simp_all

lemma linksOf_of_nextFree (h : (nextFreeOf slab i).isSome) : linksOf slab i = none := by
  unfold nextFreeOf at h
  unfold linksOf
  split at h <;> simp_all

/-! ### Effect of the link updates -/

/-- Rewrite the links of the optional slot `target`. -/
def relinkAt (slab : List (Slot K V)) (target : Option Nat)
    (f : Option Nat × Option Nat → Option Nat × Option Nat) : List (Slot K V) :=
  match target with
  | some target => OrderedMap.relink slab target f
  | none => slab

lemma linksOf_relinkAt (slab : List (Slot K V)) (target : Option Nat)
    (f : Option Nat × Option Nat → Option Nat × Option Nat) :
    linksOf (relinkAt slab target f) = Threading.relink (linksOf slab) target f := by
  funext j
  rcases target with _ | target
  · simp [relinkAt, Threading.relink]
  unfold relinkAt OrderedMap.relink Threading.relink
  by_cases hj : j = target
  · subst hj
    simp only [if_true]
    split
    · rename_i key value prev next hslot
      rcases List.getElem?_eq_some_iff.mp hslot with ⟨hlt, hget⟩
      simp [linksOf, hlt, hget]
    · rename_i hslot
      have hnone : linksOf slab j = none := by
        unfold linksOf
        split
        · exact absurd ‹_› (hslot _ _ _ _)
        · rfl
      simp [hnone]
  · have hne : target ≠ j := fun h => hj h.symm
    rw [if_neg (by simpa using hj)]
    apply linksOf_congr
    dsimp only
    split
    · exact List.getElem?_set_ne hne
    · rfl

/-- Rewriting links leaves keys, values and the free list alone. -/
lemma views_relinkAt (slab : List (Slot K V)) (target : Option Nat)
    (f : Option Nat × Option Nat → Option Nat × Option Nat) :
    entryOf (relinkAt slab target f) = entryOf slab ∧
      nextFreeOf (relinkAt slab target f) = nextFreeOf slab ∧
      (relinkAt slab target f).length = slab.length := by
  unfold relinkAt OrderedMap.relink
  split
  · split
    · rename_i target _ key value prev next hslot
      rcases List.getElem?_eq_some_iff.mp hslot with ⟨hlt, hget⟩
      refine ⟨funext fun j => ?_, funext fun j => ?_, List.length_set⟩
      all_goals
        by_cases hj : target = j
        · subst hj
          simp [entryOf, nextFreeOf, hlt, hget]
        · simp [entryOf, nextFreeOf, List.getElem?_set_ne hj]
    · exact ⟨rfl, rfl, rfl⟩
  · exact ⟨rfl, rfl, rfl⟩

/-! ### Effect of writing a value -/

variable {index : Nat}

/-- Overwriting the value of a live slot. -/
lemma entryOf_set_value {w : V} (hslot : slab[index]? = some (.occupied k v prev next))
    (j : Nat) :
    entryOf (slab.set index (.occupied k w prev next)) j =
      if j = index then some (k, w) else entryOf slab j := by
  have hlt : index < slab.length := (List.getElem?_eq_some_iff.mp hslot).1
  by_cases hj : j = index
  · subst hj
    simp [entryOf, hlt]
  · have hne : index ≠ j := fun h => hj h.symm
    simp [entryOf, hj, List.getElem?_set_ne hne]

lemma links_set_value {w : V} (hslot : slab[index]? = some (.occupied k v prev next)) (j : Nat) :
    linksOf (slab.set index (.occupied k w prev next)) j = linksOf slab j ∧
      nextFreeOf (slab.set index (.occupied k w prev next)) j = nextFreeOf slab j := by
  rcases List.getElem?_eq_some_iff.mp hslot with ⟨hlt, hget⟩
  by_cases hj : index = j
  · subst hj
    simp [linksOf, nextFreeOf, hlt, hget]
  · simp [linksOf, nextFreeOf, List.getElem?_set_ne hj]

/-! ## The invariant -/

variable [HashTable T] [LawfulHashTable T] [BuildHasher S K] [BEq K]

/-- The map `m` threads the live slots `order`, chains the holes `holes` and
stands for the association list `l`. -/
structure Inv (m : OrderedMap T S K V) (order holes : List Nat) (l : List (K × V)) : Prop where
  threaded : Threaded (linksOf m.slab) order
  entries : order.map (entryOf m.slab) = l.map some
  head_eq : m.head = order.head?
  tail_eq : m.tail = order.getLast?
  chained : Chained (nextFreeOf m.slab) holes
  freeHead_eq : m.freeHead = holes.head?
  cover : ∀ i < m.slab.length, i ∈ order ∨ i ∈ holes
  len_eq : m.len = order.length
  table_eq : LawfulHashTable.entries m.table =
    ↑(order.map (fun i => (OrderedMap.rehash m.slab m.hasher i, i)))
  nodupKeys : NodupKeys l

/-- A map without slots. -/
lemma Inv.empty {table : T} (hasher : S) (htable : LawfulHashTable.entries table = 0) :
    Inv (⟨table, [], none, none, none, 0, hasher⟩ : OrderedMap T S K V) [] [] [] where
  threaded := Threaded.nil _
  entries := rfl
  head_eq := rfl
  tail_eq := rfl
  chained := Chained.nil _
  freeHead_eq := rfl
  cover := by
    intro i hi
    simp at hi
  len_eq := rfl
  table_eq := htable
  nodupKeys := List.Pairwise.nil

lemma Inv.new (hasher : S) : Inv (OrderedMap.new hasher : OrderedMap T S K V) [] [] [] :=
  Inv.empty hasher LawfulHashTable.entries_new

variable {m : OrderedMap T S K V} {order holes : List Nat} {l : List (K × V)}

namespace Inv

section

variable (h : Inv m order holes l)

include h

lemma length_eq : order.length = l.length := by simpa using congrArg List.length h.entries

/-- A split of the entries is a split of the live slots, and conversely. -/
lemma split_order {before after : List (K × V)} {e : K × V} (hl : l = before ++ e :: after) :
    ∃ orderBefore i orderAfter, order = orderBefore ++ i :: orderAfter ∧
      orderBefore.map (entryOf m.slab) = before.map some ∧
      entryOf m.slab i = some e ∧
      orderAfter.map (entryOf m.slab) = after.map some := by
  have hentries := h.entries
  rw [hl, List.map_append, List.map_cons, List.map_eq_append_iff] at hentries
  rcases hentries with ⟨orderBefore, rest, horder, hbefore, hrest⟩
  rcases List.map_eq_cons_iff.mp hrest with ⟨i, orderAfter, hrest', hi, hafter⟩
  exact ⟨orderBefore, i, orderAfter, by rw [horder, hrest'], hbefore, hi, hafter⟩

lemma split_entries {orderBefore orderAfter : List Nat}
    (horder : order = orderBefore ++ i :: orderAfter) : ∃ before e after, l = before ++ e :: after ∧
      orderBefore.map (entryOf m.slab) = before.map some ∧
      entryOf m.slab i = some e ∧
      orderAfter.map (entryOf m.slab) = after.map some := by
  have hentries := h.entries
  rw [horder, List.map_append, List.map_cons] at hentries
  rcases List.map_eq_append_iff.mp hentries.symm with ⟨before, rest, hl, hbefore, hrest⟩
  rcases List.map_eq_cons_iff.mp hrest with ⟨e, after, hrest', he, hafter⟩
  exact ⟨before, e, after, by rw [hl, hrest'], hbefore.symm, he.symm, hafter.symm⟩

/-- The hash index files exactly the live slots. -/
lemma mem_order_of_mem_table {hash : UInt64} (hi : (hash, i) ∈ LawfulHashTable.entries m.table) :
    i ∈ order := by
  rw [h.table_eq, Multiset.mem_coe, List.mem_map] at hi
  rcases hi with ⟨j, hj, hpair⟩
  rcases Prod.mk.inj hpair with ⟨-, rfl⟩
  exact hj

lemma free_of_mem (hi : i ∈ holes) : (nextFreeOf m.slab i).isSome := by
  rcases List.append_of_mem hi with ⟨before, after, hsplit⟩
  simp [h.chained.link before i after hsplit]

/-- Slots that are live have no free-list link. -/
lemma not_mem_holes (hi : i ∈ order) : i ∉ holes := by
  intro hhole
  have hlinks := h.threaded.isSome_of_mem hi
  simp [linksOf_of_nextFree (h.free_of_mem hhole)] at hlinks

/-- The threaded slots are the live ones, and the chained slots are the free ones. -/
lemma slots (i : Nat) : (i ∈ order ↔ (linksOf m.slab i).isSome) ∧
    (i ∈ holes ↔ (nextFreeOf m.slab i).isSome) := by
  refine ⟨⟨h.threaded.isSome_of_mem, fun hlive => ?_⟩, h.free_of_mem, fun hfree => ?_⟩
  · refine (h.cover i ?_).resolve_right fun hhole => ?_
    · by_contra hge
      simp [linksOf, List.getElem?_eq_none (not_lt.mp hge)] at hlive
    · simp [linksOf_of_nextFree (h.free_of_mem hhole)] at hlive
  · refine (h.cover i ?_).resolve_left fun hi => ?_
    · by_contra hge
      simp [nextFreeOf, List.getElem?_eq_none (not_lt.mp hge)] at hfree
    · simpa [linksOf_of_nextFree hfree] using h.threaded.isSome_of_mem hi

end

end Inv

/-- What a successful search found: the position of the slot, the entry stored
there and the links around it. -/
structure Found (m : OrderedMap T S K V) (order : List Nat) (l : List (K × V)) (key : K)
    (index : Nat) where
  orderBefore : List Nat
  orderAfter : List Nat
  before : List (K × V)
  after : List (K × V)
  k : K
  v : V
  order_eq : order = orderBefore ++ index :: orderAfter
  l_eq : l = before ++ (k, v) :: after
  before_eq : orderBefore.map (entryOf m.slab) = before.map some
  after_eq : orderAfter.map (entryOf m.slab) = after.map some
  slot_eq : m.slab[index]? = some (.occupied k v orderBefore.getLast? orderAfter.head?)
  key_eq : (k == key) = true

namespace Inv

/-- A search either proves the key absent or returns the slot of its entry. -/
theorem find_cases [LawfulBuildHasher S K] (h : Inv m order holes l) (key : K) :
    (m.indexOf key = none ∧ contains l key = false) ∨
      ∃ index, m.indexOf key = some index ∧ Nonempty (Found m order l key index) := by
  cases hfind : m.indexOf key with
  | none =>
    left
    refine ⟨rfl, ?_⟩
    rw [contains_eq_false_iff]
    intro e he
    by_contra hcon
    have hek : (e.1 == key) = true := by simpa using hcon
    rcases List.append_of_mem he with ⟨before, after, hl⟩
    rcases h.split_order hl with ⟨orderBefore, i, orderAfter, horder, -, hi, -⟩
    have hhash : OrderedMap.rehash m.slab m.hasher i = m.hashOf key := by
      rw [rehash_eq, hi]
      exact LawfulBuildHasher.hashOne_eq m.hasher hek
    have hmem : (m.hashOf key, i) ∈ LawfulHashTable.entries m.table := by
      rw [h.table_eq, Multiset.mem_coe, List.mem_map]
      exact ⟨i, by simp [horder], by rw [hhash]⟩
    have hmatch : m.keyMatches key i = true := by simp [OrderedMap.keyMatches, keyAt_eq, hi, hek]
    have hsome := LawfulHashTable.find_complete (m.keyMatches key) hmem hmatch
    unfold OrderedMap.indexOf OrderedMap.indexOfHashed at hfind
    simp [hfind] at hsome
  | some index => ?_
  right
  refine ⟨index, rfl, ?_⟩
  rcases LawfulHashTable.find_sound hfind with ⟨hmatch, hash, hmem⟩
  have hindex : index ∈ order := h.mem_order_of_mem_table hmem
  rcases List.append_of_mem hindex with ⟨orderBefore, orderAfter, horder⟩
  rcases h.split_entries horder with ⟨before, ⟨k, v⟩, after, hl, hbefore, hi, hafter⟩
  have hslot := getElem?_of_links (h.threaded.link _ _ _ horder) hi
  refine ⟨⟨orderBefore, orderAfter, before, after, k, v, horder, hl, hbefore, hafter, hslot, ?_⟩⟩
  simpa [OrderedMap.keyMatches, OrderedMap.keyAt, OrderedMap.entryAt, hslot] using hmatch

end Inv

/-! ## Writing through a found slot -/

/-- The found slot with its value overwritten. -/
def Found.written {m : OrderedMap T S K V} {order : List Nat} {l : List (K × V)} {key : K}
    {index : Nat} (f : Found m order l key index) (w : V) : Slot K V :=
  .occupied f.k w f.orderBefore.getLast? f.orderAfter.head?

variable {key : K}

namespace Inv

/-- Overwriting the value of a found entry keeps every position. -/
theorem assign (h : Inv m order holes l) (f : Found m order l key index) (w : V) :
    Inv { m with slab := m.slab.set index (f.written w) } order holes (f.before ++ (f.k, w) :: f.after) where
  threaded := h.threaded.congr (fun i _ => (links_set_value f.slot_eq i).1)
  entries := by
    have hnd := h.threaded.nodup
    rw [f.order_eq, List.nodup_append] at hnd
    rcases hnd with ⟨-, hcons, hcross⟩
    have hafter := (List.nodup_cons.mp hcons).1
    have hkeep : ∀ is : List Nat, index ∉ is → is.map (entryOf (m.slab.set index (f.written w))) =
          is.map (entryOf m.slab) := by
      intro is hindex
      apply List.map_congr_left
      intro i hi
      rw [Found.written, entryOf_set_value f.slot_eq, if_neg]
      rintro rfl
      exact hindex hi
    refine (congrArg (List.map (entryOf (m.slab.set index (f.written w)))) f.order_eq).trans ?_
    rw [List.map_append, List.map_cons, List.map_append, List.map_cons,
      hkeep _ (fun hi => hcross index hi index (by simp) rfl), hkeep _ hafter,
      f.before_eq, f.after_eq, Found.written, entryOf_set_value f.slot_eq, if_pos rfl]
  head_eq := h.head_eq
  tail_eq := h.tail_eq
  chained := h.chained.congr (fun i _ => (links_set_value f.slot_eq i).2)
  freeHead_eq := h.freeHead_eq
  cover := by
    intro i hi
    exact h.cover i (by simpa using hi)
  len_eq := h.len_eq
  table_eq := by
    rw [h.table_eq]
    congr 1
    apply List.map_congr_left
    intro i _
    rw [rehash_eq, rehash_eq, Found.written, entryOf_set_value f.slot_eq]
    split
    · subst i
      simp [entryOf, f.slot_eq]
    · rfl
  nodupKeys := by
    have hnd := h.nodupKeys
    rw [f.l_eq] at hnd
    exact hnd.of_replaced

end Inv

/-! ## Allocation -/

/-- What `allocSlot` guarantees: one slot that was not live now holds `slot`,
every other slot is as before, and the holes are chained again. -/
structure Allocated (m m' : OrderedMap T S K V) (order : List Nat) (slot : Slot K V)
    (index : Nat) (holes' : List Nat) : Prop where
  fresh : index ∉ order
  slot_eq : m'.slab[index]? = some slot
  other : ∀ j, j ≠ index → m'.slab[j]? = m.slab[j]?
  chained : Chained (nextFreeOf m'.slab) holes'
  freeHead_eq : m'.freeHead = holes'.head?
  cover : ∀ i < m'.slab.length, i = index ∨ i ∈ order ∨ i ∈ holes'
  table_eq : m'.table = m.table
  head_eq : m'.head = m.head
  tail_eq : m'.tail = m.tail
  len_eq : m'.len = m.len
  hasher_eq : m'.hasher = m.hasher

namespace Inv

section

variable (h : Inv m order holes l)

include h

/-- A live index names an occupied slot inside the slab. -/
lemma lt_of_mem_order (hi : i ∈ order) : i < m.slab.length := by
  have hlinks := h.threaded.isSome_of_mem hi
  by_contra hge
  simp [linksOf, List.getElem?_eq_none (not_lt.mp hge)] at hlinks

lemma allocSlot (slot : Slot K V) :
    ∃ holes', Allocated m (m.allocSlot slot).2 order slot (m.allocSlot slot).1 holes' := by
  cases hholes : holes with
  | nil =>
    -- no hole: the slab grows by one
    refine ⟨[], ?_⟩
    have hhead : m.freeHead = none := by simp [h.freeHead_eq, hholes]
    have halloc : m.allocSlot slot = (m.slab.length, { m with slab := m.slab ++ [slot] }) := by
      simp [OrderedMap.allocSlot, hhead]
    rw [halloc]
    refine ⟨fun hi => absurd (h.lt_of_mem_order hi) (lt_irrefl _), by simp, ?_,
      Chained.nil _, by simp [hhead], ?_, rfl, rfl, rfl, rfl, rfl⟩
    · intro j hj
      rcases lt_or_gt_of_ne hj with hlt | hgt
      · simp [List.getElem?_append_left hlt]
      · rw [List.getElem?_eq_none (le_of_lt hgt), List.getElem?_eq_none]
        simpa using hgt
    · intro i hi
      rcases Nat.lt_succ_iff_lt_or_eq.mp (by simpa using hi) with hlt | rfl
      · exact (h.cover i hlt).elim (fun ho => .inr (.inl ho)) (fun hh => by simp [hholes] at hh)
      · exact .inl rfl
  | cons index rest => ?_
  -- the first hole is taken off the free list
  refine ⟨rest, ?_⟩
  have hlink : nextFreeOf m.slab index = some rest.head? :=
    h.chained.link [] index rest (by simp [hholes])
  have hslot : m.slab[index]? = some (.free rest.head?) := by
    unfold nextFreeOf at hlink
    split at hlink <;> simp_all
  have hhead : m.freeHead = some index := by simp [h.freeHead_eq, hholes]
  have halloc : m.allocSlot slot =
      (index, { m with freeHead := rest.head?, slab := m.slab.set index slot }) := by
    simp [OrderedMap.allocSlot, hhead, hslot]
  have hlt : index < m.slab.length := (List.getElem?_eq_some_iff.mp hslot).1
  have hpop : Chained (nextFreeOf m.slab) rest := by
    have := h.chained
    rw [hholes] at this
    exact this.pop
  have hnotRest : index ∉ rest := by
    have := h.chained.nodup
    rw [hholes] at this
    exact (List.nodup_cons.mp this).1
  have hother : ∀ j, j ≠ index → (m.slab.set index slot)[j]? = m.slab[j]? := by
    intro j hj
    rw [List.getElem?_set_ne (fun h => hj h.symm)]
  rw [halloc]
  refine ⟨?_, by simp [hlt], hother, ?_, rfl, ?_, rfl, rfl, rfl, rfl, rfl⟩
  · intro hi
    exact h.not_mem_holes hi (by simp [hholes])
  · apply hpop.congr
    intro j hj
    apply nextFreeOf_congr
    apply hother
    rintro rfl
    exact hnotRest hj
  · intro i hi
    rcases h.cover i (by simpa using hi) with ho | hh
    · exact .inr (.inl ho)
    · rw [hholes] at hh
      exact (List.mem_cons.mp hh).elim .inl (fun hr => .inr (.inr hr))

/-- Inserting an absent key appends its entry behind the others. -/
theorem insertNew (value : V) (habsent : contains l key = false) :
    ∃ index holes', Inv (m.insertNew (m.hashOf key) key value) (order ++ [index]) holes'
      (l ++ [(key, value)]) := by
  rcases h.allocSlot (.occupied key value m.tail none) with ⟨holes', halloc⟩
  generalize hpair : m.allocSlot (.occupied key value m.tail none) = alloc at halloc
  rcases alloc with ⟨index, m₁⟩
  refine ⟨index, holes', ?_⟩
  simp only at halloc
  obtain ⟨slab₂, hslab₂⟩ : ∃ slab₂, slab₂ =
      relinkAt m₁.slab m.tail (fun links => (links.1, some index)) := ⟨_, rfl⟩
  rcases views_relinkAt m₁.slab m.tail (fun links => (links.1, some index)) with
    ⟨hentry, hfree, hlen⟩
  rw [← hslab₂] at hentry hfree hlen
  have hlinks : linksOf slab₂ =
      Threading.setNext (put (linksOf m.slab) index (order.getLast?, none)) order.getLast?
        (some index) := by
    have hput : linksOf m₁.slab = put (linksOf m.slab) index (order.getLast?, none) := by
      funext j
      by_cases hj : j = index
      · subst hj
        simp [linksOf, halloc.slot_eq, put, h.tail_eq]
      · simp [put, hj, linksOf_congr (halloc.other j hj)]
    rw [hslab₂, linksOf_relinkAt, hput, h.tail_eq]
    rfl
  have hentries : ∀ j, entryOf slab₂ j =
      if j = index then some (key, value) else entryOf m.slab j := by
    intro j
    rw [hentry]
    by_cases hj : j = index
    · subst hj
      simp [entryOf, halloc.slot_eq]
    · rw [if_neg hj, entryOf_congr (halloc.other j hj)]
  have hold : ∀ i ∈ order, entryOf slab₂ i = entryOf m.slab i := by
    intro i hi
    rw [hentries, if_neg]
    rintro rfl
    exact halloc.fresh hi
  have hresult : m.insertNew (m.hashOf key) key value = { m₁ with
        slab := slab₂
        head := if m.tail = none then some index else m₁.head
        tail := some index
        table := HashTable.insertUnique m₁.table (m.hashOf key) index
          (OrderedMap.rehash slab₂ m₁.hasher)
        len := m₁.len + 1 } := by
    subst hslab₂
    unfold OrderedMap.insertNew
    rw [hpair]
    cases m.tail <;> simp [relinkAt, OrderedMap.setNext]
  rw [hresult]
  constructor
  case threaded =>
    rw [hlinks]
    exact h.threaded.append halloc.fresh
  case entries =>
    rw [List.map_append, List.map_append, List.map_congr_left hold, h.entries]
    simp [hentries]
  case head_eq =>
    cases hnil : order with
    | nil => simp [h.tail_eq, hnil]
    | cons i is => simp [h.tail_eq, hnil, halloc.head_eq, h.head_eq]
  case tail_eq => simp
  case chained =>
    rw [hfree]
    exact halloc.chained
  case freeHead_eq => exact halloc.freeHead_eq
  case cover =>
    intro i hi
    rw [hlen] at hi
    rcases halloc.cover i hi with rfl | ho | hh
    · exact .inl (by simp)
    · exact .inl (by simp [ho])
    · exact .inr hh
  case len_eq => simp [halloc.len_eq, h.len_eq]
  case table_eq =>
    have hnew : OrderedMap.rehash slab₂ m₁.hasher index = m.hashOf key := by
      rw [rehash_eq, hentries, if_pos rfl, halloc.hasher_eq]
      rfl
    have hkeep : order.map (fun i => (OrderedMap.rehash slab₂ m₁.hasher i, i)) =
        order.map (fun i => (OrderedMap.rehash m.slab m.hasher i, i)) := by
      apply List.map_congr_left
      intro i hi
      rw [halloc.hasher_eq, rehash_eq, rehash_eq, hold i hi]
    -- refiling an entry under its recomputed hash changes nothing
    have hrefile : (LawfulHashTable.entries m.table).map
        (fun e => (OrderedMap.rehash slab₂ m₁.hasher e.2, e.2)) =
        LawfulHashTable.entries m.table := by
      rw [h.table_eq, Multiset.map_coe, List.map_map, ← hkeep]
      rfl
    have htable := LawfulHashTable.entries_insertUnique m.table (m.hashOf key) index
      (OrderedMap.rehash slab₂ m₁.hasher)
    rw [hrefile, or_self] at htable
    simp only [halloc.table_eq, htable]
    rw [h.table_eq, ← hkeep, List.map_append, List.map_singleton, hnew,
      ← Multiset.coe_add, Multiset.add_comm]
    rfl
  case nodupKeys => exact h.nodupKeys.append_of_absent habsent

/-- Removing the index entry of a found key leaves those of the other live slots. -/
lemma table_remove [LawfulBuildHasher S K] (f : Found m order l key index)
    (hrest : index ∉ f.orderBefore ++ f.orderAfter) :
    LawfulHashTable.entries (HashTable.removeEntry m.table (m.hashOf key) (fun i => i == index)) =
      ↑((f.orderBefore ++ f.orderAfter).map
        (fun i => (OrderedMap.rehash m.slab m.hasher i, i))) := by
  have hhash : OrderedMap.rehash m.slab m.hasher index = m.hashOf key := by
    simp only [rehash_eq, entryOf, f.slot_eq]
    exact LawfulBuildHasher.hashOne_eq m.hasher f.key_eq
  have htable : LawfulHashTable.entries m.table = (m.hashOf key, index) ::ₘ
      ↑((f.orderBefore ++ f.orderAfter).map
        (fun i => (OrderedMap.rehash m.slab m.hasher i, i))) := by
    have hperm : order.Perm (index :: (f.orderBefore ++ f.orderAfter)) :=
      (List.Perm.of_eq f.order_eq).trans List.perm_middle
    rw [h.table_eq, Multiset.cons_coe, Multiset.coe_eq_coe]
    simpa [hhash] using hperm.map (fun i => (OrderedMap.rehash m.slab m.hasher i, i))
  -- the second search asks for the index itself, so it finds this entry
  have hfiled : (m.hashOf key, index) ∈ LawfulHashTable.entries m.table := by simp [htable]
  obtain ⟨j, hj⟩ := Option.isSome_iff_exists.mp
    (LawfulHashTable.find_complete (fun i => i == index) hfiled (by simp))
  rcases LawfulHashTable.find_sound hj with ⟨hjeq, -⟩
  obtain rfl : j = index := by simpa using hjeq
  rcases LawfulHashTable.entries_removeEntry hj with ⟨hash, hmem, herase⟩
  have hhash' : hash = m.hashOf key := by
    rw [htable, Multiset.mem_cons] at hmem
    rcases hmem with heq | hmem
    · exact (Prod.mk.inj heq).1
    rw [Multiset.mem_coe, List.mem_map] at hmem
    rcases hmem with ⟨i, hi, hpair⟩
    rcases Prod.mk.inj hpair with ⟨-, rfl⟩
    exact absurd hi hrest
  rw [herase, hhash', htable, Multiset.erase_cons_head]

/-- Removing a found key closes the gap and returns its slot to the free list. -/
theorem remove [LawfulBuildHasher S K] (hfind : m.indexOf key = some index)
    (f : Found m order l key index) :
    (m.remove key).1 = some f.v ∧
      Inv (m.remove key).2 (f.orderBefore ++ f.orderAfter) (index :: holes)
        (f.before ++ f.after) := by
  have hlt : index < m.slab.length := (List.getElem?_eq_some_iff.mp f.slot_eq).1
  have hindex : index ∈ order := by simp [f.order_eq]
  have hnotHole : index ∉ holes := h.not_mem_holes hindex
  have hnd := h.threaded.nodup
  rw [f.order_eq, List.nodup_middle, List.nodup_cons] at hnd
  obtain ⟨slab₀, hslab₀⟩ : ∃ slab₀, slab₀ = m.slab.set index (.free m.freeHead) := ⟨_, rfl⟩
  obtain ⟨slab₁, hslab₁⟩ : ∃ slab₁, slab₁ = relinkAt slab₀ f.orderBefore.getLast?
      (fun links => (links.1, f.orderAfter.head?)) := ⟨_, rfl⟩
  obtain ⟨slab₂, hslab₂⟩ : ∃ slab₂, slab₂ = relinkAt slab₁ f.orderAfter.head?
      (fun links => (f.orderBefore.getLast?, links.2)) := ⟨_, rfl⟩
  have hslot₀ : ∀ j, j ≠ index → slab₀[j]? = m.slab[j]? := by
    intro j hj
    rw [hslab₀, List.getElem?_set_ne (fun hcon => hj hcon.symm)]
  have hviews : entryOf slab₂ = entryOf slab₀ ∧ nextFreeOf slab₂ = nextFreeOf slab₀ ∧
      slab₂.length = m.slab.length := by
    simp [hslab₂, hslab₁, hslab₀, views_relinkAt]
  rcases hviews with ⟨hentry, hfree, hlen⟩
  have hlinks : linksOf slab₂ =
      Threading.setPrev (Threading.setNext (Threading.remove (linksOf m.slab) index)
        f.orderBefore.getLast? f.orderAfter.head?) f.orderAfter.head?
        f.orderBefore.getLast? := by
    have hremove : linksOf slab₀ = Threading.remove (linksOf m.slab) index := by
      funext j
      by_cases hj : j = index
      · subst hj
        simp [linksOf, hslab₀, hlt, Threading.remove]
      · simp [Threading.remove, hj, linksOf_congr (hslot₀ j hj)]
    rw [hslab₂, linksOf_relinkAt, hslab₁, linksOf_relinkAt, hremove]
    rfl
  have hkeep : ∀ i ∈ f.orderBefore ++ f.orderAfter, entryOf slab₂ i = entryOf m.slab i := by
    intro i hi
    rw [hentry, entryOf_congr (hslot₀ i (fun hcon => hnd.1 (hcon ▸ hi)))]
  have hresult : m.remove key = (some f.v, { m with
          table := HashTable.removeEntry m.table (m.hashOf key) (fun i => i == index)
          slab := slab₂
          head := if f.orderBefore.getLast? = none then f.orderAfter.head? else m.head
          tail := if f.orderAfter.head? = none then f.orderBefore.getLast? else m.tail
          freeHead := some index
          len := m.len - 1 }) := by
    have hfind' : HashTable.find m.table (m.hashOf key) (m.keyMatches key) = some index := hfind
    subst hslab₂ hslab₁ hslab₀
    simp only [OrderedMap.remove, hfind', f.slot_eq]
    cases f.orderBefore.getLast? <;> cases f.orderAfter.head? <;>
      simp [relinkAt, OrderedMap.setNext, OrderedMap.setPrev]
  rw [hresult]
  refine ⟨rfl, ?_⟩
  constructor
  case threaded =>
    rw [hlinks]
    have hth := h.threaded
    rw [f.order_eq] at hth
    exact hth.unlink
  case entries =>
    rw [List.map_congr_left hkeep, List.map_append, List.map_append, f.before_eq, f.after_eq]
  case head_eq =>
    have hhead := h.head_eq
    rw [f.order_eq] at hhead
    cases hb : f.orderBefore with
    | nil => simp
    | cons i is => simp [hhead, hb]
  case tail_eq =>
    have htail := h.tail_eq
    rw [f.order_eq] at htail
    cases ha : f.orderAfter with
    | nil => simp
    | cons i is => simp [htail, ha]
  case chained =>
    rw [hfree]
    apply h.chained.push hnotHole
    · simp [nextFreeOf, hslab₀, hlt, h.freeHead_eq]
    · intro j hj
      exact nextFreeOf_congr (hslot₀ j (fun hcon => hnotHole (hcon ▸ hj)))
  case freeHead_eq => rfl
  case cover =>
    intro i hi
    rw [hlen] at hi
    rcases h.cover i hi with ho | hh
    · rw [f.order_eq] at ho
      by_cases hi' : i = index
      · exact .inr (by simp [hi'])
      · exact .inl (by simpa [hi'] using ho)
    · exact .inr (by simp [hh])
  case len_eq => simp [h.len_eq, f.order_eq]
  case table_eq =>
    simp only [h.table_remove f hnd.1]
    congr 1
    apply List.map_congr_left
    intro i hi
    rw [rehash_eq, rehash_eq, hkeep i hi]
  case nodupKeys =>
    have hndk := h.nodupKeys
    rw [f.l_eq] at hndk
    exact List.Pairwise.sublist ((List.sublist_cons_self _ _).append_left _) hndk

end

theorem clear (m : OrderedMap T S K V) : Inv m.clear [] [] [] :=
  Inv.empty m.hasher (LawfulHashTable.entries_clear m.table)

end Inv

end Ordered
end MuxRuntime
