import MuxRuntime.Ordered.Invariant

/-!
# Ordered map - refinement of an association list

Every finite sequence of mutations, started from the empty map, is simulated by
the same sequence on an insertion-ordered association list: all returned values
agree along the run, and every observation of the reached map (length, lookup,
membership, and the four ways of iterating) reads off the reached list.
-/

namespace MuxRuntime
namespace Ordered

open AssocList

variable {T S K V : Type}

/-! ## Iteration -/

variable {order : List Nat}

/-- The links lead over the live slots of a list, which hold these entries. -/
inductive Ahead (slab : List (Slot K V)) : Option Nat → List Nat → List (K × V) → Prop
  | nil : Ahead slab none [] []
  | cons {i : Nat} {order : List Nat} {k : K} {v : V} {prev next : Option Nat} {l : List (K × V)}
      (hi : i ∉ order) (hslot : slab[i]? = some (.occupied k v prev next))
      (hrest : Ahead slab next order l) : Ahead slab (some i) (i :: order) ((k, v) :: l)

/-- An iterator that reads a slot goes on to the one that follows, and touches no other. -/
structure Walks {ι : Type} (step : ι → Option (K × V) × ι) (next : ι → Option Nat)
    (slab : ι → List (Slot K V)) : Prop where
  done : ∀ it, next it = none → step it = (none, it)
  move : ∀ it i k v prev following, next it = some i →
    (slab it)[i]? = some (.occupied k v prev following) → (step it).1 = some (k, v) ∧
      next (step it).2 = following ∧ ∀ j ≠ i, (slab (step it).2)[j]? = (slab it)[j]?

lemma iter_walks : Walks (K := K) (V := V) Iter.step Iter.next Iter.slab where
  done := fun it hnone => by simp [Iter.step, hnone]
  move := fun it i k v prev following hnext hslot => by simp [Iter.step, hnext, hslot]

/-- The consuming iterator punches holes behind itself, never ahead of itself. -/
lemma intoIter_walks : Walks (K := K) (V := V) IntoIter.step IntoIter.next IntoIter.slab where
  done := fun it hnone => by simp [IntoIter.step, hnone]
  move := by
    intro it i k v prev following hnext hslot
    simp only [IntoIter.step, hnext, hslot, true_and]
    exact fun j hj => List.getElem?_set_ne (Ne.symm hj)

namespace Walks

variable {ι : Type} {step : ι → Option (K × V) × ι} {next : ι → Option Nat}
  {slab : ι → List (Slot K V)} {it : ι} {s : List (Slot K V)} {i : Nat}

section

variable (hw : Walks step next slab)

include hw

lemma follow {k : K} {v : V} {prev following : Option Nat} (hi : i ∉ order)
    (hslot : s[i]? = some (.occupied k v prev following)) (hnext : next it = some i)
    (hsame : ∀ j ∈ i :: order, (slab it)[j]? = s[j]?) : (step it).1 = some (k, v) ∧
      next (step it).2 = following ∧ ∀ j ∈ order, (slab (step it).2)[j]? = s[j]? := by
  rw [List.forall_mem_cons] at hsame
  rcases hw.move it i k v prev following hnext (hsame.1.trans hslot) with ⟨hitem, hfollow, hother⟩
  refine ⟨hitem, hfollow, fun j hj => (hother j ?_).trans (hsame.2 j hj)⟩
  rintro rfl
  exact hi hj

variable {n : Option Nat} {l : List (K × V)} (h : Ahead s n order l) (hnext : next it = n)
  (hsame : ∀ i ∈ order, (slab it)[i]? = s[i]?)

include h hnext hsame

/-- The slots ahead are collected entry by entry. -/
lemma collect_eq (fuel : Nat) (hfuel : l.length < fuel) : collect step fuel it = some l := by
  induction h generalizing it fuel with
  | nil =>
    rcases fuel with _ | fuel
    · cases hfuel
    simp [collect, hw.done it hnext]
  | cons hi hslot _ ih => ?_
  rcases fuel with _ | fuel
  · cases hfuel
  rcases hw.follow hi hslot hnext hsame with ⟨hitem, hfollow, hrest⟩
  have htail := ih hfollow hrest fuel (by simpa using hfuel)
  have hstep : step it = (some _, (step it).2) := Prod.ext hitem rfl
  rw [collect, hstep]
  simp [htail]

/-- The iterator only ever stands on a live slot. -/
lemma live (count : Nat) (hi : next ((fun it => (step it).2)^[count] it) = some i) :
    (linksOf (slab ((fun it => (step it).2)^[count] it)) i).isSome := by
  induction h generalizing it count with
  | nil =>
    rw [Function.iterate_fixed (by rw [hw.done it hnext]), hnext] at hi
    cases hi
  | cons hfirst hslot _ ih => ?_
  rcases count with _ | count
  · rw [Function.iterate_zero_apply, hnext] at hi
    cases hi
    simp [linksOf, hsame, hslot]
  · rcases hw.follow hfirst hslot hnext hsame with ⟨-, hfollow, hrest⟩
    exact ih hfollow hrest count hi

end

end Walks

/-- Mapping every item commutes with collecting. -/
lemma collect_map {ι α β : Type} (next : ι → Option α × ι) (f : α → β) (fuel : Nat) (it : ι) :
    collect (fun it => ((next it).1.map f, (next it).2)) fuel it =
      (collect next fuel it).map (List.map f) := by
  induction fuel generalizing it with
  | zero => rfl
  | succ fuel ih => ?_
  simp only [collect]
  cases hstep : next it with
  | mk item it' =>
    cases item with
    | none => simp
    | some a => simp [ih, Function.comp_def]

/-! ## Refinement relation -/

variable [HashTable T] [LawfulHashTable T] [BuildHasher S K] [BEq K]

/-- The live slots of a map lie ahead of its head. -/
lemma Inv.ahead {m : OrderedMap T S K V} {holes : List Nat} {l : List (K × V)}
    (h : Inv m order holes l) : Ahead m.slab m.head order l := by
  suffices hrest : ∀ before rest l', order = before ++ rest →
      rest.map (entryOf m.slab) = l'.map some → Ahead m.slab rest.head? rest l' by
    rw [h.head_eq]
    exact hrest [] order l rfl h.entries
  intro before rest
  induction rest generalizing before with
  | nil =>
    intro l' _ hentries
    obtain rfl : l' = [] := by simpa using hentries.symm
    exact .nil
  | cons i rest ih => ?_
  intro l' horder hentries
  rcases List.map_eq_cons_iff.mp hentries.symm with ⟨⟨k, v⟩, l', rfl, hentry, htail⟩
  have hnodup := h.threaded.nodup
  rw [horder] at hnodup
  exact .cons (List.nodup_cons.mp (List.nodup_append.mp hnodup).2.1).1
    (getElem?_of_links (h.threaded.link before i rest horder) hentry.symm)
    (ih (before ++ [i]) l' (by simp [horder]) htail.symm)

/-- The map stands for the association list `l`. -/
def Refines (m : OrderedMap T S K V) (l : List (K × V)) : Prop :=
  ∃ order holes, Inv m order holes l

/-! ## Mutations and their association-list counterparts -/

/-- The mutating operations of the map. -/
inductive MapOp (K V : Type) where
  | insert (key : K) (value : V)
  | remove (key : K)
  | getMutAssign (key : K) (value : V)
  | extend (items : List (K × V))
  | clear
deriving Repr, DecidableEq

/-- What a mutation returns to its caller. -/
inductive MapOutput (V : Type) where
  | previous (old : Option V)
  | found (present : Bool)
  | unit
deriving Repr, DecidableEq

/-- Run one mutation on the map. -/
def step (m : OrderedMap T S K V) : MapOp K V → MapOutput V × OrderedMap T S K V
  | .insert key value => (.previous (m.insert key value).1, (m.insert key value).2)
  | .remove key => (.previous (m.remove key).1, (m.remove key).2)
  | .getMutAssign key value => (.found (m.getMutAssign key value).1, (m.getMutAssign key value).2)
  | .extend items => (.unit, m.extend items)
  | .clear => (.unit, m.clear)

/-- The same mutation on an association list. -/
def specStep (l : List (K × V)) : MapOp K V → MapOutput V × List (K × V)
  | .insert key value => (.previous (lookup l key), AssocList.insert l key value)
  | .remove key => (.previous (lookup l key), erase l key)
  | .getMutAssign key value => (.found (contains l key), replace l key value)
  | .extend items => (.unit, items.foldl (fun l item => AssocList.insert l item.1 item.2) l)
  | .clear => (.unit, [])

/-- Run a sequence of mutations, collecting what they return. -/
def execute (m : OrderedMap T S K V) : List (MapOp K V) → List (MapOutput V) × OrderedMap T S K V
  | [] => ([], m)
  | op :: ops =>
    let current := step m op
    let rest := execute current.2 ops
    (current.1 :: rest.1, rest.2)

/-- Run the sequence on an association list. -/
def specExecute (l : List (K × V)) : List (MapOp K V) → List (MapOutput V) × List (K × V)
  | [] => ([], l)
  | op :: ops =>
    let current := specStep l op
    let rest := specExecute current.2 ops
    (current.1 :: rest.1, rest.2)

/-! ## One mutation -/

section Simulation

variable [EquivBEq K] [LawfulBuildHasher S K] {m : OrderedMap T S K V} {l : List (K × V)}

omit [HashTable T] [LawfulHashTable T] [BuildHasher S K] [LawfulBuildHasher S K] in
/-- What the list operations do at a found entry. -/
lemma Found.spec {key : K} {index : Nat} (f : Found m order l key index) (hnd : NodupKeys l)
    (value : V) : contains l key = true ∧ lookup l key = some f.v ∧
      replace l key value = f.before ++ (f.k, value) :: f.after ∧
      AssocList.insert l key value = f.before ++ (f.k, value) :: f.after ∧
      erase l key = f.before ++ f.after := by
  rcases f with ⟨_, _, before, after, k, v, -, rfl, -, -, -, hkey⟩
  exact ⟨contains_of_split hkey, lookup_eq_of_split hnd hkey, replace_eq_of_split hnd hkey,
    insert_eq_of_split hnd hkey, erase_eq_of_split hnd hkey⟩

section

variable (h : Refines m l)

include h

lemma insert_refines (key : K) (value : V) : (m.insert key value).1 = lookup l key ∧
      Refines (m.insert key value).2 (AssocList.insert l key value) := by
  rcases h with ⟨order, holes, h⟩
  rcases h.find_cases key with ⟨hnone, habsent⟩ | ⟨index, hsome, ⟨f⟩⟩
  · have hfind : m.indexOfHashed (m.hashOf key) key = none := hnone
    rcases h.insertNew value habsent with ⟨index, holes', hnew⟩
    rw [OrderedMap.insert]
    simp only [hfind]
    rw [lookup_eq_none_of_contains habsent, insert_eq_append habsent]
    exact ⟨rfl, _, _, hnew⟩
  have hfind : m.indexOfHashed (m.hashOf key) key = some index := hsome
  rcases f.spec h.nodupKeys value with ⟨-, hlookup, -, hinsert, -⟩
  rw [OrderedMap.insert]
  simp only [hfind, f.slot_eq]
  rw [hlookup, hinsert]
  exact ⟨rfl, _, _, h.assign f value⟩

lemma remove_refines (key : K) :
    (m.remove key).1 = lookup l key ∧ Refines (m.remove key).2 (erase l key) := by
  rcases h with ⟨order, holes, h⟩
  rcases h.find_cases key with ⟨hnone, habsent⟩ | ⟨index, hsome, ⟨f⟩⟩
  · have hfind : HashTable.find m.table (m.hashOf key) (m.keyMatches key) = none := hnone
    rw [OrderedMap.remove]
    simp only [hfind]
    rw [lookup_eq_none_of_contains habsent, erase_eq_self habsent]
    exact ⟨rfl, _, _, h⟩
  · rcases f.spec h.nodupKeys f.v with ⟨-, hlookup, -, -, herase⟩
    rcases h.remove hsome f with ⟨hvalue, hinv⟩
    rw [hlookup, herase]
    exact ⟨hvalue, _, _, hinv⟩

lemma getMutAssign_refines (key : K) (value : V) : (m.getMutAssign key value).1 = contains l key ∧
      Refines (m.getMutAssign key value).2 (replace l key value) := by
  rcases h with ⟨order, holes, h⟩
  rcases h.find_cases key with ⟨hnone, habsent⟩ | ⟨index, hsome, ⟨f⟩⟩
  · rw [OrderedMap.getMutAssign]
    simp only [hnone]
    rw [replace_eq_self habsent, habsent]
    exact ⟨rfl, _, _, h⟩
  · rcases f.spec h.nodupKeys value with ⟨hcontains, -, hreplace, -, -⟩
    rw [OrderedMap.getMutAssign]
    simp only [hsome, f.slot_eq]
    rw [hcontains, hreplace]
    exact ⟨rfl, _, _, h.assign f value⟩

lemma extend_refines (items : List (K × V)) : Refines (m.extend items)
      (items.foldl (fun l item => AssocList.insert l item.1 item.2) l) := by
  induction items generalizing m l with
  | nil => exact h
  | cons item items ih => exact ih (insert_refines h item.1 item.2).2

/-- One mutation returns what the list operation returns and stays a refinement. -/
theorem step_refines (op : MapOp K V) :
    (step m op).1 = (specStep l op).1 ∧ Refines (step m op).2 (specStep l op).2 := by
  cases op with
  | insert key value =>
    rcases insert_refines h key value with ⟨hout, hnext⟩
    exact ⟨congrArg MapOutput.previous hout, hnext⟩
  | remove key =>
    rcases remove_refines h key with ⟨hout, hnext⟩
    exact ⟨congrArg MapOutput.previous hout, hnext⟩
  | getMutAssign key value =>
    rcases getMutAssign_refines h key value with ⟨hout, hnext⟩
    exact ⟨congrArg MapOutput.found hout, hnext⟩
  | extend items => exact ⟨rfl, extend_refines h items⟩
  | clear => exact ⟨rfl, [], [], Inv.clear m⟩

/-- A whole run returns what the list run returns and stays a refinement. -/
theorem execute_refines (ops : List (MapOp K V)) : (execute m ops).1 = (specExecute l ops).1 ∧
      Refines (execute m ops).2 (specExecute l ops).2 := by
  induction ops generalizing m l with
  | nil => exact ⟨rfl, h⟩
  | cons op ops ih =>
    rcases step_refines h op with ⟨hout, hnext⟩
    rcases ih hnext with ⟨houts, hfinal⟩
    refine ⟨?_, hfinal⟩
    simp only [execute, specExecute, hout, houts]

end

end Simulation

/-! ## Observations -/

/-- Everything a caller can observe of the map `m` reads off the list `l`. -/
structure Observed (m : OrderedMap T S K V) (l : List (K × V)) : Prop where
  len : m.len = l.length
  isEmpty : m.isEmpty = l.isEmpty
  get : ∀ key, m.get key = lookup l key
  containsKey : ∀ key, m.containsKey key = contains l key
  iter : ∀ fuel, l.length < fuel → collect Iter.step fuel m.iter = some l
  keys : ∀ fuel, l.length < fuel → collect OrderedMap.keysStep fuel m.iter = some (l.map Prod.fst)
  values : ∀ fuel, l.length < fuel →
    collect OrderedMap.valuesStep fuel m.iter = some (l.map Prod.snd)
  intoIter : ∀ fuel, l.length < fuel → collect IntoIter.step fuel m.intoIter = some l
  sizeHint : m.iter.sizeHint = (l.length, some l.length)
  nodupKeys : NodupKeys l

/-- A refined map shows exactly its association list. -/
theorem Refines.observed [EquivBEq K] [LawfulBuildHasher S K] {m : OrderedMap T S K V}
    {l : List (K × V)} (h : Refines m l) : Observed m l := by
  rcases h with ⟨order, holes, h⟩
  have hlen : m.len = l.length := by rw [h.len_eq, h.length_eq]
  have hiter : ∀ fuel, l.length < fuel → collect Iter.step fuel m.iter = some l := by
    intro fuel hfuel
    exact iter_walks.collect_eq h.ahead rfl (fun _ _ => rfl) fuel hfuel
  refine ⟨hlen, ?_, ?_, ?_, hiter, ?_, ?_, ?_, ?_, h.nodupKeys⟩
  · cases l <;> simp [OrderedMap.isEmpty, hlen]
  · intro key
    rcases h.find_cases key with ⟨hnone, habsent⟩ | ⟨index, hsome, ⟨f⟩⟩
    · simp [OrderedMap.get, hnone, lookup_eq_none_of_contains habsent]
    · rw [(f.spec h.nodupKeys f.v).2.1]
      simp [OrderedMap.get, hsome, OrderedMap.entryAt, f.slot_eq]
  · intro key
    rcases h.find_cases key with ⟨hnone, habsent⟩ | ⟨index, hsome, ⟨f⟩⟩
    · simp [OrderedMap.containsKey, hnone, habsent]
    · rw [(f.spec h.nodupKeys f.v).1]
      simp [OrderedMap.containsKey, hsome]
  · intro fuel hfuel
    exact (collect_map Iter.step Prod.fst fuel m.iter).trans (by rw [hiter fuel hfuel]; rfl)
  · intro fuel hfuel
    exact (collect_map Iter.step Prod.snd fuel m.iter).trans (by rw [hiter fuel hfuel]; rfl)
  · intro fuel hfuel
    exact intoIter_walks.collect_eq h.ahead rfl (fun _ _ => rfl) fuel hfuel
  · simp [OrderedMap.iter, Iter.sizeHint, hlen]

/-- Over every sequence of mutations from the empty map, the map refines the
insertion-ordered association list that runs the same sequence. -/
theorem orderedMap_refines_assocList [EquivBEq K] [LawfulBuildHasher S K] (hasher : S)
    (ops : List (MapOp K V)) :
    (execute (OrderedMap.new hasher : OrderedMap T S K V) ops).1 = (specExecute [] ops).1 ∧
      Observed (execute (OrderedMap.new hasher : OrderedMap T S K V) ops).2
        (specExecute [] ops).2 := by
  have hnew : Refines (OrderedMap.new hasher : OrderedMap T S K V) [] := ⟨[], [], Inv.new hasher⟩
  rcases execute_refines hnew ops with ⟨houts, hfinal⟩
  exact ⟨houts, hfinal.observed⟩

/-! ## Slots -/

/-- The slots of a map are live or free, and its three structures agree on which; so the
indices that are looked up, taken from the free list, rehashed by an insertion or walked to
are what the assertions of the code ask for. -/
structure Consistent (m : OrderedMap T S K V) (order holes : List Nat) (l : List (K × V)) :
    Prop extends Inv m order holes l where
  live : ∀ i, i ∈ order ↔ (linksOf m.slab i).isSome
  free : ∀ i, i ∈ holes ↔ (nextFreeOf m.slab i).isSome
  fresh : ∀ slot, (m.allocSlot slot).1 ∉ order
  lookedUp : ∀ e ∈ LawfulHashTable.entries m.table, (m.entryAt e.2).isSome
  reused : ∀ i, m.freeHead = some i → (nextFreeOf m.slab i).isSome
  rehashed : ∀ key value, ∀ e ∈ LawfulHashTable.entries m.table,
    (linksOf (m.insert key value).2.slab e.2).isSome
  iterated : ∀ n i, ((fun it => (Iter.step it).2)^[n] m.iter).next = some i →
    (linksOf ((fun it => (Iter.step it).2)^[n] m.iter).slab i).isSome
  consumed : ∀ n i, ((fun it => (IntoIter.step it).2)^[n] m.intoIter).next = some i →
    (linksOf ((fun it => (IntoIter.step it).2)^[n] m.intoIter).slab i).isSome

lemma Inv.consistent [EquivBEq K] [LawfulBuildHasher S K] {m : OrderedMap T S K V}
    {holes : List Nat} {l : List (K × V)} (h : Inv m order holes l) :
    Consistent m order holes l where
  toInv := h
  live := fun i => (h.slots i).1
  free := fun i => (h.slots i).2
  fresh := fun slot => by
    rcases h.allocSlot slot with ⟨_, halloc⟩
    exact halloc.fresh
  lookedUp := by
    intro e he
    have hlive := h.threaded.isSome_of_mem (h.mem_order_of_mem_table he)
    unfold linksOf at hlive
    unfold OrderedMap.entryAt
    split at hlive <;> simp_all
  reused := fun i hi => h.free_of_mem (List.mem_of_mem_head? (h.freeHead_eq.symm.trans hi))
  rehashed := by
    intro key value e he
    have hi := h.mem_order_of_mem_table he
    unfold OrderedMap.insert
    rcases h.find_cases key with ⟨hnone, habsent⟩ | ⟨index, hsome, ⟨f⟩⟩
    · have hfind : m.indexOfHashed (m.hashOf key) key = none := hnone
      rcases h.insertNew value habsent with ⟨_, _, hnew⟩
      simp only [hfind]
      exact hnew.threaded.isSome_of_mem (List.mem_append_left _ hi)
    · have hfind : m.indexOfHashed (m.hashOf key) key = some index := hsome
      simp only [hfind, f.slot_eq]
      exact (h.assign f value).threaded.isSome_of_mem hi
  iterated := fun n i => iter_walks.live h.ahead rfl (fun _ _ => rfl) n
  consumed := fun n i => intoIter_walks.live h.ahead rfl (fun _ _ => rfl) n

/-- Every sequence of mutations from the empty map keeps the slots consistent. -/
theorem slots_consistent [EquivBEq K] [LawfulBuildHasher S K] (hasher : S)
    (ops : List (MapOp K V)) : ∃ order holes l,
      Consistent (execute (OrderedMap.new hasher : OrderedMap T S K V) ops).2 order holes l := by
  have hnew : Refines (OrderedMap.new hasher : OrderedMap T S K V) [] := ⟨[], [], Inv.new hasher⟩
  rcases (execute_refines hnew ops).2 with ⟨order, holes, h⟩
  exact ⟨order, holes, _, h.consistent⟩

/-! ## A run on a concrete table -/

/-- A table that scans its filed indices from the most recent one. -/
abbrev ScanTable := List (UInt64 × Nat)

namespace ScanTable

/-- The first index filed under `hash` that passes the test. -/
def search (t : ScanTable) (hash : UInt64) (eq : Nat → Bool) : Option (UInt64 × Nat) :=
  t.find? (fun e => e.1 == hash && eq e.2)

instance : HashTable ScanTable where
  new := []
  find t hash eq := (search t hash eq).map Prod.snd
  removeEntry t hash eq :=
    match search t hash eq with
    | some e => t.erase e
    | none => t
  insertUnique t hash index _ := (hash, index) :: t
  clear _ := []

instance : LawfulHashTable ScanTable where
  entries t := ↑t
  entries_new := rfl
  find_sound := by
    intro t h eq i hfind
    rcases Option.map_eq_some_iff.mp hfind with ⟨e, hsearch, rfl⟩
    have htest := List.find?_some hsearch
    simp only [Bool.and_eq_true] at htest
    exact ⟨htest.2, e.1, List.mem_of_find?_eq_some hsearch⟩
  find_complete := by
    intro t h i eq hmem heq
    simp only [HashTable.find, Option.isSome_map]
    rw [search, List.find?_isSome]
    exact ⟨(h, i), hmem, by simp [heq]⟩
  entries_removeEntry := by
    intro t h eq i hfind
    rcases Option.map_eq_some_iff.mp hfind with ⟨e, hsearch, rfl⟩
    refine ⟨e.1, List.mem_of_find?_eq_some hsearch, ?_⟩
    simp only [HashTable.removeEntry, hsearch]
    convert (Multiset.coe_erase t e).symm using 3
    exact lawful_beq_subsingleton _ _
  entries_insertUnique := fun _ _ _ _ => .inl rfl
  entries_clear := fun _ => rfl

end ScanTable

/-- A hasher that keeps two low bits, so that keys collide. -/
instance : BuildHasher Unit Nat where
  hashOne _ n := UInt64.ofNat (n % 4)

instance : LawfulBuildHasher Unit Nat where
  hashOne_eq := by
    intro _ a b h
    rw [eq_of_beq h]

/-- Colliding keys, a replacement in place, a removal in the middle and the reuse
of the freed slot at the end of the order. -/
theorem orderedMap_refines_assocList_reuse :
    (execute (OrderedMap.new () : OrderedMap ScanTable Unit Nat Nat)
        [.insert 1 10, .insert 5 50, .insert 9 90, .insert 1 11, .remove 5, .insert 2 20]).1 =
        [.previous none, .previous none, .previous none, .previous (some 10),
          .previous (some 50), .previous none] ∧
      Observed (execute (OrderedMap.new () : OrderedMap ScanTable Unit Nat Nat)
        [.insert 1 10, .insert 5 50, .insert 9 90, .insert 1 11, .remove 5, .insert 2 20]).2
        [(1, 11), (9, 90), (2, 20)] := by
  obtain ⟨houts, hobs⟩ := orderedMap_refines_assocList (T := ScanTable) (K := Nat) (V := Nat) ()
    [.insert 1 10, .insert 5 50, .insert 9 90, .insert 1 11, .remove 5, .insert 2 20]
  exact ⟨houts.trans (by decide), hobs⟩

/-- The freed slot is live again, and the free list is empty. -/
theorem slots_consistent_reuse : ∃ order holes l,
    Consistent (execute (OrderedMap.new () : OrderedMap ScanTable Unit Nat Nat)
      [.insert 1 10, .insert 5 50, .remove 1, .insert 9 90]).2 order holes l :=
  slots_consistent () [.insert 1 10, .insert 5 50, .remove 1, .insert 9 90]

end Ordered
end MuxRuntime
