import Mathlib

/-!
# Insertion-ordered map

Executable model of `src/ordered.rs`: a hash index over the slots of a slab,
with the insertion order in a doubly linked list through the occupied slots and
a free list through the holes.

The hash index `hashbrown::HashTable<usize>` enters as the interface
`HashTable`, and `LawfulHashTable` states the documented behaviour: the table is
a finite collection of slot indices, each filed under a hash; a search may test
any entry and finds one that is filed under the requested hash; growing the
table may refile every entry. Keys are compared and hashed through `BEq` and
`BuildHasher`.
-/

namespace MuxRuntime
namespace Ordered

/-! ## The hash index and the hasher -/

/-- The operations of `hashbrown::HashTable<usize>` used by the map. -/
class HashTable (T : Type) where
  new : T
  /-- `find(hash, eq)`. -/
  find : T → UInt64 → (Nat → Bool) → Option Nat
  /-- `find_entry(hash, eq).ok().map(OccupiedEntry::remove)`. -/
  removeEntry : T → UInt64 → (Nat → Bool) → T
  /-- `insert_unique(hash, index, rehash)`. -/
  insertUnique : T → UInt64 → Nat → (Nat → UInt64) → T
  clear : T → T

/-- What `hashbrown` documents about these operations, as a finite collection of
indices filed under hashes. -/
class LawfulHashTable (T : Type) [HashTable T] where
  entries : T → Multiset (UInt64 × Nat)
  entries_new : entries HashTable.new = 0
  find_sound : ∀ {t h eq i}, HashTable.find t h eq = some i →
    eq i = true ∧ ∃ h', (h', i) ∈ entries t
  find_complete : ∀ {t h i} (eq : Nat → Bool), (h, i) ∈ entries t → eq i = true →
    (HashTable.find t h eq).isSome = true
  entries_removeEntry : ∀ {t h eq i}, HashTable.find t h eq = some i → ∃ h', (h', i) ∈ entries t ∧
      entries (HashTable.removeEntry t h eq) = (entries t).erase (h', i)
  entries_insertUnique : ∀ t h i rehash,
    entries (HashTable.insertUnique t h i rehash) = (h, i) ::ₘ entries t ∨
      entries (HashTable.insertUnique t h i rehash) =
        (h, i) ::ₘ (entries t).map (fun e => (rehash e.2, e.2))
  entries_clear : ∀ t, entries (HashTable.clear t) = 0

/-- `BuildHasher::hash_one` at a key type. -/
class BuildHasher (S K : Type) where
  hashOne : S → K → UInt64

/-- Equal keys hash alike under every hasher. -/
class LawfulBuildHasher (S K : Type) [BEq K] [BuildHasher S K] : Prop where
  hashOne_eq : ∀ (s : S) {a b : K}, (a == b) = true →
    BuildHasher.hashOne s a = BuildHasher.hashOne s b

/-! ## Data -/

/-- One slab position: a live entry with its neighbours, or a hole. -/
inductive Slot (K V : Type) where
  | occupied (key : K) (value : V) (prev next : Option Nat)
  | free (nextFree : Option Nat)
deriving Repr, DecidableEq

/-- The map: hash index, slab, ends of the order list, free list, length. -/
structure OrderedMap (T S K V : Type) where
  table : T
  slab : List (Slot K V)
  head : Option Nat
  tail : Option Nat
  freeHead : Option Nat
  len : Nat
  hasher : S

namespace OrderedMap

variable {T S K V : Type} [HashTable T] [BuildHasher S K] [BEq K]

/-- The empty map; `RandomState::new()` supplies the hasher. -/
def new (hasher : S) : OrderedMap T S K V where
  table := HashTable.new
  slab := []
  head := none
  tail := none
  freeHead := none
  len := 0
  hasher := hasher

/-! ## Lookup -/

def hashOf (m : OrderedMap T S K V) (key : K) : UInt64 :=
  BuildHasher.hashOne m.hasher key

/-- The live entry at an index, with its `next` link. -/
def entryAt (m : OrderedMap T S K V) (index : Nat) : Option (K × V × Option Nat) :=
  match m.slab[index]? with
  | some (.occupied key value _ next) => some (key, value, next)
  | _ => none

def keyAt (m : OrderedMap T S K V) (index : Nat) : Option K :=
  (m.entryAt index).map (fun e => e.1)

/-- The test `|&i| self.key_at(i).is_some_and(|k| k.borrow() == key)`. -/
def keyMatches (m : OrderedMap T S K V) (key : K) (index : Nat) : Bool :=
  (m.keyAt index).any (fun k => k == key)

def indexOfHashed (m : OrderedMap T S K V) (hash : UInt64) (key : K) : Option Nat :=
  HashTable.find m.table hash (m.keyMatches key)

def indexOf (m : OrderedMap T S K V) (key : K) : Option Nat :=
  m.indexOfHashed (m.hashOf key) key

def get (m : OrderedMap T S K V) (key : K) : Option V :=
  match m.indexOf key with
  | some index => (m.entryAt index).map (fun e => e.2.1)
  | none => none

def containsKey (m : OrderedMap T S K V) (key : K) : Bool :=
  (m.indexOf key).isSome

def isEmpty (m : OrderedMap T S K V) : Bool :=
  m.len == 0

/-- Assignment through `get_mut`: `if let Some(slot) = m.get_mut(key) { *slot = value }`.
The flag records whether `get_mut` found the key. -/
def getMutAssign (m : OrderedMap T S K V) (key : K) (value : V) : Bool × OrderedMap T S K V :=
  match m.indexOf key with
  | some index =>
    match m.slab[index]? with
    | some (.occupied k _ prev next) =>
      (true, { m with slab := m.slab.set index (.occupied k value prev next) })
    | _ => (false, m)
  | none => (false, m)

/-! ## Slot surgery -/

/-- Rewrite the links of the slot at `target` when it is occupied, as in
`if let Some(Slot::Occupied { .. }) = slab.get_mut(target) { .. }`. -/
def relink (slab : List (Slot K V)) (target : Nat)
    (f : Option Nat × Option Nat → Option Nat × Option Nat) : List (Slot K V) :=
  match slab[target]? with
  | some (.occupied key value prev next) =>
    slab.set target (.occupied key value (f (prev, next)).1 (f (prev, next)).2)
  | _ => slab

/-- `*next = link` at `target`. -/
def setNext (slab : List (Slot K V)) (target : Nat) (link : Option Nat) : List (Slot K V) :=
  relink slab target (fun links => (links.1, link))

/-- `*prev = link` at `target`. -/
def setPrev (slab : List (Slot K V)) (target : Nat) (link : Option Nat) : List (Slot K V) :=
  relink slab target (fun links => (link, links.2))

/-- Take a slot for a new entry, reusing a hole when one exists. A free list
that names a live slot is abandoned and the slab grows instead. -/
def allocSlot (m : OrderedMap T S K V) (slot : Slot K V) : Nat × OrderedMap T S K V :=
  match m.freeHead with
  | some index =>
    match m.slab[index]? with
    | some (.free nextFree) =>
      (index, { m with freeHead := nextFree, slab := m.slab.set index slot })
    | _ => (m.slab.length, { m with freeHead := none, slab := m.slab ++ [slot] })
  | none => (m.slab.length, { m with slab := m.slab ++ [slot] })

/-- The hash `insert_unique` recomputes for a stored index when the table grows. -/
def rehash (slab : List (Slot K V)) (hasher : S) (index : Nat) : UInt64 :=
  match slab[index]? with
  | some (.occupied key _ _ _) => BuildHasher.hashOne hasher key
  | _ => 0

/-- The part of `insert` behind the lookup: allocate, link behind the tail, index. -/
def insertNew (m : OrderedMap T S K V) (hash : UInt64) (key : K) (value : V) : OrderedMap T S K V :=
  let (index, m₁) := m.allocSlot (.occupied key value m.tail none)
  let m₂ :=
    match m.tail with
    | some previous => { m₁ with slab := setNext m₁.slab previous (some index) }
    | none => { m₁ with head := some index }
  { m₂ with
    tail := some index
    table := HashTable.insertUnique m₂.table hash index (rehash m₂.slab m₂.hasher)
    len := m₂.len + 1 }

/-- Insert, replacing any existing value; an existing key keeps its position. -/
def insert (m : OrderedMap T S K V) (key : K) (value : V) : Option V × OrderedMap T S K V :=
  let hash := m.hashOf key
  match m.indexOfHashed hash key with
  | some index =>
    match m.slab[index]? with
    | some (.occupied k old prev next) =>
      (some old, { m with slab := m.slab.set index (.occupied k value prev next) })
    | _ => (none, m.insertNew hash key value)
  | none => (none, m.insertNew hash key value)

/-- Remove a key, leaving the order of every other entry untouched. -/
def remove (m : OrderedMap T S K V) (key : K) : Option V × OrderedMap T S K V :=
  let hash := m.hashOf key
  match HashTable.find m.table hash (m.keyMatches key) with
  | none => (none, m)
  | some index =>
    let table := HashTable.removeEntry m.table hash (fun i => i == index)
    match m.slab[index]? with
    | some (.occupied _ value prev next) =>
      let slab₀ := m.slab.set index (.free m.freeHead)
      let (slab₁, head) :=
        match prev with
        | some p => (setNext slab₀ p next, m.head)
        | none => (slab₀, next)
      let (slab₂, tail) :=
        match next with
        | some n => (setPrev slab₁ n prev, m.tail)
        | none => (slab₁, prev)
      (some value, { m with
          table := table
          slab := slab₂
          head := head
          tail := tail
          freeHead := some index
          len := m.len - 1 })
    | _ => (none, { m with table := table })

def clear (m : OrderedMap T S K V) : OrderedMap T S K V :=
  { m with
    table := HashTable.clear m.table
    slab := []
    head := none
    tail := none
    freeHead := none
    len := 0 }

/-- `Extend::extend`: insert the items in turn. -/
def extend (m : OrderedMap T S K V) (items : List (K × V)) : OrderedMap T S K V :=
  items.foldl (fun m item => (m.insert item.1 item.2).2) m

end OrderedMap

/-! ## Iterators -/

/-- The borrowing iterator. -/
structure Iter (K V : Type) where
  slab : List (Slot K V)
  next : Option Nat
  remaining : Nat

/-- The consuming iterator. -/
structure IntoIter (K V : Type) where
  slab : List (Slot K V)
  next : Option Nat
  remaining : Nat

namespace Iter

variable {K V : Type}

/-- `Iter::next`: the item, if any, and the advanced iterator. -/
def step (it : Iter K V) : Option (K × V) × Iter K V :=
  match it.next with
  | none => (none, it)
  | some index =>
    match it.slab[index]? with
    | some (.occupied key value _ next) =>
      (some (key, value), { it with next := next, remaining := it.remaining - 1 })
    | _ => (none, { it with next := none, remaining := 0 })

def sizeHint (it : Iter K V) : Nat × Option Nat :=
  (it.remaining, some it.remaining)

end Iter

namespace IntoIter

variable {K V : Type}

/-- `IntoIter::next`: every slot it reads is replaced by a hole. -/
def step (it : IntoIter K V) : Option (K × V) × IntoIter K V :=
  match it.next with
  | none => (none, it)
  | some index =>
    match it.slab[index]? with
    | some (.occupied key value _ following) =>
      (some (key, value),
        { slab := it.slab.set index (.free none)
          next := following
          remaining := it.remaining - 1 })
    | _ => (none, { slab := it.slab.set index (.free none), next := none, remaining := 0 })

def sizeHint (it : IntoIter K V) : Nat × Option Nat :=
  (it.remaining, some it.remaining)

end IntoIter

/-- Call `step` until it answers `None`; `none` when `fuel` calls are not enough. -/
def collect {ι α : Type} (step : ι → Option α × ι) : Nat → ι → Option (List α)
  | 0, _ => none
  | fuel + 1, it =>
    match step it with
    | (none, _) => some []
    | (some a, it') => (collect step fuel it').map (fun rest => a :: rest)

namespace OrderedMap

variable {T S K V : Type}

def iter (m : OrderedMap T S K V) : Iter K V where
  slab := m.slab
  next := m.head
  remaining := m.len

/-- `self.iter().map(|(k, _)| k)`. -/
def keysStep (it : Iter K V) : Option K × Iter K V :=
  (it.step.1.map Prod.fst, it.step.2)

/-- `self.iter().map(|(_, v)| v)`. -/
def valuesStep (it : Iter K V) : Option V × Iter K V :=
  (it.step.1.map Prod.snd, it.step.2)

def intoIter (m : OrderedMap T S K V) : IntoIter K V where
  slab := m.slab
  next := m.head
  remaining := m.len

end OrderedMap

end Ordered
end MuxRuntime
