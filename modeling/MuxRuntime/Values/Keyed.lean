import MuxRuntime.Ordered.Refinement
import MuxRuntime.Values.Snapshot

/-!
# Values as keys of maps and sets

The operations that compiled programs call on map and set values, and what a
lookup finds after an insertion. An insertion stores a snapshot of the key
while a lookup uses the key itself, so the two agree exactly when the snapshot
is equal to its original.
-/

namespace MuxRuntime

open List Comparison Value

variable (env : Runtime)

/-! ## Operations -/

/-- `mux_map_put_value`; a null pointer makes it a no-op, and so does a value
that is not a map. -/
def muxMapPutValue (mapVal key val : Option Value) (h : Heap) : Option Value × Heap :=
  match mapVal, key, val with
  | some m, some k, some v =>
    let (keyClone, h) := snapshotKey env k h
    let valClone := v.clone env
    match m with
    | .map s entries => (some (.map s (mapInsert env s entries keyClone valClone)), h)
    | _ => (some m, h)
  | _, _, _ => (mapVal, h)

/-- `mux_set_add_value`; a null pointer or a value that is not a set is left alone. -/
def muxSetAddValue (setVal : Option Value) (val : Value) (h : Heap) : Option Value × Heap :=
  let (value, h) := snapshotKey env val h
  match setVal with
  | some (.set s items) => (some (.set s (setInsert env s items value)), h)
  | _ => (setVal, h)

/-- `mux_map_get`: the value under a key, cloned, as an optional. -/
def muxMapGet (s : RandomState) (entries : List (Value × Value)) (key : Value) : Value :=
  .optional ((mapGet env (Value.eq env) s entries key).map (clone env))

/-- `mux_set_contains`. -/
def muxSetContains (s : RandomState) (items : List Value) (val : Value) : Bool :=
  setContains env (Value.eq env) s items val

variable {k : Value}

namespace Value

variable {entries : List (Value × Value)}

section Lookup

variable {env} {emitted : BoxedEnum → Prop}
  (hk : HashableOn (WellFormed env emitted) (Value.eq env) (feed env))

include hk

/-! ## Lookups after insertions -/

variable {q : Value}

variable (s : RandomState)

lemma mapGet_cons {e : Value × Value} {rest : List (Value × Value)}
    (he : e.1.WellFormed env emitted) (hq : q.WellFormed env emitted) :
    mapGet env (Value.eq env) s (e :: rest) q =
      if Value.eq env e.1 q then some e.2 else mapGet env (Value.eq env) s rest q := by
  have hmatch := keyMatches_eq hk s he hq
  rw [keyMatches] at hmatch
  simp only [mapGet, findBy, List.find?_cons, hmatch]
  cases Value.eq env e.1 q <;> rfl

lemma setContains_cons {w : Value} {rest : List Value} (hw : w.WellFormed env emitted)
    (hq : q.WellFormed env emitted) :
    setContains env (Value.eq env) s (w :: rest) q =
      (Value.eq env w q || setContains env (Value.eq env) s rest q) := by
  have hmatch := keyMatches_eq hk s hw hq
  rw [keyMatches] at hmatch
  simp only [setContains, findBy, List.find?_cons, id, hmatch]
  cases Value.eq env w q <;> simp

/-- Equal keys are equal to the same keys. -/
lemma eq_congr_left {a b : Value} (ha : a.WellFormed env emitted)
    (hb : b.WellFormed env emitted) (hq : q.WellFormed env emitted)
    (hab : Value.eq env a b = true) : Value.eq env a q = Value.eq env b q := by
  rw [Bool.eq_iff_iff]
  exact ⟨hk.trans hb ha hq (hk.symm ha hb hab), hk.trans ha hb hq hab⟩

variable {v : Value}

/-- A lookup after an insertion. -/
lemma mapGet_mapInsert (hentries : ∀ e ∈ entries, e.1.WellFormed env emitted)
    (hkey : k.WellFormed env emitted) (hq : q.WellFormed env emitted) :
    mapGet env (Value.eq env) s (mapInsert env s entries k v) q =
      if Value.eq env k q then some v else mapGet env (Value.eq env) s entries q := by
  induction entries with
  | nil => rw [mapInsert, mapGet_cons hk s hkey hq]
  | cons e entries ih => ?_
  have he := hentries e (by simp)
  have hrest := ih (fun x hx => hentries x (by simp [hx]))
  rw [mapInsert, keyMatches_eq hk s he hkey]
  cases hek : Value.eq env e.1 k with
  | true =>
    rw [if_pos rfl, mapGet_cons hk s (e := (e.1, v)) he hq, mapGet_cons hk s he hq,
      eq_congr_left hk he hkey hq hek]
    cases Value.eq env k q <;> rfl
  | false => ?_
  rw [if_neg (by simp), mapGet_cons hk s he hq, mapGet_cons hk s he hq, hrest]
  cases heq : Value.eq env e.1 q with
  | false => simp
  | true => ?_
  cases hkq : Value.eq env k q with
  | false => simp
  | true =>
    rw [hk.trans he hq hkey heq (hk.symm hkey hq hkq)] at hek
    exact absurd hek (by simp)

/-- A membership test after an insertion. -/
lemma setContains_setInsert {items : List Value} (hitems : ∀ w ∈ items, w.WellFormed env emitted)
    (hv : v.WellFormed env emitted) (hq : q.WellFormed env emitted) :
    setContains env (Value.eq env) s (setInsert env s items v) q =
      (Value.eq env v q || setContains env (Value.eq env) s items q) := by
  induction items with
  | nil => rw [setInsert, setContains_cons hk s hv hq]
  | cons w items ih => ?_
  have hw := hitems w (by simp)
  have hrest := ih (fun x hx => hitems x (by simp [hx]))
  rw [setInsert, keyMatches_eq hk s hw hv]
  cases hwv : Value.eq env w v with
  | true =>
    rw [if_pos rfl, setContains_cons hk s hw hq, eq_congr_left hk hw hv hq hwv]
    cases Value.eq env v q <;> simp
  | false =>
    rw [if_neg (by simp), setContains_cons hk s hw hq, setContains_cons hk s hw hq, hrest]
    cases Value.eq env w q <;> cases Value.eq env v q <;> simp

/-! ## What an insertion changes -/

/-- An insertion overwrites the entry of an equal key or appends a new one. -/
lemma mapInsert_cases (v : Value) (hentries : ∀ e ∈ entries, e.1.WellFormed env emitted)
    (hkey : k.WellFormed env emitted) :
    (∃ before e after, entries = before ++ e :: after ∧ Value.eq env e.1 k = true ∧
      mapInsert env s entries k v = before ++ (e.1, v) :: after) ∨
    ((∀ e ∈ entries, Value.eq env e.1 k = false) ∧
      mapInsert env s entries k v = entries ++ [(k, v)]) := by
  by_cases habsent : ∀ e ∈ entries, Value.eq env e.1 k = false
  · exact Or.inr ⟨habsent, mapInsert_of_absent hk s hentries hkey habsent⟩
  left
  induction entries with
  | nil => simp at habsent
  | cons e entries ih => ?_
  rw [mapInsert, keyMatches_eq hk s (hentries e (by simp)) hkey]
  cases hek : Value.eq env e.1 k with
  | true => exact ⟨[], e, entries, rfl, hek, rfl⟩
  | false => ?_
  have hrest : ¬ ∀ x ∈ entries, Value.eq env x.1 k = false := by
    intro hall
    exact habsent (by simpa [hek] using hall)
  rcases ih (fun x hx => hentries x (by simp [hx])) hrest with
    ⟨before, e', after, rfl, hek', hinsert⟩
  exact ⟨e :: before, e', after, rfl, hek', by simp [hinsert]⟩

end Lookup

/-! ## The hash map behind a map value -/

/-- Well-formed values, the keys of map values. -/
def Key (env : Runtime) (emitted : BoxedEnum → Prop) : Type :=
  {v : Value // v.WellFormed env emitted}

section Representation

variable {env} {emitted : BoxedEnum → Prop}

instance : BEq (Key env emitted) := ⟨fun a b => Value.eq env a.1 b.1⟩

instance : Ordered.BuildHasher RandomState (Key env emitted) := ⟨fun s k => hashOf env s k.1⟩

variable (hk : HashableOn (WellFormed env emitted) (Value.eq env) (feed env))

include hk

lemma key_equivBEq : EquivBEq (Key env emitted) where
  rfl := fun {a} => hk.refl a.2
  symm := fun {a b} => hk.symm a.2 b.2
  trans := fun {a b c} => hk.trans a.2 b.2 c.2

lemma key_lawfulHasher : Ordered.LawfulBuildHasher RandomState (Key env emitted) where
  hashOne_eq := fun s {a b} hab => hashOf_congr s (hk.feed_eq a.2 b.2 hab)

variable {T : Type} [Ordered.HashTable T] [Ordered.LawfulHashTable T]

omit hk in
/-- The hash map holds these entries, in this order. -/
def Represents (m : Ordered.OrderedMap T RandomState (Key env emitted) Value)
    (entries : List (Value × Value)) : Prop :=
  ∃ l : List (Key env emitted × Value), Ordered.Refines m l ∧ entries = l.map (fun e => (e.1.1, e.2))

variable {m : Ordered.OrderedMap T RandomState (Key env emitted) Value}

/-- Inserting into the hash map inserts into its entries. -/
theorem insert_represents (h : Represents m entries) (s : RandomState) (k : Key env emitted)
    (v : Value) : Represents (m.insert k v).2 (mapInsert env s entries k.1 v) := by
  have := key_equivBEq hk
  have := key_lawfulHasher hk
  rcases h with ⟨l, hrefines, rfl⟩
  refine ⟨_, (Ordered.insert_refines hrefines k v).2, ?_⟩
  have hnodup : AssocList.NodupKeys l := by
    rcases hrefines with ⟨order, holes, hinv⟩
    exact hinv.nodupKeys
  have hwf : ∀ e ∈ l.map (fun e => (e.1.1, e.2)), e.1.WellFormed env emitted := by
    intro e he
    rcases mem_map.mp he with ⟨e', -, rfl⟩
    exact e'.1.2
  rcases mapInsert_cases hk s v hwf k.2 with
    ⟨before, e, after, hsplit, hek, hinsert⟩ | ⟨habsent, hinsert⟩
  · rcases map_eq_append_iff.mp hsplit with ⟨before', rest, rfl, rfl, hrest⟩
    rcases map_eq_cons_iff.mp hrest with ⟨⟨k', v'⟩, after', rfl, rfl, rfl⟩
    rw [hinsert, AssocList.insert_eq_of_split hnodup hek]
    simp
  have hcontains : AssocList.contains l k = false := by
    rw [AssocList.contains_eq_false_iff]
    intro e he
    exact habsent (e.1.1, e.2) (mem_map.mpr ⟨e, he, rfl⟩)
  rw [hinsert, AssocList.insert_eq_append hcontains]
  simp

/-- Reading the hash map reads its entries. -/
theorem get_represents (h : Represents m entries) (s : RandomState) (k : Key env emitted) :
    m.get k = mapGet env (Value.eq env) s entries k.1 := by
  have := key_equivBEq hk
  have := key_lawfulHasher hk
  rcases h with ⟨l, hrefines, rfl⟩
  rw [hrefines.observed.get]
  clear hrefines
  induction l with
  | nil => rfl
  | cons e l ih =>
    rw [map_cons, mapGet_cons hk s e.1.2 k.2, ← ih]
    show Option.map Prod.snd (List.find? _ (e :: l)) = _
    cases hek : Value.eq env e.1.1 k.1 <;> simp [BEq.beq, hek, AssocList.lookup]

lemma extend_represents (h : Represents m entries) (s : RandomState)
    (items : List (Key env emitted × Value)) : Represents (m.extend items)
      (items.foldl (fun entries e => mapInsert env s entries e.1.1 e.2) entries) := by
  induction items generalizing m entries with
  | nil => exact h
  | cons e items ih => exact ih (insert_represents hk h s e.1 e.2)

omit hk in
/-- However a map value was filled, its entries are those of the hash map behind it, in the
order of its iterator and with the same answers to lookups. -/
theorem insertions_refined (hrt : LawfulRuntime env emitted) (hobj : LawfulObjects env)
    (s : RandomState) (items : List (Key env emitted × Value)) :
    let m : Ordered.OrderedMap T RandomState (Key env emitted) Value :=
      (Ordered.OrderedMap.new s).extend items
    let entries := items.foldl (fun entries e => mapInsert env s entries e.1.1 e.2) []
    (∀ k : Key env emitted, m.get k = mapGet env (Value.eq env) s entries k.1) ∧
      ∃ l, Ordered.collect Ordered.Iter.step (m.len + 1) m.iter = some l ∧
        entries = l.map fun e => (e.1.1, e.2) := by
  intro m entries
  have hk : HashableOn (WellFormed env emitted) (Value.eq env) (feed env) :=
    hashableOn hrt (fun _ h => h) (fun _ _ => hobj)
  have := key_equivBEq hk
  have := key_lawfulHasher hk
  have hfilled : Represents m entries :=
    extend_represents hk ⟨[], ⟨[], [], Ordered.Inv.new s⟩, rfl⟩ s items
  refine ⟨get_represents hk hfilled s, ?_⟩
  rcases hfilled with ⟨l, hrefines, hentries⟩
  have hlen := hrefines.observed.len
  exact ⟨l, hrefines.observed.iter _ (by omega), hentries⟩

end Representation

end Value

/-! ## Inserting and looking up the same key -/

/-- A lookup of `k` after putting `v` under it finds a value equal to `v`. -/
def FoundAfterPut (env : Runtime) (h : Heap) (s : RandomState) (entries : List (Value × Value))
    (k v : Value) : Prop :=
  ∃ entries' h' found,
    muxMapPutValue env (some (.map s entries)) (some k) (some v) h = (some (.map s entries'), h') ∧
      muxMapGet env s entries' k = .optional (some found) ∧ Value.eq env found v = true

/-- A set contains `k` after adding it. -/
def ContainedAfterAdd (env : Runtime) (h : Heap) (s : RandomState) (items : List Value)
    (k : Value) : Prop :=
  ∃ items' h', muxSetAddValue env (some (.set s items)) k h = (some (.set s items'), h') ∧
    muxSetContains env s items' k = true

section

variable {env} {emitted : BoxedEnum → Prop}

lemma snapshotKey_eq_iff (hk : HashableOn (WellFormed env emitted) (Value.eq env) (feed env))
    (hcopies : LawfulCopies env emitted) {h : Heap} (hkey : k.WellFormed env emitted)
    (hptrs : k.PtrsBelow h.next) : (snapshotKey env k h).1.WellFormed env emitted ∧
      (Value.eq env (snapshotKey env k h).1 k = true ↔ k.Snapshottable env) := by
  have hs := deepClone_snapshot hk hcopies k h hkey hptrs
  refine ⟨hs.wellFormed, fun heq => ?_, hs.same⟩
  by_contra hnot
  rcases hs.fresh hnot with ⟨o, hin, hid, hptr⟩
  rcases exists_inside_of_eq hk hid hin hs.wellFormed hkey heq with ⟨o', hin', hptr'⟩
  have := PtrsBelow.ptr_lt hptrs hin'
  omega

/-- The key just inserted is found, with the value just inserted, exactly when
its snapshot keeps the identity of every object keyed by identity, or when the
key was there before with that value; and likewise for sets. -/
theorem lookup_after_put_iff (hrt : LawfulRuntime env emitted) (hobj : LawfulObjects env)
    (hcopies : LawfulCopies env emitted) (h : Heap) (s : RandomState)
    {entries : List (Value × Value)} {items : List Value} {k v : Value}
    (hmap : (Value.map s entries).WellFormed env emitted)
    (hset : (Value.set s items).WellFormed env emitted)
    (hkey : k.WellFormed env emitted) (hv : v.WellFormed env emitted) (hptrs : k.PtrsBelow h.next) :
    (FoundAfterPut env h s entries k v ↔ k.Snapshottable env ∨
      ∃ w, mapGet env (Value.eq env) s entries k = some w ∧ Value.eq env w v = true) ∧
    (ContainedAfterAdd env h s items k ↔ k.Snapshottable env ∨
      setContains env (Value.eq env) s items k = true) := by
  have hk : HashableOn (WellFormed env emitted) (Value.eq env) (feed env) :=
    hashableOn hrt (fun _ h => h) (fun _ _ => hobj)
  rcases snapshotKey_eq_iff hk hcopies hkey hptrs with ⟨hsnapWf, hsnap⟩
  have hclone := clone_eq hk hcopies hv
  constructor
  · have hget := mapGet_mapInsert hk s (v := v.clone env) (fun e he => (hmap.entry he).1) hsnapWf
      hkey
    have hunfold : FoundAfterPut env h s entries k v ↔ ∃ w, mapGet env (Value.eq env) s
          (mapInsert env s entries (snapshotKey env k h).1 (v.clone env)) k = some w ∧
        Value.eq env (w.clone env) v = true := by
      constructor
      · rintro ⟨entries', h', found, hput, hfound, heq⟩
        simp only [muxMapPutValue, Prod.mk.injEq, Option.some.injEq, Value.map.injEq,
          true_and] at hput
        simp only [muxMapGet, ← hput.1, Value.optional.injEq, Option.map_eq_some_iff] at hfound
        rcases hfound with ⟨w, hw, rfl⟩
        exact ⟨w, hw, heq⟩
      · rintro ⟨w, hw, heq⟩
        refine ⟨_, _, w.clone env, rfl, ?_, heq⟩
        exact congrArg (fun o => Value.optional (o.map (clone env))) hw
    rw [hunfold, hget]
    by_cases hcase : k.Snapshottable env
    · have hcloned := clone_eq hk hcopies hclone.1
      simp only [hsnap.mpr hcase, if_true, hcase, true_or, iff_true]
      exact ⟨_, rfl, hk.trans hcloned.1 hclone.1 hv hcloned.2 hclone.2⟩
    · have hne : Value.eq env (snapshotKey env k h).1 k = false := by simpa [hcase] using hsnap
      simp only [hne, hcase, false_or, Bool.false_eq_true, if_false]
      refine exists_congr (fun w => and_congr_right (fun hw => ?_))
      have hwf : w.WellFormed env emitted := by
        rcases Option.map_eq_some_iff.mp hw with ⟨e, he, rfl⟩
        exact (hmap.entry (mem_of_find?_eq_some he)).2
      have hwclone := clone_eq hk hcopies hwf
      rw [eq_congr_left hk hwclone.1 hwf hv hwclone.2]
  · have hitems : ∀ w ∈ items, w.WellFormed env emitted := fun w hw => hset.inside hw
    have hcontains := setContains_setInsert hk s hitems hsnapWf hkey
    have hunfold : ContainedAfterAdd env h s items k ↔
        setContains env (Value.eq env) s (setInsert env s items (snapshotKey env k h).1) k = true := by
      constructor
      · rintro ⟨items', h', hadd, hfound⟩
        simp only [muxSetAddValue, Prod.mk.injEq, Option.some.injEq, Value.set.injEq,
          true_and] at hadd
        rwa [muxSetContains, ← hadd.1] at hfound
      · intro hfound
        exact ⟨_, _, rfl, hfound⟩
    rw [hunfold, hcontains, Bool.or_eq_true, hsnap]

end

/-! ## Concrete object types -/

/-- A type that can be copied but declares no equality: keyed by identity. -/
def handleType : ObjectType where
  size := 1
  copy := some id
  shared := false
  equals := none
  compare := none
  hash := none

/-- A type that is copied, compared and hashed by its contents. -/
def recordType : ObjectType where
  size := 1
  copy := some id
  shared := false
  equals := some (fun a b => decide (a.data = b.data))
  compare := none
  hash := some (fun o => (Write.bytes o.data).code)

/-- The registry in which type 1 is a handle and type 2 a record. -/
def sampleRegistry (typeId : UInt32) : Option ObjectType :=
  if typeId = 1 then some handleType else if typeId = 2 then some recordType else none

lemma sampleRegistry_cases {typeId : UInt32} {t : ObjectType}
    (h : sampleRegistry typeId = some t) : t = handleType ∨ t = recordType := by
  unfold sampleRegistry at h
  split at h
  · exact Or.inl (Option.some.inj h).symm
  · split at h
    · exact Or.inr (Option.some.inj h).symm
    · exact absurd h (by simp)

lemma sample_lawfulObjects : LawfulObjects (sampleRuntime sampleRegistry) := by
  intro typeId t hreg _ equality hequality
  rcases sampleRegistry_cases hreg with rfl | rfl
  · simp [ObjectType.equality, handleType] at hequality
  obtain rfl : (fun a b : ObjectRef => decide (a.data = b.data)) = equality :=
    Option.some.inj hequality
  have hdata : HashableOn (fun o : ObjectRef => o.typeId = typeId)
      (fun a b => decide (a.data = b.data)) ObjectRef.data :=
    HashableOn.ofKey ObjectRef.data (fun _ _ => rfl) (fun _ _ h => h)
  refine ⟨hdata.toEquivOn, fun hash hhash a b _ _ hab => ?_⟩
  obtain rfl : (fun o : ObjectRef => (Write.bytes o.data).code) = hash := Option.some.inj hhash
  simp only [decide_eq_true_eq] at hab
  simp only [hab]

lemma sample_lawfulCopies : LawfulCopies (sampleRuntime sampleRegistry) (fun _ => True) where
  enum_clone := by
    intro e _
    refine ⟨trivial, ?_⟩
    have hself : compare e.data e.data = .eq := Std.ReflCmp.compare_self
    simp only [BoxedEnum.compare, BoxedEnum.clone, sampleRuntime, hself, beq_self_eq_true, if_true]
    rfl
  object_copy := by
    intro typeId t hreg copy hcopy equality hequality o _ ptr
    rcases sampleRegistry_cases hreg with rfl | rfl
    · simp [ObjectType.equality, handleType] at hequality
    obtain rfl : (fun a b : ObjectRef => decide (a.data = b.data)) = equality :=
      Option.some.inj hequality
    obtain rfl : id = copy := Option.some.inj hcopy
    simp

/-- A handle put into an empty map is not found under itself: the stored copy
has its own address, and the address is what both are keyed by. -/
theorem handle_lost_after_put :
    let env := sampleRuntime sampleRegistry
    let h : Heap := ⟨100, ⟨0, 0⟩⟩
    let k := Value.object ⟨10, 1, [7]⟩
    LawfulRuntime env (fun _ => True) ∧ LawfulObjects env ∧ LawfulCopies env (fun _ => True) ∧
      k.PtrsBelow h.next ∧
      ¬ FoundAfterPut env h ⟨1, 2⟩ [] k (.int 5) ∧ ¬ ContainedAfterAdd env h ⟨1, 2⟩ [] k := by
  intro env h k
  refine ⟨sampleRuntime_lawful sampleRegistry, sample_lawfulObjects, sample_lawfulCopies,
    by decide, ?_, ?_⟩
  · rintro ⟨entries', h', found, hput, hget, -⟩
    obtain rfl : [(object ⟨100, 1, [7]⟩, int 5)] = entries' :=
      (Value.map.inj (Option.some.inj (congrArg Prod.fst hput))).2
    cases show Value.optional none = .optional (some found) from hget
  · rintro ⟨items', h', hadd, hcontains⟩
    obtain rfl : [object ⟨100, 1, [7]⟩] = items' :=
      (Value.set.inj (Option.some.inj (congrArg Prod.fst hadd))).2
    cases show false = true from hcontains

/-- A map with two strings, of which one is put twice. -/
theorem insertions_refined_string :
    let m : Ordered.OrderedMap Ordered.ScanTable RandomState
        (Value.Key (sampleRuntime sampleRegistry) fun _ => True) Value :=
      (Ordered.OrderedMap.new ⟨1, 2⟩).extend [(⟨.string "x", by decide⟩, .int 5),
        (⟨.string "y", by decide⟩, .int 6), (⟨.string "x", by decide⟩, .int 7)]
    ∃ l, Ordered.collect Ordered.Iter.step (m.len + 1) m.iter = some l ∧
      [(.string "x", .int 7), (.string "y", .int 6)] = l.map fun e => (e.1.1, e.2) :=
  (insertions_refined (sampleRuntime_lawful _) sample_lawfulObjects ⟨1, 2⟩ _).2

/-- A list that holds a record is found after being put under itself. -/
theorem record_found_after_put :
    let env := sampleRuntime sampleRegistry
    let k := Value.list [.object ⟨10, 2, [7]⟩, .int 1]
    FoundAfterPut env ⟨100, ⟨0, 0⟩⟩ ⟨1, 2⟩ [(.string "x", .unit)] k (.int 5) ∧
      ContainedAfterAdd env ⟨100, ⟨0, 0⟩⟩ ⟨1, 2⟩ [.string "x"] k := by
  intro env k
  have hmap : (Value.map ⟨1, 2⟩ [(.string "x", .unit)]).WellFormed env (fun _ => True) := by decide
  have hset : (Value.set ⟨1, 2⟩ [.string "x"]).WellFormed env (fun _ => True) := by decide
  have hboth := lookup_after_put_iff (sampleRuntime_lawful sampleRegistry) sample_lawfulObjects
    sample_lawfulCopies ⟨100, ⟨0, 0⟩⟩ ⟨1, 2⟩ hmap hset (k := k) (v := .int 5) (by decide)
    (by decide) (by decide)
  have hsnap : k.Snapshottable env := by decide
  exact ⟨hboth.1.mpr (Or.inl hsnap), hboth.2.mpr (Or.inl hsnap)⟩

end MuxRuntime
