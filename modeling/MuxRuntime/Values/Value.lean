import MuxRuntime.Foundations.Collection

/-!
# Runtime values: representation, hashing, equality and order

The `Value` type and its `Hash`, `PartialEq` and `Ord` implementations. A map or
set is represented by its hasher and its entries in insertion order.

Equality and order recurse on both arguments, and a map lookup swaps them. The
bodies are therefore written once as `eqWith` and `cmpWith`, over the function
used for the parts, and then iterated as deeply as the two values nest.
-/

namespace MuxRuntime

open List Comparison

/-- Keys of the per-collection hasher. -/
structure RandomState where
  k0 : UInt64
  k1 : UInt64
deriving DecidableEq, Repr

/-- One call made on a hasher. -/
inductive Write where
  | u8 (x : UInt8)
  | u32 (x : UInt32)
  | u64 (x : UInt64)
  | i64 (x : Int64)
  | usize (n : Nat)
  | isize (n : Int)
  | bytes (data : List UInt8)
  | str (s : String)
deriving DecidableEq

/-- A handle to an object: its address, its type, and the contents stored there. -/
structure ObjectRef where
  ptr : Nat
  typeId : UInt32
  data : List UInt8
deriving DecidableEq, Repr

/-- A boxed enum: its inline bytes and the addresses of the compiler's glue. -/
structure BoxedEnum where
  data : List UInt8
  cloneGlue : Nat
  cmpGlue : Nat
  hashGlue : Nat
deriving DecidableEq, Repr

/-- Values of the runtime. Floats are given by their bits. -/
inductive Value where
  | unit
  | bool (b : Bool)
  | int (i : Int64)
  | float (bits : UInt64)
  | string (s : String)
  | list (items : List Value)
  | bytes (data : List UInt8)
  | map (hasher : RandomState) (entries : List (Value × Value))
  | set (hasher : RandomState) (items : List Value)
  | tuple (fst snd : Value)
  | optional (value : Option Value)
  | result (value : Except Value Value)
  | object (obj : ObjectRef)
  | opaqueBytes (data : List UInt8)
  | boxedEnum (e : BoxedEnum)

/-- What a program registers for an object type. -/
structure ObjectType where
  size : Nat
  copy : Option (List UInt8 → List UInt8)
  shared : Bool
  equals : Option (ObjectRef → ObjectRef → Bool)
  compare : Option (ObjectRef → ObjectRef → Int)
  hash : Option (ObjectRef → UInt64)

/-- The callbacks an object is keyed by. -/
structure ObjectCallbacks where
  equals : Option (ObjectRef → ObjectRef → Bool) := none
  compare : Option (ObjectRef → ObjectRef → Int) := none
  hash : Option (ObjectRef → UInt64) := none
  canSnapshot : Bool := false

/-- The code the values depend on but which lives elsewhere: the `OrderedFloat`
operations, the hash function, the compiler's enum glue and the type registry. -/
structure Runtime where
  floatEq : UInt64 → UInt64 → Bool
  floatPartialCmp : UInt64 → UInt64 → Option Ordering
  floatHash : UInt64 → List Write
  sipHash : RandomState → List Write → UInt64
  cmpGlue : Nat → List UInt8 → List UInt8 → Int
  hashGlue : Nat → List UInt8 → UInt64
  cloneGlue : Nat → List UInt8 → List UInt8
  registry : UInt32 → Option ObjectType

variable (env : Runtime)

/-! ## Objects and boxed enums -/

/-- The callbacks registered for a type. -/
def objectCallbacks (typeId : UInt32) : ObjectCallbacks :=
  match env.registry typeId with
  | some objType =>
    { equals := objType.equals
      compare := objType.compare
      hash := objType.hash
      canSnapshot := objType.copy.isSome }
  | none => {}

namespace ObjectRef

/-- The callbacks this object is actually keyed by: none unless its type can be
copied and supplies an equality. -/
def keying (o : ObjectRef) : ObjectCallbacks :=
  let callbacks := objectCallbacks env o.typeId
  let hasEquality := callbacks.equals.isSome || callbacks.compare.isSome
  if callbacks.canSnapshot && hasEquality then callbacks else {}

/-- The number this object is hashed and, absent a comparison, ordered by. -/
def structuralKey (o : ObjectRef) : UInt64 :=
  match (o.keying env).hash with
  | some hash => hash o
  | none =>
    if (o.keying env).equals.isSome || (o.keying env).compare.isSome then 0
    else UInt64.ofNat o.ptr

/-- Equality by contents, when the type declares one. -/
def structuralEq (a b : ObjectRef) : Option Bool :=
  if a.typeId != b.typeId then none
  else
    match (a.keying env).equals with
    | some equals => some (equals a b)
    | none =>
      match (a.keying env).compare with
      | some compare => some (compare a b == 0)
      | none => none

/-- Order by contents, when the type declares one. -/
def structuralCmp (a b : ObjectRef) : Option Ordering :=
  if a.typeId != b.typeId then none
  else
    match (a.keying env).compare with
    | some cmp => some (compare (cmp a b) 0)
    | none => none

end ObjectRef

namespace BoxedEnum

/-- Structural hash through the enum's glue. -/
def hashValue (e : BoxedEnum) : UInt64 :=
  env.hashGlue e.hashGlue e.data

/-- Structural order within one enum type, glue addresses across types. -/
def compare (a b : BoxedEnum) : Ordering :=
  if a.cmpGlue == b.cmpGlue then Ord.compare (env.cmpGlue a.cmpGlue a.data b.data) 0
  else Ord.compare a.cmpGlue b.cmpGlue

end BoxedEnum

namespace Value

/-! ## Parts of a value -/

/-- The values directly inside a value. -/
def children : Value → List Value
  | list items => items
  | map _ entries => entries.map Prod.fst ++ entries.map Prod.snd
  | set _ items => items
  | tuple a b => [a, b]
  | optional value => value.toList
  | result (.ok v) => [v]
  | result (.error e) => [e]
  | _ => []

mutual

/-- How deeply values are nested in a value. -/
def depth : Value → Nat
  | list items => depthItems items
  | map _ entries => depthEntries entries
  | set _ items => depthItems items
  | tuple a b => max a.depth b.depth + 1
  | optional none => 1
  | optional (some v) => v.depth + 1
  | result (.ok v) => v.depth + 1
  | result (.error e) => e.depth + 1
  | _ => 1

/-- The depth of a value that holds these items. -/
def depthItems : List Value → Nat
  | [] => 1
  | v :: items => max (v.depth + 1) (depthItems items)

/-- The depth of a value that holds these entries. -/
def depthEntries : List (Value × Value) → Nat
  | [] => 1
  | (k, v) :: entries => max (max k.depth v.depth + 1) (depthEntries entries)

end

/-! ## Hashing -/

mutual

/-- The writes that hashing a value makes, in order. -/
def feed : Value → List Write
  | unit => [.isize 0]
  | bool b => [.isize 1, .u8 (if b then 1 else 0)]
  | int i => [.isize 2, .i64 i]
  | float bits => .isize 3 :: env.floatHash bits
  | string s => [.isize 4, .str s]
  | list items => .isize 5 :: .usize items.length :: feedItems items
  | bytes data => [.isize 6, .usize data.length, .bytes data]
  | map _ entries => [.isize 7, .usize entries.length, .u64 (combineEntries entries 0)]
  | set _ items => [.isize 8, .usize items.length, .u64 (combineItems items 0)]
  | tuple a b => .isize 9 :: (a.feed ++ b.feed)
  | optional none => [.isize 10, .isize 0]
  | optional (some v) => .isize 10 :: .isize 1 :: v.feed
  | result (.ok v) => .isize 11 :: .isize 0 :: v.feed
  | result (.error e) => .isize 11 :: .isize 1 :: e.feed
  | object o => [.isize 12, .u32 o.typeId, .u64 (o.structuralKey env)]
  | opaqueBytes data => [.isize 13, .usize data.length, .bytes data]
  | boxedEnum e => [.isize 14, .u64 (e.hashValue env)]

/-- The writes of the elements of a list, one after the other. -/
def feedItems : List Value → List Write
  | [] => []
  | v :: items => v.feed ++ feedItems items

/-- The loop of a map's hash: each entry is hashed on its own with fixed keys,
and the results are added up with wrap-around. -/
def combineEntries : List (Value × Value) → UInt64 → UInt64
  | [], combined => combined
  | (k, v) :: entries, combined =>
    combineEntries entries (combined + env.sipHash ⟨0, 0⟩ (k.feed ++ v.feed))

/-- The same loop for a set, whose entries hold no value. -/
def combineItems : List Value → UInt64 → UInt64
  | [], combined => combined
  | v :: items, combined => combineItems items (combined + env.sipHash ⟨0, 0⟩ v.feed)

end

/-- The hash of a value under a collection's hasher. -/
def hashOf (s : RandomState) (v : Value) : UInt64 :=
  env.sipHash s (v.feed env)

/-! ## Lookups -/

/-- The value a map holds for a key. -/
def mapGet (eq : Value → Value → Bool) (s : RandomState) (entries : List (Value × Value))
    (k : Value) : Option Value :=
  (findBy (hashOf env s) eq Prod.fst entries k).map Prod.snd

/-- Whether a set holds a value. -/
def setContains (eq : Value → Value → Bool) (s : RandomState) (items : List Value)
    (v : Value) : Bool :=
  (findBy (hashOf env s) eq id items v).isSome

/-! ## Equality -/

/-- The body of `==`, over the equality `rec` of the parts. -/
def eqWith (rec : Value → Value → Bool) : Value → Value → Bool
  | unit, unit => true
  | bool a, bool b => a == b
  | int a, int b => a == b
  | float a, float b => env.floatEq a b
  | string a, string b => a == b
  | list a, list b => listEq rec a b
  | bytes a, bytes b => a == b
  | map _ a, map s b =>
    a.length == b.length &&
      a.all (fun e => (mapGet env rec s b e.1).any (fun ov => rec ov e.2))
  | set _ a, set s b => a.length == b.length && a.all (fun v => setContains env rec s b v)
  | tuple a a', tuple b b' => rec a b && rec a' b'
  | optional a, optional b => optionEq rec a b
  | result a, result b => exceptEq rec a b
  | object a, object b =>
    match a.structuralEq env b with
    | some equal => equal
    | none => a.ptr == b.ptr && a.typeId == b.typeId
  | opaqueBytes a, opaqueBytes b => a == b
  | boxedEnum a, boxedEnum b => a.compare env b == .eq
  | _, _ => false

/-- Equality of values. -/
def eq (a b : Value) : Bool :=
  iterate (eqWith env) false (max a.depth b.depth) a b

/-! ## Order -/

/-- Position of the variant in the order of variants. -/
def variantOrder : Value → Nat
  | unit => 0
  | bool _ => 1
  | int _ => 2
  | float _ => 3
  | string _ => 4
  | list _ => 5
  | bytes _ => 6
  | map _ _ => 7
  | set _ _ => 8
  | tuple _ _ => 9
  | optional _ => 10
  | result _ => 11
  | object _ => 12
  | opaqueBytes _ => 13
  | boxedEnum _ => 14

/-- The body of `cmp`, over the comparison `rec` of the parts. -/
def cmpWith (rec : Value → Value → Ordering) : Value → Value → Ordering
  | unit, unit => .eq
  | bool a, bool b => compare a b
  | int a, int b => compare a b
  | float a, float b => (env.floatPartialCmp a b).getD .eq
  | string a, string b => compare a.toUTF8.data.toList b.toUTF8.data.toList
  | list a, list b => List.compareLex rec a b
  | bytes a, bytes b => compare a b
  | map _ a, map _ b =>
    List.compareLex (pairCmp rec rec)
      (sortBy (fun e e' => rec e.1 e'.1) a) (sortBy (fun e e' => rec e.1 e'.1) b)
  | set _ a, set _ b => List.compareLex rec (sortBy rec a) (sortBy rec b)
  | tuple a a', tuple b b' => (rec a b).then (rec a' b')
  | optional a, optional b => optionCmp rec a b
  | result a, result b => exceptCmp rec a b
  | object a, object b =>
    match a.structuralCmp env b with
    | some ordering => ordering
    | none =>
      (compare a.typeId b.typeId).then
        (compare (a.structuralKey env) (b.structuralKey env))
  | opaqueBytes a, opaqueBytes b => compare a b
  | boxedEnum a, boxedEnum b => a.compare env b
  | a, b => compare a.variantOrder b.variantOrder

/-- The order of values. -/
def cmp (a b : Value) : Ordering :=
  iterate (cmpWith env) .eq (max a.depth b.depth) a b

/-! ## The recursive equations -/

lemma depth_pos (v : Value) : 0 < v.depth := by
  cases v with
  | list items | set _ items => cases items <;> simp [depth, depthItems]
  | map _ entries => rcases entries with _ | ⟨⟨k, v⟩, entries⟩ <;> simp [depth, depthEntries]
  | optional value | result value => cases value <;> simp [depth]
  | _ => simp [depth]

lemma depth_lt_depthItems {v : Value} {items : List Value} (h : v ∈ items) :
    v.depth < depthItems items := by
  induction items with
  | nil => simp at h
  | cons x items ih => ?_
  rw [depthItems]
  rcases mem_cons.mp h with rfl | h
  · omega
  · have := ih h
    omega

variable {entries : List (Value × Value)}

lemma depth_lt_depthEntries {e : Value × Value} (h : e ∈ entries) :
    e.1.depth < depthEntries entries ∧ e.2.depth < depthEntries entries := by
  induction entries with
  | nil => simp at h
  | cons x entries ih => ?_
  rcases x with ⟨k, v⟩
  rw [depthEntries]
  rcases mem_cons.mp h with rfl | h
  · exact ⟨by simp only; omega, by simp only; omega⟩
  · have := ih h
    omega

lemma depth_lt_of_mem_children {v c : Value} (h : c ∈ v.children) : c.depth < v.depth := by
  cases v with
  | list items | set _ items => exact depth_lt_depthItems h
  | map _ entries =>
    simp only [children, mem_append, mem_map] at h
    rcases h with ⟨e, he, rfl⟩ | ⟨e, he, rfl⟩
    · exact (depth_lt_depthEntries he).1
    · exact (depth_lt_depthEntries he).2
  | tuple a b =>
    simp only [children, mem_cons, not_mem_nil, or_false] at h
    rcases h with rfl | rfl <;> simp only [depth] <;> omega
  | optional value =>
    cases value with
    | none => simp [children] at h
    | some a =>
      simp only [children, Option.toList_some, mem_singleton] at h
      simp [h, depth]
  | result value => cases value <;> simp only [children, mem_singleton] at h <;> simp [h, depth]
  | _ => simp [children] at h

/-- Induction on values from their parts. -/
theorem child_induction {motive : Value → Prop}
    (h : ∀ v, (∀ c ∈ v.children, motive c) → motive v) (v : Value) : motive v := by
  have hdepth : ∀ n, ∀ w : Value, w.depth < n → motive w := by
    intro n
    induction n with
    | zero => intro w hw; omega
    | succ n ih =>
      intro w hw
      refine h w (fun c hc => ih c ?_)
      have := depth_lt_of_mem_children hc
      omega
  exact hdepth _ v (Nat.lt_succ_self _)

/-- Two values of the same variant. -/
inductive SameVariant : Value → Value → Prop
  | unit : SameVariant unit unit
  | bool (a b) : SameVariant (bool a) (bool b)
  | int (a b) : SameVariant (int a) (int b)
  | float (a b) : SameVariant (float a) (float b)
  | string (a b) : SameVariant (string a) (string b)
  | list (a b) : SameVariant (list a) (list b)
  | bytes (a b) : SameVariant (bytes a) (bytes b)
  | map (s a t b) : SameVariant (map s a) (map t b)
  | set (s a t b) : SameVariant (set s a) (set t b)
  | tuple (a a' b b') : SameVariant (tuple a a') (tuple b b')
  | optional (a b) : SameVariant (optional a) (optional b)
  | result (a b) : SameVariant (result a) (result b)
  | object (a b) : SameVariant (object a) (object b)
  | opaqueBytes (a b) : SameVariant (opaqueBytes a) (opaqueBytes b)
  | boxedEnum (a b) : SameVariant (boxedEnum a) (boxedEnum b)

/-- Values of different variants are unequal and ordered by variant. -/
lemma sameVariant_or (a b : Value) :
    SameVariant a b ∨ (a.variantOrder ≠ b.variantOrder ∧ (∀ rec, eqWith env rec a b = false) ∧
      ∀ rec, cmpWith env rec a b = compare a.variantOrder b.variantOrder) := by
  cases a <;> cases b <;>
    first
    | exact Or.inr ⟨Nat.ne_of_beq_eq_false rfl, fun _ => rfl, fun _ => rfl⟩
    | (left; constructor)

lemma mem_children_map {s : RandomState} {e : Value × Value} (h : e ∈ entries) :
    e.1 ∈ (map s entries).children ∧ e.2 ∈ (map s entries).children := by
  simp only [children, mem_append, mem_map]
  exact ⟨Or.inl ⟨e, h, rfl⟩, Or.inr ⟨e, h, rfl⟩⟩

/-- The body of `==` uses the equality of parts of its two arguments only. -/
lemma eqWith_congr {rec rec' : Value → Value → Bool} {a b : Value}
    (h : ∀ x y, x.depth < max a.depth b.depth → y.depth < max a.depth b.depth →
      rec x y = rec' x y) : eqWith env rec a b = eqWith env rec' a b := by
  have hab : ∀ x ∈ a.children, ∀ y ∈ b.children, rec x y = rec' x y := fun x hx y hy =>
    h x y (lt_max_of_lt_left (depth_lt_of_mem_children hx))
      (lt_max_of_lt_right (depth_lt_of_mem_children hy))
  have hba : ∀ x ∈ a.children, ∀ y ∈ b.children, rec y x = rec' y x := fun x hx y hy =>
    h y x (lt_max_of_lt_right (depth_lt_of_mem_children hy))
      (lt_max_of_lt_left (depth_lt_of_mem_children hx))
  rcases sameVariant_or env a b with hsame | ⟨-, hfalse, -⟩
  · cases hsame with
    | list a b => exact listEq_congr hab
    | map s a t b =>
      simp only [eqWith]
      congr 1
      refine all_congr_of_mem (fun e he => ?_)
      have hfind : findBy (hashOf env t) rec Prod.fst b e.1 =
          findBy (hashOf env t) rec' Prod.fst b e.1 :=
        findBy_congr (fun e' he' =>
          hba _ (mem_children_map he).1 _ (mem_children_map (s := t) he').1)
      rw [mapGet, mapGet, ← hfind]
      cases hcase : findBy (hashOf env t) rec Prod.fst b e.1 with
      | none => rfl
      | some e' =>
        have he' := mem_of_find?_eq_some hcase
        exact hba _ (mem_children_map he).2 _ (mem_children_map (s := t) he').2
    | set s a t b =>
      simp only [eqWith]
      congr 1
      refine all_congr_of_mem (fun v hv => ?_)
      exact congrArg Option.isSome (findBy_congr (fun v' hv' => hba v hv v' hv'))
    | tuple a a' b b' =>
      simp only [children, forall_mem_cons] at hab
      simp [eqWith, hab]
    | optional a b => cases a <;> cases b <;> simp_all [eqWith, children, optionEq]
    | result a b => cases a <;> cases b <;> simp_all [eqWith, children, exceptEq]
    | _ => rfl
  · rw [hfalse, hfalse]

/-- The body of `cmp` uses the comparison of parts of its two arguments only. -/
lemma cmpWith_congr {rec rec' : Value → Value → Ordering} {a b : Value}
    (h : ∀ x y, x.depth < max a.depth b.depth → y.depth < max a.depth b.depth →
      rec x y = rec' x y) : cmpWith env rec a b = cmpWith env rec' a b := by
  have hleft : ∀ x ∈ a.children, x.depth < max a.depth b.depth := fun x hx =>
    lt_max_of_lt_left (depth_lt_of_mem_children hx)
  have hright : ∀ x ∈ b.children, x.depth < max a.depth b.depth := fun x hx =>
    lt_max_of_lt_right (depth_lt_of_mem_children hx)
  rcases sameVariant_or env a b with hsame | ⟨-, -, htag⟩
  · cases hsame with
    | list a b => exact compareLex_congr (fun x hx y hy => h x y (hleft x hx) (hright y hy))
    | map s a t b =>
      have ha : ∀ e ∈ a, e.1.depth < _ ∧ e.2.depth < _ := fun e he =>
        ⟨hleft _ (mem_children_map he).1, hleft _ (mem_children_map he).2⟩
      have hb : ∀ e ∈ b, e.1.depth < _ ∧ e.2.depth < _ := fun e he =>
        ⟨hright _ (mem_children_map he).1, hright _ (mem_children_map he).2⟩
      simp only [cmpWith]
      rw [sortBy_congr (fun x hx y hy => h x.1 y.1 (ha x hx).1 (ha y hy).1),
        sortBy_congr (fun x hx y hy => h x.1 y.1 (hb x hx).1 (hb y hy).1)]
      refine compareLex_congr (fun x hx y hy => ?_)
      rw [mem_sortBy] at hx hy
      rw [pairCmp, pairCmp, h _ _ (ha x hx).1 (hb y hy).1, h _ _ (ha x hx).2 (hb y hy).2]
    | set s a t b =>
      simp only [cmpWith, children] at hleft hright ⊢
      rw [sortBy_congr (fun x hx y hy => h x y (hleft x hx) (hleft y hy)),
        sortBy_congr (fun x hx y hy => h x y (hright x hx) (hright y hy))]
      refine compareLex_congr (fun x hx y hy => ?_)
      rw [mem_sortBy] at hx hy
      exact h x y (hleft x hx) (hright y hy)
    | tuple a a' b b' =>
      simp only [children, forall_mem_cons] at hleft hright
      simp [cmpWith, h a b hleft.1 hright.1, h a' b' hleft.2.1 hright.2.1]
    | optional a b => cases a <;> cases b <;> simp_all [cmpWith, children, optionCmp]
    | result a b => cases a <;> cases b <;> simp_all [cmpWith, children, exceptCmp]
    | _ => rfl
  · rw [htag, htag]

/-- Equality is its body applied to itself. -/
theorem eq_unfold (a b : Value) : eq env a b = eqWith env (eq env) a b :=
  iterate_unfold (fun _ _ _ _ => eqWith_congr env) depth_pos a b

/-- The order is its body applied to itself. -/
theorem cmp_unfold (a b : Value) : cmp env a b = cmpWith env (cmp env) a b :=
  iterate_unfold (fun _ _ _ _ => cmpWith_congr env) depth_pos a b

end Value

end MuxRuntime
