import Mathlib
import MuxRuntime.Values.Value

/-!
# The equality, hash and order of values agree

Equality, hashing and order of values are three separate recursive definitions.
This module shows that they fit together: equality is an equivalence, equal
values feed a hasher identically, and the order is total with equality as its
ties.
-/

namespace MuxRuntime

open List Comparison

variable {env : Runtime}

/-! ## Assumptions on the code that lives elsewhere -/

/-- `OrderedFloat` is totally ordered, consistently with its equality and hash,
and the glue the compiler emits for the enums in `emitted` is a total order of
each enum type with which the hash glue agrees. -/
structure LawfulRuntime (env : Runtime) (emitted : BoxedEnum → Prop) : Prop where
  float_eq : HashableOn (fun _ => True) env.floatEq env.floatHash
  float_cmp : ∃ cmp, (∀ a b, env.floatPartialCmp a b = some (cmp a b)) ∧
    LawfulOn (fun _ => True) env.floatEq cmp
  enum_cmp : ∀ glue, LawfulOn (fun e => emitted e ∧ e.cmpGlue = glue)
    (fun a b => env.cmpGlue glue a.data b.data == 0)
    (fun a b => compare (env.cmpGlue glue a.data b.data) 0)
  enum_hash : ∀ {a b}, emitted a → emitted b → a.cmpGlue = b.cmpGlue →
    env.cmpGlue a.cmpGlue a.data b.data = 0 → a.hashValue env = b.hashValue env

/-- The equality an object type declares: `equals`, or else `compare`. -/
def ObjectType.equality (t : ObjectType) : Option (ObjectRef → ObjectRef → Bool) :=
  match t.equals with
  | some equals => some equals
  | none => t.compare.map (fun compare a b => compare a b == 0)

/-- The equality a copyable type declares is an equivalence with which its hash agrees. -/
def LawfulObjects (env : Runtime) : Prop :=
  ∀ typeId t, env.registry typeId = some t → t.copy.isSome → ∀ equality,
    t.equality = some equality → EquivOn (fun o => o.typeId = typeId) equality ∧
        ∀ hash, t.hash = some hash → ∀ {a b : ObjectRef}, a.typeId = typeId →
          b.typeId = typeId → equality a b = true → hash a = hash b

namespace Value

/-! ## Well-formed values -/

/-- A property of a value and of everything inside it. -/
inductive Hereditary (p : Value → Prop) : Value → Prop
  | intro {v : Value} (here : p v) (inside : ∀ c ∈ v.children, Hereditary p c) : Hereditary p v

variable {v : Value}

lemma Hereditary.here {p : Value → Prop} (h : Hereditary p v) : p v := by
  cases h with
  | intro here _ => exact here

lemma Hereditary.inside {p : Value → Prop} (h : Hereditary p v) {c : Value} (hc : c ∈ v.children) :
    Hereditary p c := by
  cases h with
  | intro _ inside => exact inside c hc

lemma Hereditary.entry {p : Value → Prop} {s : RandomState} {entries : List (Value × Value)}
    (h : Hereditary p (map s entries)) {e : Value × Value} (he : e ∈ entries) :
    Hereditary p e.1 ∧ Hereditary p e.2 :=
  ⟨h.inside (mem_children_map he).1, h.inside (mem_children_map he).2⟩

/-- Check a property on a value and `n` levels inside it. -/
def checkBelow (p : Value → Prop) [DecidablePred p] : Nat → Value → Bool
  | 0, _ => false
  | n + 1, v => decide (p v) && v.children.all (checkBelow p n)

lemma checkBelow_iff {p : Value → Prop} [DecidablePred p] {n : Nat} (hn : v.depth ≤ n) :
    checkBelow p n v = true ↔ Hereditary p v := by
  induction n generalizing v with
  | zero =>
    have := depth_pos v
    omega
  | succ n ih => ?_
  have hinside : ∀ c ∈ v.children, (checkBelow p n c = true ↔ Hereditary p c) := by
    intro c hc
    have := depth_lt_of_mem_children hc
    exact ih (by omega)
  rw [checkBelow, Bool.and_eq_true, decide_eq_true_eq, all_eq_true]
  exact ⟨fun h => ⟨h.1, fun c hc => (hinside c hc).mp (h.2 c hc)⟩,
    fun h => ⟨h.here, fun c hc => (hinside c hc).mpr (h.inside hc)⟩⟩

instance {p : Value → Prop} [DecidablePred p] : DecidablePred (Hereditary p) := fun v =>
  decidable_of_iff (checkBelow p v.depth v = true) (checkBelow_iff le_rfl)

/-- The keys of a map or set are pairwise unequal, and enums come from the compiler. -/
def WellFormedHere (env : Runtime) (emitted : BoxedEnum → Prop) : Value → Prop
  | map _ entries => entries.Pairwise (fun e e' => eq env e.1 e'.1 = false)
  | set _ items => items.Pairwise (fun v w => eq env v w = false)
  | boxedEnum e => emitted e
  | _ => True

instance {emitted : BoxedEnum → Prop} [DecidablePred emitted] :
    DecidablePred (WellFormedHere env emitted) := fun v =>
  match v with
  | map _ entries =>
    inferInstanceAs (Decidable (entries.Pairwise (fun e e' => eq env e.1 e'.1 = false)))
  | set _ items => inferInstanceAs (Decidable (items.Pairwise (fun v w => eq env v w = false)))
  | boxedEnum e => inferInstanceAs (Decidable (emitted e))
  | unit | bool _ | int _ | float _ | string _ | list _ | bytes _ | tuple _ _ | optional _
  | result _ | object _ | opaqueBytes _ => isTrue trivial

/-- Every collection inside the value has distinct keys. -/
abbrev WellFormed (env : Runtime) (emitted : BoxedEnum → Prop) (v : Value) : Prop :=
  Hereditary (WellFormedHere env emitted) v

/-- Whether a value is an object. -/
def isObject : Value → Bool
  | object _ => true
  | _ => false

/-- No object occurs in the value. -/
abbrev ObjectFree (v : Value) : Prop :=
  Hereditary (fun w => w.isObject = false) v

/-! ## Leaves -/

lemma floatCmp_lawful {emitted : BoxedEnum → Prop} (h : LawfulRuntime env emitted) :
    LawfulOn (fun _ => True) env.floatEq (fun a b => (env.floatPartialCmp a b).getD .eq) := by
  rcases h.float_cmp with ⟨cmp, hsome, hcmp⟩
  have hget : (fun a b => (env.floatPartialCmp a b).getD .eq) = cmp := by
    funext a b
    rw [hsome, Option.getD_some]
  rw [hget]
  exact hcmp

/-- Boxed enums are ordered by their glue's address and then by the glue. -/
lemma boxedEnum_coherent {emitted : BoxedEnum → Prop} (h : LawfulRuntime env emitted)
    {ordered : Prop} :
    CoherentOn emitted (fun a b => a.compare env b == .eq) (BoxedEnum.hashValue env)
      (BoxedEnum.compare env) ordered := by
  refine CoherentOn.ofTag BoxedEnum.cmpGlue ?_ ?_ ?_
  · intro a b hab
    by_contra hne
    simp [BoxedEnum.compare, hne] at hab
  · intro _ a b hne
    simp [BoxedEnum.compare, hne]
  intro a ha
  have hglue := h.enum_cmp a.cmpGlue
  have hhash : HashableOn _ _ (BoxedEnum.hashValue env) := ⟨hglue.equivOn, fun hx hy hxy =>
    h.enum_hash hx.1 hy.1 (hx.2.trans hy.2.symm) (by simpa [hx.2] using hxy)⟩
  refine CoherentOn.transport ⟨hhash, fun _ => hglue⟩
    (fun e x => x = e ∧ e.cmpGlue = a.cmpGlue) (fun e he => ⟨e, ⟨rfl, he.2⟩, he⟩) ?_ ?_ ?_
  · rintro x y _ _ ⟨rfl, hx⟩ ⟨rfl, hy⟩
    simp [BoxedEnum.compare, hx, hy]
  · rintro x y _ _ ⟨rfl, hx⟩ ⟨rfl, hy⟩ hfeed
    exact hfeed
  · rintro x y _ _ ⟨rfl, hx⟩ ⟨rfl, hy⟩
    simp [BoxedEnum.compare, hx, hy]

/-! ## Objects -/

/-- Equality of objects: by contents where the type is keyed by them, else by identity. -/
def objectEq (env : Runtime) (a b : ObjectRef) : Bool :=
  match a.structuralEq env b with
  | some equal => equal
  | none => a.ptr == b.ptr && a.typeId == b.typeId

/-- The equality of contents a type is keyed by, if it is. -/
def contentEquality (env : Runtime) (typeId : UInt32) : Option (ObjectRef → ObjectRef → Bool) :=
  match env.registry typeId with
  | some t => if t.copy.isSome then t.equality else none
  | none => none

variable {a b : ObjectRef}

lemma keying_congr (h : a.typeId = b.typeId) : a.keying env = b.keying env := by
  simp [ObjectRef.keying, h]

lemma keying_of_identity {o : ObjectRef} (h : contentEquality env o.typeId = none) :
    o.keying env = {} := by
  rcases hreg : env.registry o.typeId with _ | t
  · simp [ObjectRef.keying, objectCallbacks, hreg]
  simp only [contentEquality, hreg, ObjectType.equality] at h
  cases hcopy : t.copy <;> cases hequals : t.equals <;> cases hcompare : t.compare <;>
    simp_all [ObjectRef.keying, objectCallbacks]

variable {equality : ObjectRef → ObjectRef → Bool}

lemma keying_of_content {o : ObjectRef} (h : contentEquality env o.typeId = some equality) :
    ∃ t, env.registry o.typeId = some t ∧ t.copy.isSome ∧ t.equality = some equality ∧
      o.keying env = ⟨t.equals, t.compare, t.hash, true⟩ := by
  rcases hreg : env.registry o.typeId with _ | t
  · simp [contentEquality, hreg] at h
  simp only [contentEquality, hreg, Option.ite_none_right_eq_some] at h
  refine ⟨t, rfl, h.1, h.2, ?_⟩
  have hequality : t.equals.isSome ∨ t.compare.isSome := by
    cases hequals : t.equals <;> cases hcompare : t.compare <;>
      simp_all [ObjectType.equality]
  simp [ObjectRef.keying, objectCallbacks, hreg, h.1, hequality]

lemma objectEq_of_ne (h : a.typeId ≠ b.typeId) : objectEq env a b = false := by
  simp [objectEq, ObjectRef.structuralEq, h]

lemma objectEq_of_identity (hty : a.typeId = b.typeId) (h : contentEquality env a.typeId = none) :
    objectEq env a b = (a.ptr == b.ptr) := by
  simp [objectEq, ObjectRef.structuralEq, keying_of_identity h, hty]

lemma objectEq_of_content (hty : a.typeId = b.typeId)
    (h : contentEquality env a.typeId = some equality) : objectEq env a b = equality a b := by
  rcases keying_of_content h with ⟨t, -, -, hequality, hkeying⟩
  simp only [objectEq, ObjectRef.structuralEq, hkeying, hty, bne_self_eq_false, Bool.false_eq_true,
    if_false]
  rw [ObjectType.equality] at hequality
  cases hequals : t.equals with
  | some equals =>
    rw [hequals] at hequality
    simp [← Option.some.inj hequality]
  | none => ?_
  rw [hequals] at hequality
  cases hcompare : t.compare with
  | none => simp [hcompare] at hequality
  | some cmp =>
    rw [hcompare] at hequality
    simp [← Option.some.inj hequality]

/-- Equal objects hash alike. -/
lemma object_coherent (hobj : LawfulObjects env) {ordered : Prop} (hno : ¬ ordered)
    {cmp : ObjectRef → ObjectRef → Ordering} :
    CoherentOn (fun _ => True) (objectEq env) (fun o => (o.typeId, o.structuralKey env)) cmp
      ordered := by
  refine CoherentOn.ofTag (fun o => o.typeId.toNat) ?_ (fun ho => absurd ho hno) ?_
  · intro a b hab
    by_contra hne
    rw [objectEq_of_ne (fun h => hne (congrArg UInt32.toNat h))] at hab
    exact absurd hab (by simp)
  intro a _
  have hty : ∀ {b : ObjectRef}, (True ∧ b.typeId.toNat = a.typeId.toNat) → b.typeId = a.typeId :=
    fun h => UInt32.toNat_inj.mp h.2
  cases hcontent : contentEquality env a.typeId with
  | none =>
    have hkey : CoherentOn (fun _ => True) (fun x y : ObjectRef => x.ptr == y.ptr)
        (fun o => o.ptr) cmp ordered :=
      ⟨HashableOn.ofKey (fun o => o.ptr) (fun _ _ => rfl) (fun _ _ h => h),
        fun ho => absurd ho hno⟩
    refine hkey.transport (fun o x => x = o ∧ o.typeId = a.typeId)
      (fun o ho => ⟨o, ⟨rfl, hty ho⟩, trivial⟩) ?_ ?_ ?_
    · rintro x y _ _ ⟨rfl, hx⟩ ⟨rfl, hy⟩
      exact objectEq_of_identity (hx.trans hy.symm) (hx ▸ hcontent)
    · rintro x y _ _ ⟨rfl, hx⟩ ⟨rfl, hy⟩ hptr
      simp [ObjectRef.structuralKey, keying_of_identity (hx ▸ hcontent : _ = none),
        keying_of_identity (hy ▸ hcontent : _ = none), hx, hy, hptr]
    · rintro x y _ _ ⟨rfl, -⟩ ⟨rfl, -⟩
      rfl
  | some equality => ?_
  rcases keying_of_content hcontent with ⟨t, hreg, hcopy, hequality, hkeying⟩
  rcases hobj a.typeId t hreg hcopy equality hequality with ⟨hequiv, hhash⟩
  have hfeed : CoherentOn (fun o => o.typeId = a.typeId) equality
      (fun o => (o.typeId, o.structuralKey env)) cmp ordered := by
    refine ⟨⟨hequiv, fun {x y} hx hy hxy => Prod.ext (hx.trans hy.symm) ?_⟩,
      fun ho => absurd ho hno⟩
    simp only [ObjectRef.structuralKey, keying_congr hx, keying_congr hy, hkeying]
    cases hh : t.hash with
    | some hash => exact hhash hash hh hx hy hxy
    | none => ?_
    have hdeclared : (t.equals.isSome || t.compare.isSome) = true := by
      rw [ObjectType.equality] at hequality
      cases hequals : t.equals <;> cases hcompare : t.compare <;>
        simp_all
    simp only [hdeclared, if_true]
  refine hfeed.transport (fun o x => x = o ∧ o.typeId = a.typeId)
    (fun o ho => ⟨o, ⟨rfl, hty ho⟩, hty ho⟩) ?_ ?_ ?_
  · rintro x y _ _ ⟨rfl, hx⟩ ⟨rfl, hy⟩
    exact objectEq_of_content (hx.trans hy.symm) (hx ▸ hcontent)
  · rintro x y _ _ ⟨rfl, -⟩ ⟨rfl, -⟩ hfeed
    exact hfeed
  · rintro x y _ _ ⟨rfl, -⟩ ⟨rfl, -⟩
    rfl

/-! ## Feeds of composite values -/

lemma hashOf_congr (s : RandomState) {v w : Value} (h : feed env v = feed env w) :
    hashOf env s v = hashOf env s w :=
  congrArg (env.sipHash s) h

lemma feedItems_eq (items : List Value) : feedItems env items = (items.map (feed env)).flatten := by
  induction items with
  | nil => rfl
  | cons v items ih => rw [feedItems, ih, map_cons, flatten_cons]

/-- What one entry adds to the hash of its map. -/
def entryHash (env : Runtime) (p : List Write × List Write) : UInt64 :=
  env.sipHash ⟨0, 0⟩ (p.1 ++ p.2)

lemma combineEntries_eq (entries : List (Value × Value)) (combined : UInt64) :
    combineEntries env entries combined = combined +
      (((entries.map (fun e => (feed env e.1, feed env e.2)) : Multiset _)).map
        (entryHash env)).sum := by
  induction entries generalizing combined with
  | nil => simp [combineEntries]
  | cons e entries ih =>
    rw [combineEntries, ih]
    simp [entryHash, add_assoc]

lemma combineItems_eq (items : List Value) (combined : UInt64) :
    combineItems env items combined = combined +
      ((items.map (feed env) : Multiset _).map (env.sipHash ⟨0, 0⟩)).sum := by
  induction items generalizing combined with
  | nil => simp [combineItems]
  | cons v items ih =>
    rw [combineItems, ih]
    simp [add_assoc]

variable (rec : Value → Value → Bool)

lemma eqWith_map (s t : RandomState) (a b : List (Value × Value)) :
    eqWith env rec (map s a) (map t b) =
      collectionEq (hashOf env t) rec Prod.fst (fun e e' => rec e.2 e'.2) a b := by
  simp [eqWith, collectionEq, mapGet, Option.any_map]

lemma eqWith_set (s t : RandomState) (a b : List Value) : eqWith env rec (set s a) (set t b) =
      collectionEq (hashOf env t) rec id (fun _ _ => true) a b := by
  have hany : ∀ o : Option Value, o.isSome = o.any (fun _ => true) := by
    intro o
    cases o <;> rfl
  simp only [eqWith, collectionEq, setContains, hany, id]

lemma entryEq_id : entryEq rec id (fun _ _ => true) = rec := by
  funext v w
  simp [entryEq]

/-! ## Equality, hash and order -/

lemma sameVariant_of_order (env : Runtime) {a b : Value}
    (h : b.variantOrder = a.variantOrder) : SameVariant a b := by
  rcases sameVariant_or env a b with hsame | ⟨hne, -⟩
  · exact hsame
  · exact absurd h.symm hne

lemma variantOrder_eq_of_eq {a b : Value} (h : eq env a b = true) :
    a.variantOrder = b.variantOrder := by
  rw [eq_unfold] at h
  rcases sameVariant_or env a b with hsame | ⟨-, hfalse, -⟩
  · cases hsame <;> rfl
  · rw [hfalse] at h
    exact absurd h (by simp)

/-- Values of bounded depth that satisfy a hereditary property. -/
def Below (p : Value → Prop) (n : Nat) (v : Value) : Prop :=
  Hereditary p v ∧ v.depth < n

lemma Below.child {p : Value → Prop} {n : Nat} {v c : Value} (h : Below p (n + 1) v)
    (hc : c ∈ v.children) : Below p n c := by
  refine ⟨h.1.inside hc, ?_⟩
  have := depth_lt_of_mem_children hc
  have := h.2
  omega

lemma Below.entries {p : Value → Prop} {n : Nat} {s : RandomState}
    {entries : List (Value × Value)} (h : Below p (n + 1) (map s entries)) :
    ∀ e ∈ entries, Below p n e.1 ∧ Below p n e.2 := fun _ he =>
  ⟨h.child (mem_children_map he).1, h.child (mem_children_map he).2⟩

section Coherence

variable {emitted : BoxedEnum → Prop} {p : Value → Prop} {ordered : Prop}

/-- The laws of a payload give the laws of the variant that holds it. -/
lemma coherent_variant {β G : Type} {P : Value → Prop} {Q : β → Prop} {eq' : β → β → Bool}
    {feed' : β → G} {cmp' : β → β → Ordering} (h : CoherentOn Q eq' feed' cmp' ordered)
    (mk : β → Value) (hmk : ∀ w, P w → ∃ x, w = mk x ∧ Q x)
    (hfeed : ∀ x y, feed' x = feed' y → feed env (mk x) = feed env (mk y))
    (heq : ∀ x y, eqWith env (eq env) (mk x) (mk y) = eq' x y := by exact fun _ _ => rfl)
    (hcmp : ∀ x y, cmpWith env (cmp env) (mk x) (mk y) = cmp' x y := by exact fun _ _ => rfl) :
    CoherentOn P (eq env) (feed env) (cmp env) ordered := by
  refine h.transport (fun w x => w = mk x) hmk ?_ ?_ ?_
  · rintro _ _ x y rfl rfl
    rw [eq_unfold, heq]
  · rintro _ _ x y rfl rfl hxy
    exact hfeed x y hxy
  · rintro _ _ x y rfl rfl
    rw [cmp_unfold, hcmp]

/-- A variant whose payload is ordered as data by a key that determines it. -/
lemma coherent_leaf {β K : Type} [DecidableEq K] [Ord K] [Std.TransOrd K] [Std.LawfulEqOrd K]
    {P : Value → Prop} (mk : β → Value) (key : β → K) (hkey : ∀ x y, key x = key y → x = y)
    (hmk : ∀ w, P w → ∃ x, w = mk x)
    (heq : ∀ x y, eqWith env (eq env) (mk x) (mk y) = true ↔ x = y := by simp [eqWith])
    (hcmp : ∀ x y, cmpWith env (cmp env) (mk x) (mk y) = compare (key x) (key y) := by
      exact fun _ _ => rfl) : CoherentOn P (eq env) (feed env) (cmp env) ordered := by
  have hdata : CoherentOn (fun _ : β => True) (fun x y => decide (key x = key y)) key
      (fun x y => compare (key x) (key y)) ordered :=
    ⟨HashableOn.ofKey key (fun _ _ => rfl) (fun _ _ h => h),
      fun _ => LawfulOn.ofKey key (fun _ _ => rfl) (fun _ _ => rfl)⟩
  refine coherent_variant hdata mk ?_ ?_ ?_ hcmp
  · intro w hw
    rcases hmk w hw with ⟨x, hx⟩
    exact ⟨x, hx, trivial⟩
  · intro x y hxy
    rw [hkey x y hxy]
  · intro x y
    rw [Bool.eq_iff_iff, heq, decide_eq_true_eq]
    exact ⟨congrArg key, hkey x y⟩

/-- The bytes of a string determine it. -/
lemma utf8_inj {s t : String} : s.toUTF8.data.toList = t.toUTF8.data.toList ↔ s = t := by
  rw [Array.toList_inj, ← ByteArray.ext_iff]
  exact String.toByteArray_inj

/-- One level of the induction: the laws for the parts give them for the whole. -/
lemma coherentOn_step (hrt : LawfulRuntime env emitted)
    (hp : ∀ v, p v → WellFormedHere env emitted v)
    (hobj : ∀ o, p (object o) → LawfulObjects env ∧ ¬ ordered) {n : Nat}
    (ih : CoherentOn (Below p n) (eq env) (feed env) (cmp env) ordered) :
    CoherentOn (Below p (n + 1)) (eq env) (feed env) (cmp env) ordered := by
  refine CoherentOn.ofTag variantOrder variantOrder_eq_of_eq ?_ ?_
  · intro _ a b hne
    rcases sameVariant_or env a b with hsame | ⟨-, -, hcmp⟩
    · cases hsame <;> exact absurd rfl hne
    · rw [cmp_unfold, hcmp]
  intro v hv
  have hsame := fun (w : Value)
    (hw : Below p (n + 1) w ∧ w.variantOrder = v.variantOrder) =>
    sameVariant_of_order env hw.2
  cases v with
  | unit =>
    refine coherent_leaf (fun _ : Unit => unit) (fun _ => false) (fun _ _ _ => rfl) (fun w hw => ?_)
    cases hsame w hw
    exact ⟨(), rfl⟩
  | bool b =>
    refine coherent_leaf bool id (fun _ _ => id) (fun w hw => ?_)
    cases hsame w hw
    exact ⟨_, rfl⟩
  | int i =>
    refine coherent_leaf int id (fun _ _ => id) (fun w hw => ?_)
    cases hsame w hw
    exact ⟨_, rfl⟩
  | string s =>
    refine coherent_leaf string (fun s => s.toUTF8.data.toList) (fun _ _ => utf8_inj.mp)
      (fun w hw => ?_)
    cases hsame w hw
    exact ⟨_, rfl⟩
  | bytes data =>
    refine coherent_leaf bytes id (fun _ _ => id) (fun w hw => ?_)
    cases hsame w hw
    exact ⟨_, rfl⟩
  | opaqueBytes data =>
    refine coherent_leaf opaqueBytes id (fun _ _ => id) (fun w hw => ?_)
    cases hsame w hw
    exact ⟨_, rfl⟩
  | float bits =>
    refine coherent_variant ⟨hrt.float_eq, fun _ => floatCmp_lawful hrt⟩ float (fun w hw => ?_) ?_
    · cases hsame w hw
      exact ⟨_, rfl, trivial⟩
    · intro x y hxy
      simp [feed, hxy]
  | object o =>
    rcases hobj o hv.1.here with ⟨hlawful, hno⟩
    refine coherent_variant (object_coherent hlawful hno) object (fun w hw => ?_) ?_
    · cases hsame w hw
      exact ⟨_, rfl, trivial⟩
    · intro x y hxy
      simp_all [feed]
  | boxedEnum e =>
    refine coherent_variant (boxedEnum_coherent hrt) boxedEnum (fun w hw => ?_) ?_
    · cases hsame w hw
      exact ⟨_, rfl, hp _ hw.1.1.here⟩
    · intro x y hxy
      simp [feed, hxy]
  | list items =>
    refine coherent_variant ih.list list (fun w hw => ?_) ?_
    · cases hsame w hw
      exact ⟨_, rfl, fun c hc => hw.1.child hc⟩
    · intro x y hxy
      have hlen : x.length = y.length := by simpa using congrArg List.length hxy
      rw [feed, feed, feedItems_eq, feedItems_eq, hxy, hlen]
  | tuple a b =>
    refine coherent_variant (ih.prod ih) (fun p => tuple p.1 p.2) (fun w hw => ?_) ?_
    · cases hsame w hw
      exact ⟨(_, _), rfl, hw.1.child (by simp [children]), hw.1.child (by simp [children])⟩
    · intro x y hxy
      simp_all [feed]
  | optional value =>
    refine coherent_variant ih.option optional (fun w hw => ?_) ?_
    · cases hsame w hw
      exact ⟨_, rfl, fun c hc => hw.1.child hc⟩
    · intro x y hxy
      cases x <;> cases y <;> simp_all [feed]
  | result value =>
    refine coherent_variant ih.except result (fun w hw => ?_) ?_
    · cases hsame w hw with
      | result a b =>
        refine ⟨b, rfl, hw.1.child ?_⟩
        cases b <;> simp [children, sided]
    · intro x y hxy
      cases x <;> cases y <;> simp_all [feed, sided]
  | map s entries =>
    have hentry := ih.prod ih
    refine coherent_variant (ih.collection (fun he => he.1) hashOf_congr hentry)
      (fun c : RandomState × List (Value × Value) => map c.1 c.2) (fun w hw => ?_) ?_ ?_
    · cases hsame w hw with
      | map _ _ t b => exact ⟨(t, b), rfl, hw.1.entries, hp _ hw.1.1.here⟩
    · rintro ⟨s, a⟩ ⟨t, b⟩ hxy
      simp only [Prod.mk.injEq] at hxy
      rw [feed, feed, combineEntries_eq, combineEntries_eq, hxy.1, hxy.2]
    · rintro ⟨s, a⟩ ⟨t, b⟩
      exact eqWith_map (eq env) s t a b
  | set s items => ?_
  have hentry := ih
  rw [← entryEq_id (eq env)] at hentry
  refine coherent_variant (ih.collection (fun he => he) hashOf_congr hentry)
    (fun c : RandomState × List Value => set c.1 c.2) (fun w hw => ?_) ?_ ?_
  · cases hsame w hw with
    | set _ _ t b => exact ⟨(t, b), rfl, fun c hc => hw.1.child hc, hp _ hw.1.1.here⟩
  · rintro ⟨s, a⟩ ⟨t, b⟩ hxy
    simp only [Prod.mk.injEq] at hxy
    rw [feed, feed, combineItems_eq, combineItems_eq, hxy.1, hxy.2]
  · rintro ⟨s, a⟩ ⟨t, b⟩
    exact eqWith_set (eq env) s t a b

/-- Equality of well-formed values is an equivalence that hashing respects. -/
theorem hashableOn (hrt : LawfulRuntime env emitted) (hp : ∀ v, p v → WellFormedHere env emitted v)
    (hobj : ∀ o, p (object o) → LawfulObjects env) :
    HashableOn (Hereditary p) (eq env) (feed env) :=
  (CoherentOn.ofMeasure depth fun _ =>
    coherentOn_step hrt hp (fun o ho => ⟨hobj o ho, not_false⟩)).toHashableOn

/-- A property of well-formed values without objects. -/
def OrderedHere (env : Runtime) (emitted : BoxedEnum → Prop) (v : Value) : Prop :=
  WellFormedHere env emitted v ∧ v.isObject = false

/-- The order of well-formed values without objects is total. -/
theorem lawfulOn (hrt : LawfulRuntime env emitted) :
    LawfulOn (Hereditary (OrderedHere env emitted)) (eq env) (cmp env) :=
  (CoherentOn.ofMeasure depth fun _ => coherentOn_step hrt (fun _ h => h.1)
    (fun _ h => absurd h.2 (by simp [isObject]))).lawful trivial

variable (hk : HashableOn (Hereditary p) (eq env) (feed env))
    (hp : ∀ v, p v → WellFormedHere env emitted v) {s t : RandomState}

include hk hp

/-- Equality of maps is a matching of their entries. -/
lemma eq_map_iff {a b : List (Value × Value)} (ha : Hereditary p (map s a)) (hb : Hereditary p (map t b)) :
    eq env (map s a) (map t b) = true ↔ a.length = b.length ∧
      ∀ e ∈ a, ∃ e' ∈ b, eq env e.1 e'.1 = true ∧ eq env e.2 e'.2 = true := by
  have hc : CoherentOn (Hereditary p) (eq env) (feed env) (cmp env) False := ⟨hk, False.elim⟩
  have hentry : HashableOn (fun e : Value × Value => Hereditary p e.1 ∧ Hereditary p e.2)
      (entryEq (eq env) Prod.fst (fun e e' => eq env e.2 e'.2))
      (fun e => (feed env e.1, feed env e.2)) := (hc.prod hc).toHashableOn
  have hcollection : collectionEq (hashOf env t) (eq env) Prod.fst
      (fun e e' => eq env e.2 e'.2) a b = true ↔ _ :=
    collectionEq_iff hk (fun he => he.1) hashOf_congr hentry
      ⟨fun e he => ha.entry he, hp _ ha.here⟩ ⟨fun e he => hb.entry he, hp _ hb.here⟩ t
  rw [eq_unfold, eqWith_map]
  simpa only [entryEq, Bool.and_eq_true] using hcollection

/-- Equality of sets is a matching of their members. -/
lemma eq_set_iff {a b : List Value} (ha : Hereditary p (set s a)) (hb : Hereditary p (set t b)) :
    eq env (set s a) (set t b) = true ↔ a.length = b.length ∧
      ∀ v ∈ a, ∃ v' ∈ b, eq env v v' = true := by
  have hk' := hk
  rw [← entryEq_id (eq env)] at hk'
  have hcollection := collectionEq_iff (a := a) (b := b) hk
    (fun he => (he : Hereditary p (id _))) hashOf_congr hk'
    ⟨fun e he => ha.inside he, hp _ ha.here⟩ ⟨fun e he => hb.inside he, hp _ hb.here⟩ t
  rw [eq_unfold, eqWith_set, hcollection, entryEq_id]

end Coherence

/-! ## Insertion order -/

/-- The same value up to the insertion order of the maps and sets inside it. -/
inductive Reordered : Value → Value → Prop
  | refl (v : Value) : Reordered v v
  | list {a b : List Value} (hlen : a.length = b.length)
      (items : ∀ p ∈ a.zip b, Reordered p.1 p.2) : Reordered (list a) (list b)
  | map {s t : RandomState} {a b c : List (Value × Value)} (hlen : a.length = b.length)
      (keys : ∀ p ∈ a.zip b, Reordered p.1.1 p.2.1)
      (values : ∀ p ∈ a.zip b, Reordered p.1.2 p.2.2) (hperm : b.Perm c) :
      Reordered (map s a) (map t c)
  | set {s t : RandomState} {a b c : List Value} (hlen : a.length = b.length)
      (items : ∀ p ∈ a.zip b, Reordered p.1 p.2) (hperm : b.Perm c) :
      Reordered (set s a) (set t c)
  | tuple {a a' b b' : Value} (fst : Reordered a b) (snd : Reordered a' b') :
      Reordered (tuple a a') (tuple b b')
  | optional {a b : Value} (inner : Reordered a b) :
      Reordered (optional (some a)) (optional (some b))
  | ok {a b : Value} (inner : Reordered a b) : Reordered (result (.ok a)) (result (.ok b))
  | error {a b : Value} (inner : Reordered a b) : Reordered (result (.error a)) (result (.error b))

lemma exists_partner {γ : Type} {a b c : List γ} (hlen : a.length = b.length)
    (hperm : b.Perm c) {e : γ} (he : e ∈ a) : ∃ e' ∈ c, (e, e') ∈ a.zip b := by
  have hzip : List.Forall₂ (fun x y => (x, y) ∈ a.zip b) a b :=
    forall₂_iff_zip.mpr ⟨hlen, fun h => h⟩
  rcases exists_of_forall₂ hzip he with ⟨e', he', hmem⟩
  exact ⟨e', hperm.mem_iff.mp he', hmem⟩

/-- Reordering the collections inside a value gives an equal value. -/
lemma Reordered.eq {emitted : BoxedEnum → Prop} {p : Value → Prop}
    (hk : HashableOn (Hereditary p) (Value.eq env) (feed env))
    (hp : ∀ v, p v → WellFormedHere env emitted v) {a b : Value} (h : Reordered a b)
    (ha : Hereditary p a) (hb : Hereditary p b) : Value.eq env a b = true := by
  induction h with
  | refl v => exact hk.refl ha
  | @list a b hlen items ih =>
    rw [eq_unfold]
    refine listEq_iff.mpr (forall₂_iff_zip.mpr ⟨hlen, fun {x y} hxy => ?_⟩)
    exact ih (x, y) hxy (ha.inside (of_mem_zip hxy).1) (hb.inside (of_mem_zip hxy).2)
  | @map s t a b c hlen keys values hperm ihk ihv =>
    refine (eq_map_iff hk hp ha hb).mpr ⟨hlen.trans hperm.length_eq, fun e he => ?_⟩
    rcases exists_partner hlen hperm he with ⟨e', he', hmem⟩
    exact ⟨e', he', ihk (e, e') hmem (ha.entry he).1 (hb.entry he').1,
      ihv (e, e') hmem (ha.entry he).2 (hb.entry he').2⟩
  | @set s t a b c hlen items hperm ih =>
    refine (eq_set_iff hk hp ha hb).mpr ⟨hlen.trans hperm.length_eq, fun e he => ?_⟩
    rcases exists_partner hlen hperm he with ⟨e', he', hmem⟩
    exact ⟨e', he', ih (e, e') hmem (ha.inside he) (hb.inside he')⟩
  | tuple _ _ ih ih' =>
    rw [eq_unfold]
    simp [eqWith, ih (ha.inside (by simp [children])) (hb.inside (by simp [children])),
      ih' (ha.inside (by simp [children])) (hb.inside (by simp [children]))]
  | optional _ ih | ok _ ih | error _ ih =>
    rw [eq_unfold]
    exact ih (ha.inside (by simp [children])) (hb.inside (by simp [children]))

lemma Hereditary.and {p q : Value → Prop} (h : Hereditary p v) (h' : Hereditary q v) :
    Hereditary (fun w => p w ∧ q w) v := by
  induction h with
  | intro here _ ih => exact ⟨⟨here, h'.here⟩, fun c hc => ih c hc (h'.inside hc)⟩

end Value

open Value

/-- The order of values without objects is total, its ties are the equal values,
equal values feed the hasher identically, and insertion order never matters. -/
theorem value_cmp_total_order {emitted : BoxedEnum → Prop} (hrt : LawfulRuntime env emitted)
    {a b c : Value}
    (ha : a.WellFormed env emitted) (hb : b.WellFormed env emitted) (hc : c.WellFormed env emitted)
    (ha' : a.ObjectFree) (hb' : b.ObjectFree) (hc' : c.ObjectFree) : a.cmp env a = .eq ∧
    a.cmp env b = (b.cmp env a).swap ∧ ((a.cmp env b).isLE ∨ (b.cmp env a).isLE) ∧
    ((a.cmp env b).isLE → (b.cmp env a).isLE → a.eq env b = true) ∧
    ((a.cmp env b).isLE → (b.cmp env c).isLE → (a.cmp env c).isLE) ∧
    (a.cmp env b = .eq ↔ a.eq env b = true) ∧ (a.eq env b = true → a.feed env = b.feed env) ∧
    (Reordered a b → a.eq env b = true ∧ a.cmp env b = .eq ∧ a.feed env = b.feed env) := by
  have hA : Hereditary (OrderedHere env emitted) a := ha.and ha'
  have hB : Hereditary (OrderedHere env emitted) b := hb.and hb'
  have hC : Hereditary (OrderedHere env emitted) c := hc.and hc'
  have hk : HashableOn (Hereditary (OrderedHere env emitted)) (Value.eq env) (feed env) :=
    hashableOn hrt (fun _ h => h.1) (fun _ h => absurd h.2 (by simp [isObject]))
  have hord := lawfulOn hrt
  have hswap := hord.swap hA hB
  refine ⟨hord.refl hA, hswap, ?_, ?_, hord.trans hA hB hC, hord.eq_iff hA hB, hk.feed_eq hA hB, ?_⟩
  · rw [hswap]
    cases b.cmp env a <;> simp
  · intro hab hba
    rw [← hord.eq_iff hA hB]
    cases hcase : b.cmp env a <;> simp_all
  · intro hreordered
    have heq := hreordered.eq hk (fun _ h => h.1) hA hB
    exact ⟨heq, (hord.eq_iff hA hB).mpr heq, hk.feed_eq hA hB heq⟩

/-! ## A concrete runtime -/

/-- Position of a float in its total order: zeros together, NaNs last. -/
def orderedFloatKey (bits : UInt64) : Int :=
  let magnitude : Nat := bits.toNat % 2 ^ 63
  if 0x7ff0000000000000 < magnitude then 2 ^ 63
  else if bits.toNat < 2 ^ 63 then magnitude
  else -magnitude

/-- The bits that are hashed for a position. -/
def canonicalBits (key : Int) : UInt64 :=
  if key = 2 ^ 63 then 0x7ff8000000000000
  else if 0 ≤ key then UInt64.ofNat key.toNat
  else UInt64.ofNat (2 ^ 63 + (-key).toNat)

/-- A number for each hasher write. -/
def Write.code : Write → UInt64
  | u8 x => x.toUInt64
  | u32 x => x.toUInt64
  | u64 x => x
  | i64 x => x.toUInt64
  | usize n => UInt64.ofNat n
  | isize n => UInt64.ofNat n.toNat
  | bytes data => data.foldl (fun h x => h * 257 + x.toUInt64) 1
  | str s => s.toUTF8.data.toList.foldl (fun h x => h * 257 + x.toUInt64) 2

/-- A runtime with a polynomial hash and enums compared as bytes. -/
def sampleRuntime (registry : UInt32 → Option ObjectType) : Runtime where
  floatEq a b := decide (orderedFloatKey a = orderedFloatKey b)
  floatPartialCmp a b := some (compare (orderedFloatKey a) (orderedFloatKey b))
  floatHash bits := [.u64 (canonicalBits (orderedFloatKey bits))]
  sipHash s writes := writes.foldl (fun h w => h * 31 + w.code) (s.k0 + 3 * s.k1)
  cmpGlue _ a b :=
    match compare a b with
    | .lt => -1
    | .eq => 0
    | .gt => 1
  hashGlue _ data := (Write.bytes data).code
  cloneGlue _ data := data
  registry := registry

lemma sampleRuntime_lawful (registry : UInt32 → Option ObjectType) :
    LawfulRuntime (sampleRuntime registry) (fun _ => True) where
  float_eq := HashableOn.ofKey orderedFloatKey (fun _ _ => rfl)
    (fun a b h => by simp [sampleRuntime, h])
  float_cmp := ⟨fun a b => compare (orderedFloatKey a) (orderedFloatKey b), fun _ _ => rfl,
    LawfulOn.ofKey orderedFloatKey (fun _ _ => rfl) (fun _ _ => rfl)⟩
  enum_cmp := by
    intro glue
    refine LawfulOn.ofKey BoxedEnum.data (fun a b => ?_) (fun a b => ?_)
    · have hdata : compare a.data b.data = .eq ↔ a.data = b.data :=
        Std.LawfulEqCmp.compare_eq_iff_eq
      rw [Bool.eq_iff_iff, decide_eq_true_eq, ← hdata]
      cases hcmp : compare a.data b.data <;> simp only [sampleRuntime, hcmp] <;> decide
    · cases hcmp : compare a.data b.data <;> simp only [sampleRuntime, hcmp] <;> rfl
  enum_hash := by
    intro a b _ _ _ hcmp
    have hdata : compare a.data b.data = .eq := by
      cases hcase : compare a.data b.data <;> simp [sampleRuntime, hcase] at hcmp ⊢
    rw [Std.LawfulEqCmp.compare_eq_iff_eq] at hdata
    simp [BoxedEnum.hashValue, sampleRuntime, hdata]

/-- Two maps with a nested set, filled in different orders. -/
theorem value_cmp_total_order_reordered :
    let env := sampleRuntime (fun _ => none)
    let a := Value.map ⟨1, 2⟩ [(int 1, set ⟨3, 4⟩ [int 2, int 3]), (string "k", float 0)]
    let b := Value.map ⟨5, 6⟩ [(string "k", float 0), (int 1, set ⟨7, 8⟩ [int 3, int 2])]
    a.eq env b = true ∧ a.cmp env b = .eq ∧ a.feed env = b.feed env := by
  intro env a b
  have hset : Reordered (set ⟨3, 4⟩ [int 2, int 3]) (set ⟨7, 8⟩ [int 3, int 2]) :=
    .set (b := [int 2, int 3]) rfl
      (by
        simp only [zip_cons_cons, zip_nil_right, forall_mem_cons]
        exact ⟨.refl _, .refl _, by simp⟩)
      (List.Perm.swap _ _ _)
  have hreordered : Reordered a b := by
    refine .map (b := [(int 1, set ⟨7, 8⟩ [int 3, int 2]), (string "k", float 0)]) rfl ?_ ?_
      (List.Perm.swap _ _ _)
    · simp only [zip_cons_cons, zip_nil_right, forall_mem_cons]
      exact ⟨.refl _, .refl _, by simp⟩
    · simp only [zip_cons_cons, zip_nil_right, forall_mem_cons]
      exact ⟨hset, .refl _, by simp⟩
  have hlaws := value_cmp_total_order (sampleRuntime_lawful (fun _ => none)) (a := a) (b := b)
    (c := b) (by decide) (by decide) (by decide) (by decide) (by decide) (by decide)
  exact hlaws.2.2.2.2.2.2.2 hreordered

end MuxRuntime
