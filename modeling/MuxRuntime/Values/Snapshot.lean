import MuxRuntime.Values.Lawful

/-!
# Snapshots of keys

Inserting into a map or set stores a snapshot of the key: a recursive copy in
which every object is replaced by what its type's copy callback produces. This
module embeds cloning, copying and the collection operations built on them, and
describes a snapshot relative to its original.
-/

namespace MuxRuntime

open List Comparison

variable (env : Runtime)

/-- Allocation state: the next unused address and the keys of the next hasher. -/
structure Heap where
  next : Nat
  hasher : RandomState

/-- Keys for a new collection; consecutive hashers differ in their first key. -/
def Heap.newHasher (h : Heap) : RandomState × Heap :=
  (h.hasher, { h with hasher := { h.hasher with k0 := h.hasher.k0 + 1 } })

/-- Storage for an object; fails for unknown types and impossible layouts. -/
def allocObject (h : Heap) (typeId : UInt32) : Option ObjectRef × Heap :=
  match env.registry typeId with
  | none => (none, h)
  | some objType =>
    if objType.size < 2 ^ 63 then
      (some { ptr := h.next, typeId := typeId, data := [] }, { h with next := h.next + 1 })
    else (none, h)

/-- Copy an object: shared types hand out the same object, other types use
their copy callback on fresh storage. -/
def copyObject (h : Heap) (src : ObjectRef) : Option ObjectRef × Heap :=
  match env.registry src.typeId with
  | none => (none, h)
  | some objType =>
    if objType.shared then (some src, h)
    else
      match objType.copy with
      | none => (none, h)
      | some copyFn =>
        match allocObject env h src.typeId with
        | (none, h) => (none, h)
        | (some dest, h) => (some { dest with data := copyFn src.data }, h)

/-- Clone a boxed enum: copy the bytes, then run the clone glue on them. -/
def BoxedEnum.clone (e : BoxedEnum) : BoxedEnum :=
  { e with data := env.cloneGlue e.cloneGlue e.data }

namespace Value

/-! ## Cloning -/

mutual

/-- `Clone` for values: objects share their data, everything else is copied. -/
def clone : Value → Value
  | list items => list (cloneItems items)
  | map s entries => map s (cloneEntries entries)
  | set s items => set s (cloneItems items)
  | tuple a b => tuple a.clone b.clone
  | optional none => optional none
  | optional (some v) => optional (some v.clone)
  | result (.ok v) => result (.ok v.clone)
  | result (.error e) => result (.error e.clone)
  | boxedEnum e => boxedEnum (e.clone env)
  | v => v

def cloneItems : List Value → List Value
  | [] => []
  | v :: items => v.clone :: cloneItems items

def cloneEntries : List (Value × Value) → List (Value × Value)
  | [] => []
  | (k, v) :: entries => (k.clone, v.clone) :: cloneEntries entries

end

/-! ## Inserting into collections -/

/-- Whether a lookup for `k` stops at the stored key. -/
def keyMatches (s : RandomState) (stored k : Value) : Bool :=
  hashOf env s stored == hashOf env s k && eq env stored k

/-- Insert into a map: a present key keeps its place and gets the new value. -/
def mapInsert (s : RandomState) : List (Value × Value) → Value → Value → List (Value × Value)
  | [], k, v => [(k, v)]
  | e :: entries, k, v =>
    if keyMatches env s e.1 k then (e.1, v) :: entries
    else e :: mapInsert s entries k v

/-- Insert into a set: a present member stays as it is. -/
def setInsert (s : RandomState) : List Value → Value → List Value
  | [], v => [v]
  | w :: items, v => if keyMatches env s w v then w :: items else w :: setInsert s items v

/-! ## Snapshots -/

mutual

/-- `deep_clone_value`: copies every object inside a value. -/
def deepClone : Value → Heap → Value × Heap
  | list items, h =>
    let (out, h) := deepCloneItems items h
    (list out, h)
  | map _ entries, h =>
    let (s, h) := h.newHasher
    let (out, h) := deepCloneEntries s entries [] h
    (map s out, h)
  | set _ items, h =>
    let (s, h) := h.newHasher
    let (out, h) := deepCloneMembers s items [] h
    (set s out, h)
  | tuple a b, h =>
    let (a', h) := deepClone a h
    let (b', h) := deepClone b h
    (tuple a' b', h)
  | optional none, h => (optional none, h)
  | optional (some v), h =>
    let (v', h) := deepClone v h
    (optional (some v'), h)
  | result (.ok v), h =>
    let (v', h) := deepClone v h
    (result (.ok v'), h)
  | result (.error e), h =>
    let (e', h) := deepClone e h
    (result (.error e'), h)
  | object o, h =>
    match copyObject env h o with
    | (none, h) => (object o, h)
    | (some copied, h) => (object copied, h)
  | boxedEnum e, h => (boxedEnum (e.clone env), h)
  | v, h => (v, h)

/-- The loop over the elements of a list. -/
def deepCloneItems : List Value → Heap → List Value × Heap
  | [], h => ([], h)
  | v :: items, h =>
    let (v', h) := deepClone v h
    let (out, h) := deepCloneItems items h
    (v' :: out, h)

/-- The loop that fills the copy of a map. -/
def deepCloneEntries (s : RandomState) :
    List (Value × Value) → List (Value × Value) → Heap → List (Value × Value) × Heap
  | [], out, h => (out, h)
  | (k, v) :: entries, out, h =>
    let (k', h) := deepClone k h
    let (v', h) := deepClone v h
    deepCloneEntries s entries (mapInsert env s out k' v') h

/-- The loop that fills the copy of a set. -/
def deepCloneMembers (s : RandomState) : List Value → List Value → Heap → List Value × Heap
  | [], out, h => (out, h)
  | v :: items, out, h =>
    let (v', h) := deepClone v h
    deepCloneMembers s items (setInsert env s out v') h

end

/-- The snapshot of a value about to become a key. -/
def snapshotKey (v : Value) (h : Heap) : Value × Heap :=
  deepClone env v h

/-! ## Values built in parallel -/

/-- Two composite values of the same shape whose parts are related by `R`. -/
inductive Parallel (R : Value → Value → Prop) : Value → Value → Prop
  | list {a b : List Value} (h : List.Forall₂ R a b) : Parallel R (list a) (list b)
  | map (s t : RandomState) {a b : List (Value × Value)}
      (h : List.Forall₂ (fun e e' => R e.1 e'.1 ∧ R e.2 e'.2) a b) :
      Parallel R (map s a) (map t b)
  | set (s t : RandomState) {a b : List Value} (h : List.Forall₂ R a b) :
      Parallel R (set s a) (set t b)
  | tuple {a a' b b' : Value} (h : R a b) (h' : R a' b') : Parallel R (tuple a a') (tuple b b')
  | optional {a b : Value} (h : R a b) : Parallel R (optional (some a)) (optional (some b))
  | ok {a b : Value} (h : R a b) : Parallel R (result (.ok a)) (result (.ok b))
  | error {a b : Value} (h : R a b) : Parallel R (result (.error a)) (result (.error b))

variable {R : Value → Value → Prop} {v v' : Value}

lemma Parallel.flip (h : Parallel R v v') : Parallel (fun a b => R b a) v' v := by
  cases h with
  | list h => exact .list h.flip
  | map s t h => exact .map t s h.flip
  | set s t h => exact .set t s h.flip
  | tuple h h' => exact .tuple h h'
  | optional h => exact .optional h
  | ok h => exact .ok h
  | error h => exact .error h

lemma Parallel.mono {R' : Value → Value → Prop} (hR : ∀ a b, R a b → R' a b)
    (h : Parallel R v v') : Parallel R' v v' := by
  cases h with
  | list h => exact .list (h.imp hR)
  | map s t h => exact .map s t (h.imp (fun _ _ he => ⟨hR _ _ he.1, hR _ _ he.2⟩))
  | set s t h => exact .set s t (h.imp hR)
  | tuple h h' => exact .tuple (hR _ _ h) (hR _ _ h')
  | optional h => exact .optional (hR _ _ h)
  | ok h => exact .ok (hR _ _ h)
  | error h => exact .error (hR _ _ h)

/-- The related parts are parts of the first value. -/
lemma Parallel.with_mem (h : Parallel R v v') :
    Parallel (fun c c' => c ∈ v.children ∧ R c c') v v' := by
  have hmem : ∀ {γ : Type} {S : γ → γ → Prop} {l l' : List γ}, List.Forall₂ S l l' →
      List.Forall₂ (fun a b => a ∈ l ∧ S a b) l l' := by
    intro γ S l l' hl
    rw [forall₂_iff_zip] at hl ⊢
    exact ⟨hl.1, fun hab => ⟨(of_mem_zip hab).1, hl.2 hab⟩⟩
  cases h with
  | list h => exact .list (hmem h)
  | map s t h =>
    refine .map s t ((hmem h).imp (fun e e' he => ?_))
    exact ⟨⟨(mem_children_map he.1).1, he.2.1⟩, (mem_children_map he.1).2, he.2.2⟩
  | set s t h => exact .set s t (hmem h)
  | tuple h h' => exact .tuple ⟨by simp [children], h⟩ ⟨by simp [children], h'⟩
  | optional h => exact .optional ⟨by simp [children], h⟩
  | ok h => exact .ok ⟨by simp [children], h⟩
  | error h => exact .error ⟨by simp [children], h⟩

/-- Every part of the one value has a related part in the other. -/
lemma Parallel.exists_child (h : Parallel R v v') {c : Value} (hc : c ∈ v.children) :
    ∃ c' ∈ v'.children, R c c' := by
  cases h with
  | list h | set s t h => exact exists_of_forall₂ h hc
  | @map s t a b h =>
    simp only [children, mem_append, mem_map] at hc
    rcases hc with ⟨e, he, rfl⟩ | ⟨e, he, rfl⟩
    · rcases exists_of_forall₂ h he with ⟨e', he', hR⟩
      exact ⟨e'.1, (mem_children_map he').1, hR.1⟩
    · rcases exists_of_forall₂ h he with ⟨e', he', hR⟩
      exact ⟨e'.2, (mem_children_map he').2, hR.2⟩
  | tuple h h' =>
    simp only [children, mem_cons, not_mem_nil, or_false] at hc ⊢
    rcases hc with rfl | rfl
    · exact ⟨_, Or.inl rfl, h⟩
    · exact ⟨_, Or.inr rfl, h'⟩
  | optional h =>
    simp only [children, Option.toList_some, mem_singleton] at hc ⊢
    exact ⟨_, rfl, hc ▸ h⟩
  | ok h | error h =>
    simp only [children, mem_singleton] at hc ⊢
    exact ⟨_, rfl, hc ▸ h⟩

lemma Parallel.isObject (h : Parallel R v v') : v.isObject = false ∧ v'.isObject = false := by
  cases h <;> exact ⟨rfl, rfl⟩

variable {w : Value}

section Laws

variable {env} {emitted : BoxedEnum → Prop}
  (hk : HashableOn (WellFormed env emitted) (eq env) (feed env))

include hk

/-- Values with equal parts are equal. -/
lemma Parallel.eq (h : Parallel (fun a b => Value.eq env a b = true) v v')
    (hv : v.WellFormed env emitted) (hv' : v'.WellFormed env emitted) :
    Value.eq env v v' = true := by
  cases h with
  | list h =>
    rw [eq_unfold]
    exact listEq_iff.mpr h
  | map s t h =>
    refine (eq_map_iff hk (fun _ h => h) hv hv').mpr ⟨h.length_eq, fun e he => ?_⟩
    exact exists_of_forall₂ h he
  | set s t h =>
    refine (eq_set_iff hk (fun _ h => h) hv hv').mpr ⟨h.length_eq, fun e he => ?_⟩
    exact exists_of_forall₂ h he
  | tuple h h' =>
    rw [eq_unfold]
    simp [eqWith, h, h']
  | optional h | ok h | error h =>
    rw [eq_unfold]
    exact h

/-- Equal values have equal parts. -/
lemma exists_eq_child (hv : v.WellFormed env emitted) (hw : w.WellFormed env emitted)
    (h : Value.eq env v w = true) {c : Value} (hc : c ∈ v.children) :
    ∃ d ∈ w.children, Value.eq env c d = true := by
  rcases sameVariant_or env v w with hsame | ⟨-, hfalse, -⟩
  swap
  · rw [eq_unfold, hfalse] at h
    exact absurd h (by simp)
  cases hsame with
  | list a b =>
    rw [eq_unfold] at h
    exact exists_of_forall₂ (listEq_iff.mp h) hc
  | map s a t b =>
    rw [eq_map_iff hk (fun _ h => h) hv hw] at h
    simp only [children, mem_append, mem_map] at hc
    rcases hc with ⟨e, he, rfl⟩ | ⟨e, he, rfl⟩
    · rcases h.2 e he with ⟨e', he', hkey, -⟩
      exact ⟨e'.1, (mem_children_map he').1, hkey⟩
    · rcases h.2 e he with ⟨e', he', -, hvalue⟩
      exact ⟨e'.2, (mem_children_map he').2, hvalue⟩
  | set s a t b =>
    rw [eq_set_iff hk (fun _ h => h) hv hw] at h
    exact h.2 c hc
  | tuple a a' b b' =>
    rw [eq_unfold] at h
    simp only [eqWith, Bool.and_eq_true] at h
    simp only [children, mem_cons, not_mem_nil, or_false] at hc ⊢
    rcases hc with rfl | rfl
    · exact ⟨_, Or.inl rfl, h.1⟩
    · exact ⟨_, Or.inr rfl, h.2⟩
  | optional a b =>
    rw [eq_unfold] at h
    cases a <;> cases b <;> simp_all [eqWith, optionEq, children]
  | result a b =>
    rw [eq_unfold] at h
    cases a <;> cases b <;> simp_all [eqWith, exceptEq, children]
  | _ => simp [children] at hc

end Laws

/-! ## Clones -/

lemma cloneItems_eq (items : List Value) : cloneItems env items = items.map (clone env) := by
  induction items with
  | nil => rfl
  | cons v items ih => rw [cloneItems, ih, map_cons]

lemma cloneEntries_eq (entries : List (Value × Value)) :
    cloneEntries env entries = entries.map (fun e => (clone env e.1, clone env e.2)) := by
  induction entries with
  | nil => rfl
  | cons e entries ih => rw [cloneEntries, ih, map_cons]

/-- Cloning glue makes an equal enum, and an object's copy callback makes an
instance that the type's own equality accepts. -/
structure LawfulCopies (env : Runtime) (emitted : BoxedEnum → Prop) : Prop where
  enum_clone : ∀ e, emitted e → emitted (e.clone env) ∧ (e.clone env).compare env e = .eq
  object_copy : ∀ typeId t, env.registry typeId = some t → ∀ copy, t.copy = some copy →
    ∀ equality, t.equality = some equality → ∀ o : ObjectRef, o.typeId = typeId → ∀ ptr,
      equality ⟨ptr, typeId, copy o.data⟩ o = true

section Clones

variable {env} {emitted : BoxedEnum → Prop}
  (hk : HashableOn (WellFormed env emitted) (eq env) (feed env))
  (hcopies : LawfulCopies env emitted)

include hk hcopies

/-- A clone is well formed and equal to its original. -/
theorem clone_eq (hv : v.WellFormed env emitted) :
    (v.clone env).WellFormed env emitted ∧ Value.eq env (v.clone env) v = true := by
  induction v using child_induction with
  | h v ih => ?_
  have hpart : ∀ c ∈ v.children,
      (c.clone env).WellFormed env emitted ∧ Value.eq env (c.clone env) c = true :=
    fun c hc => ih c hc (hv.inside hc)
  -- equality between clones is equality between the originals
  have hreflect : ∀ c ∈ v.children, ∀ d ∈ v.children, Value.eq env c d = false →
      Value.eq env (c.clone env) (d.clone env) = false := by
    intro c hc d hd hcd
    cases hclones : Value.eq env (c.clone env) (d.clone env) with
    | false => rfl
    | true => ?_
    have hc' := hpart c hc
    have hd' := hpart d hd
    have hleft := hk.symm hc'.1 (hv.inside hc) hc'.2
    have hmid := hk.trans (hv.inside hc) hc'.1 hd'.1 hleft hclones
    rw [hk.trans (hv.inside hc) hd'.1 (hv.inside hd) hmid hd'.2] at hcd
    exact hcd
  have hparallel : ∀ {w : Value}, Parallel (fun c' c => c ∈ v.children ∧ c' = c.clone env) w v →
      WellFormedHere env emitted w →
      w.WellFormed env emitted ∧ Value.eq env w v = true := by
    intro w hw hhere
    have hwf : w.WellFormed env emitted := by
      refine ⟨hhere, fun c' hc' => ?_⟩
      rcases hw.exists_child hc' with ⟨c, -, hc, rfl⟩
      exact (hpart c hc).1
    refine ⟨hwf, Parallel.eq hk (hw.mono ?_) hwf hv⟩
    rintro _ c ⟨hc, rfl⟩
    exact (hpart c hc).2
  have hmap : ∀ items : List Value, (∀ c ∈ items, c ∈ v.children) →
      List.Forall₂ (fun c' c => c ∈ v.children ∧ c' = c.clone env)
        (items.map (clone env)) items := by
    intro items hitems
    rw [forall₂_map_left_iff, forall₂_same]
    exact fun c hc => ⟨hitems c hc, rfl⟩
  cases v with
  | list items =>
    rw [clone, cloneItems_eq]
    exact hparallel (.list (hmap items (fun _ hc => hc))) trivial
  | set s items =>
    rw [clone, cloneItems_eq]
    refine hparallel (.set s s (hmap items (fun _ hc => hc))) ?_
    rw [WellFormedHere, pairwise_map]
    exact List.Pairwise.imp_of_mem (fun hc hd => hreflect _ hc _ hd) hv.here
  | map s entries =>
    rw [clone, cloneEntries_eq]
    refine hparallel (.map s s ?_) ?_
    · rw [forall₂_map_left_iff, forall₂_same]
      exact fun e he => ⟨⟨(mem_children_map he).1, rfl⟩, (mem_children_map he).2, rfl⟩
    · rw [WellFormedHere, pairwise_map]
      refine List.Pairwise.imp_of_mem (fun he he' => ?_) hv.here
      exact hreflect _ (mem_children_map he).1 _ (mem_children_map he').1
  | tuple a b =>
    exact hparallel (.tuple ⟨by simp [children], rfl⟩ ⟨by simp [children], rfl⟩) trivial
  | optional value =>
    cases value with
    | none => exact ⟨hv, hk.refl hv⟩
    | some a => exact hparallel (.optional ⟨by simp [children], rfl⟩) trivial
  | result value =>
    cases value with
    | ok a => exact hparallel (.ok ⟨by simp [children], rfl⟩) trivial
    | error a => exact hparallel (.error ⟨by simp [children], rfl⟩) trivial
  | boxedEnum e =>
    have henum := hcopies.enum_clone e hv.here
    refine ⟨⟨henum.1, by simp [clone, children]⟩, ?_⟩
    rw [eq_unfold]
    simp [clone, eqWith, henum.2]
  | _ => exact ⟨hv, hk.refl hv⟩

end Clones

/-! ## Objects inside values -/

/-- `w` occurs in `v` at some depth. -/
inductive Inside (w : Value) : Value → Prop
  | here : Inside w w
  | child {v c : Value} (hc : c ∈ v.children) (h : Inside w c) : Inside w v

lemma Hereditary.of_inside {p : Value → Prop} (h : Hereditary p v) (hw : Inside w v) : p w := by
  induction hw with
  | here => exact h.here
  | child hc _ ih => exact ih (h.inside hc)

/-- An object's address, if the value is an object. -/
def address? : Value → Option Nat
  | object o => some o.ptr
  | _ => none

/-- All objects in the value live at addresses below `n`. -/
abbrev PtrsBelow (n : Nat) (v : Value) : Prop :=
  Hereditary (fun w => ∀ ptr ∈ w.address?, ptr < n) v

lemma PtrsBelow.ptr_lt {n : Nat} {o : ObjectRef} (h : v.PtrsBelow n) (hin : Inside (object o) v) :
    o.ptr < n :=
  h.of_inside hin o.ptr rfl

lemma Hereditary.mono {p q : Value → Prop} (hpq : ∀ w, p w → q w) (h : Hereditary p v) :
    Hereditary q v := by
  induction h with
  | intro here _ ih => exact ⟨hpq _ here, ih⟩

/-- An object that is copied into new storage although it is keyed by its address. -/
def copiedByIdentity : Value → Bool
  | object o =>
    match env.registry o.typeId with
    | some t =>
      !t.shared && t.copy.isSome && decide (t.size < 2 ^ 63) &&
        !(t.equals.isSome || t.compare.isSome)
    | none => false
  | _ => false

/-- Taking a snapshot of the value keeps the identity of every object keyed by it. -/
abbrev Snapshottable (v : Value) : Prop :=
  Hereditary (fun w => copiedByIdentity env w = false) v

/-- How a snapshot `v'`, taken while the heap went from `h` to `h'`, relates to
its original `v`. -/
structure Snapshot (emitted : BoxedEnum → Prop) (h : Heap) (v v' : Value) (h' : Heap) : Prop where
  mono : h.next ≤ h'.next
  wellFormed : v'.WellFormed env emitted
  ptrs : v'.PtrsBelow h'.next
  same : v.Snapshottable env → Value.eq env v' v = true
  fresh : ¬ v.Snapshottable env →
    ∃ o, Inside (object o) v' ∧ contentEquality env o.typeId = none ∧ h.next ≤ o.ptr

variable {h₀ h : Heap}

/-- An object is either kept or copied into new storage by its callback. -/
lemma deepClone_object (env : Runtime) (o : ObjectRef) (h : Heap) :
    (deepClone env (object o) h = (object o, h) ∧ copiedByIdentity env (object o) = false) ∨
    ∃ t copyFn, env.registry o.typeId = some t ∧ t.copy = some copyFn ∧
      copiedByIdentity env (object o) = t.equality.isNone ∧
      deepClone env (object o) h =
        (object ⟨h.next, o.typeId, copyFn o.data⟩, { h with next := h.next + 1 }) := by
  rcases hreg : env.registry o.typeId with _ | t
  · exact Or.inl (by simp [deepClone, copyObject, copiedByIdentity, hreg])
  by_cases hshared : t.shared
  · exact Or.inl (by simp [deepClone, copyObject, copiedByIdentity, hreg, hshared])
  rcases hcopy : t.copy with _ | copyFn
  · exact Or.inl (by simp [deepClone, copyObject, copiedByIdentity, hreg, hshared, hcopy])
  by_cases hsize : t.size < 2 ^ 63
  · refine Or.inr ⟨t, copyFn, rfl, hcopy, ?_, ?_⟩
    · simp only [copiedByIdentity, hreg, hshared, hcopy, hsize, ObjectType.equality]
      cases t.equals <;> cases t.compare <;> rfl
    · simp only [deepClone, copyObject, allocObject, hreg, hshared, hcopy, hsize, if_true]
      rfl
  · left
    simp only [deepClone, copyObject, allocObject, copiedByIdentity, hreg, hshared, hcopy, hsize]
    simp

variable {env} {emitted : BoxedEnum → Prop}

lemma Snapshot.weaken {h' h₁ : Heap} (hs : Snapshot env emitted h v v' h')
    (h₀h : h₀.next ≤ h.next) (h'h₁ : h'.next ≤ h₁.next) : Snapshot env emitted h₀ v v' h₁ where
  mono := h₀h.trans (hs.mono.trans h'h₁)
  wellFormed := hs.wellFormed
  ptrs := hs.ptrs.mono (fun _ hw o ho => (hw o ho).trans_le h'h₁)
  same := hs.same
  fresh := by
    intro hnot
    rcases hs.fresh hnot with ⟨o, hin, hid, hptr⟩
    exact ⟨o, hin, hid, h₀h.trans hptr⟩

/-- What is to be shown of the snapshot of one value. -/
def Snapshots (env : Runtime) (emitted : BoxedEnum → Prop) (v : Value) : Prop :=
  ∀ h : Heap, v.WellFormed env emitted → v.PtrsBelow h.next →
    Snapshot env emitted h v (deepClone env v h).1 (deepClone env v h).2

lemma PtrsBelow.weaken {m n : Nat} (hmn : m ≤ n) (h : v.PtrsBelow m) : v.PtrsBelow n :=
  h.mono (fun _ hw o ho => (hw o ho).trans_le hmn)

lemma deepCloneItems_spec {items : List Value} (hitems : ∀ v ∈ items, Snapshots env emitted v)
    (h : Heap) (hwf : ∀ v ∈ items, v.WellFormed env emitted)
    (hptrs : ∀ v ∈ items, v.PtrsBelow h.next) : h.next ≤ (deepCloneItems env items h).2.next ∧
      List.Forall₂ (fun v v' => Snapshot env emitted h v v' (deepCloneItems env items h).2)
        items (deepCloneItems env items h).1 := by
  induction items generalizing h with
  | nil => exact ⟨le_rfl, List.Forall₂.nil⟩
  | cons v items ih => ?_
  have hs := hitems v (by simp) h (hwf v (by simp)) (hptrs v (by simp))
  have hrest := ih (fun w hw => hitems w (by simp [hw])) (deepClone env v h).2
    (fun w hw => hwf w (by simp [hw]))
    (fun w hw => (hptrs w (by simp [hw])).weaken hs.mono)
  refine ⟨hs.mono.trans hrest.1, List.Forall₂.cons (hs.weaken le_rfl hrest.1) ?_⟩
  exact hrest.2.imp (fun w w' hw => hw.weaken hs.mono le_rfl)

/-- Copy entries one after the other and insert the copies. -/
def copyLoop {γ : Type} (copy : γ → Heap → γ × Heap) (insert : List γ → γ → List γ) :
    List γ → List γ → Heap → List γ × Heap
  | [], out, h => (out, h)
  | e :: entries, out, h => copyLoop copy insert entries (insert out (copy e h).1) (copy e h).2

lemma deepCloneMembers_eq (s : RandomState) (items out : List Value) (h : Heap) :
    deepCloneMembers env s items out h =
      copyLoop (deepClone env) (setInsert env s) items out h := by
  induction items generalizing out h with
  | nil => rfl
  | cons v items ih => exact ih _ _

lemma deepCloneEntries_eq (s : RandomState) (entries out : List (Value × Value)) (h : Heap) :
    deepCloneEntries env s entries out h = copyLoop
        (fun e h => (((deepClone env e.1 h).1, (deepClone env e.2 (deepClone env e.1 h).2).1),
          (deepClone env e.2 (deepClone env e.1 h).2).2))
        (fun out e => mapInsert env s out e.1 e.2) entries out h := by
  induction entries generalizing out h with
  | nil => rfl
  | cons e entries ih => exact ih _ _

variable (hk : HashableOn (WellFormed env emitted) (eq env) (feed env))

include hk

/-- Equal values hold the same objects, as far as these are keyed by identity. -/
lemma exists_inside_of_eq {o : ObjectRef} (hid : contentEquality env o.typeId = none)
    (hin : Inside (object o) v) (hv : v.WellFormed env emitted) (hw : w.WellFormed env emitted)
    (heq : Value.eq env v w = true) : ∃ o', Inside (object o') w ∧ o'.ptr = o.ptr := by
  induction hin generalizing w with
  | here =>
    have hsame := variantOrder_eq_of_eq heq
    cases sameVariant_of_order env hsame.symm with
    | object _ o' => ?_
    have hobj : objectEq env o o' = true := heq
    by_cases hty : o.typeId = o'.typeId
    · rw [objectEq_of_identity hty hid, beq_iff_eq] at hobj
      exact ⟨o', .here, hobj.symm⟩
    · rw [objectEq_of_ne hty] at hobj
      exact absurd hobj (by simp)
  | child hc _ ih =>
    rcases exists_eq_child hk hv hw heq hc with ⟨d, hd, hcd⟩
    rcases ih (hv.inside hc) (hw.inside hd) hcd with ⟨o', hin', hptr⟩
    exact ⟨o', .child hd hin', hptr⟩

/-- Snapshots taken one after the other are equal only if their originals are. -/
lemma Snapshot.reflects {h₁ : Heap} {w' : Value} (hs : Snapshot env emitted h₀ v v' h)
    (hs' : Snapshot env emitted h w w' h₁) (hv : v.WellFormed env emitted)
    (hw : w.WellFormed env emitted) (hwptrs : w.PtrsBelow h₀.next)
    (heq : Value.eq env v' w' = true) : Value.eq env v w = true := by
  have hflip := hk.symm hs.wellFormed hs'.wellFormed heq
  by_cases hw' : w.Snapshottable env
  · have hww := hs'.same hw'
    by_cases hv' : v.Snapshottable env
    · have hvv := hk.symm hs.wellFormed hv (hs.same hv')
      exact hk.trans hv hs'.wellFormed hw (hk.trans hv hs.wellFormed hs'.wellFormed hvv heq) hww
    · rcases hs.fresh hv' with ⟨o, hin, hid, hptr⟩
      have heqw := hk.trans hs.wellFormed hs'.wellFormed hw heq hww
      rcases exists_inside_of_eq hk hid hin hs.wellFormed hw heqw with ⟨o', hin', hptr'⟩
      have := PtrsBelow.ptr_lt hwptrs hin'
      omega
  · rcases hs'.fresh hw' with ⟨o, hin, hid, hptr⟩
    rcases exists_inside_of_eq hk hid hin hs'.wellFormed hs.wellFormed hflip with
      ⟨o', hin', hptr'⟩
    have := PtrsBelow.ptr_lt hs.ptrs hin'
    omega

/-- A composite value is a snapshot when its parts are. -/
lemma Snapshot.of_parallel {h' : Heap}
    (hparallel : Parallel (fun c c' => Snapshot env emitted h c c' h') v v')
    (hmono : h.next ≤ h'.next) (hv : v.WellFormed env emitted)
    (hhere : WellFormedHere env emitted v') : Snapshot env emitted h v v' h' := by
  have hobject := hparallel.isObject
  have hwf : v'.WellFormed env emitted := by
    refine ⟨hhere, fun c' hc' => ?_⟩
    rcases hparallel.flip.exists_child hc' with ⟨c, -, hs⟩
    exact hs.wellFormed
  refine ⟨hmono, hwf, ⟨?_, fun c' hc' => ?_⟩, fun hsnap => ?_, fun hnot => ?_⟩
  · cases v' <;> simp_all [isObject, address?]
  · rcases hparallel.flip.exists_child hc' with ⟨c, -, hs⟩
    exact hs.ptrs
  · have hparts := hparallel.with_mem.mono
      (fun c c' hc => hc.2.same (hsnap.inside hc.1))
    exact Parallel.eq hk hparts.flip hwf hv
  have hchild : ∃ c ∈ v.children, ¬ c.Snapshottable env := by
    by_contra hall
    push Not at hall
    refine hnot ⟨?_, hall⟩
    cases v <;> simp_all [copiedByIdentity, isObject]
  rcases hchild with ⟨c, hc, hnotc⟩
  rcases hparallel.exists_child hc with ⟨c', hc', hs⟩
  rcases hs.fresh hnotc with ⟨o, hin, hid, hptr⟩
  exact ⟨o, .child hc' hin, hid, hptr⟩

/-! ## Inserting into well-formed collections -/

lemma keyMatches_eq (s : RandomState) {a b : Value} (ha : a.WellFormed env emitted)
    (hb : b.WellFormed env emitted) : keyMatches env s a b = Value.eq env a b := by
  rw [keyMatches]
  cases hab : Value.eq env a b with
  | false => simp
  | true => simp [hashOf_congr s (hk.feed_eq ha hb hab)]

lemma setInsert_of_absent (s : RandomState) {items : List Value}
    (h : ∀ w ∈ items, w.WellFormed env emitted) (hv : v.WellFormed env emitted)
    (habsent : ∀ w ∈ items, Value.eq env w v = false) : setInsert env s items v = items ++ [v] := by
  induction items with
  | nil => rfl
  | cons w items ih =>
    rw [setInsert, keyMatches_eq hk s (h w (by simp)) hv, habsent w (by simp)]
    simp [ih (fun x hx => h x (by simp [hx])) (fun x hx => habsent x (by simp [hx]))]

lemma mapInsert_of_absent (s : RandomState) {entries : List (Value × Value)} {k : Value}
    (h : ∀ e ∈ entries, e.1.WellFormed env emitted) (hkey : k.WellFormed env emitted)
    (habsent : ∀ e ∈ entries, Value.eq env e.1 k = false) :
    mapInsert env s entries k v = entries ++ [(k, v)] := by
  induction entries with
  | nil => rfl
  | cons e entries ih =>
    rw [mapInsert, keyMatches_eq hk s (h e (by simp)) hkey, habsent e (by simp)]
    simp [ih (fun x hx => h x (by simp [hx])) (fun x hx => habsent x (by simp [hx]))]

/-! ## The copying loops -/

/-- The loop that fills a copied collection keeps every entry: snapshots of
different keys differ. `R` says how a copied entry relates to its original. -/
lemma copyLoop_spec {γ : Type} (key : γ → Value) (R : Heap → γ → γ → Heap → Prop)
    (copy : γ → Heap → γ × Heap) (insert : List γ → γ → List γ)
    (hkey : ∀ {h e e' h'}, R h e e' h' → Snapshot env emitted h (key e) (key e') h')
    (hweaken : ∀ {h₀ h e e' h' h₁}, R h e e' h' → h₀.next ≤ h.next → h'.next ≤ h₁.next →
      R h₀ e e' h₁) (hinsert : ∀ out e, (∀ x ∈ out, (key x).WellFormed env emitted) →
      (key e).WellFormed env emitted → (∀ x ∈ out, Value.eq env (key x) (key e) = false) →
      insert out e = out ++ [e]) (items done out : List γ) (hmono : h₀.next ≤ h.next)
    (hcopy : ∀ e ∈ items, ∀ h : Heap, h₀.next ≤ h.next → R h e (copy e h).1 (copy e h).2)
    (hwf : ∀ e ∈ done ++ items, (key e).WellFormed env emitted ∧ (key e).PtrsBelow h₀.next)
    (hdistinct : (done ++ items).Pairwise (fun e e' => Value.eq env (key e) (key e') = false))
    (hout : List.Forall₂ (fun e e' => R h₀ e e' h) done out)
    (houtDistinct : out.Pairwise (fun e e' => Value.eq env (key e) (key e') = false)) :
    h₀.next ≤ (copyLoop copy insert items out h).2.next ∧
      List.Forall₂ (fun e e' => R h₀ e e' (copyLoop copy insert items out h).2)
        (done ++ items) (copyLoop copy insert items out h).1 ∧
      (copyLoop copy insert items out h).1.Pairwise
        (fun e e' => Value.eq env (key e) (key e') = false) := by
  induction items generalizing h done out with
  | nil =>
    rw [append_nil]
    exact ⟨hmono, hout, houtDistinct⟩
  | cons e items ih => ?_
  have he : e ∈ done ++ e :: items := by simp
  have hR := hcopy e (by simp) h hmono
  have hs := hkey hR
  have horiginal : ∀ x' ∈ out, ∃ x ∈ done, R h₀ x x' h := fun x' hx' =>
    exists_of_forall₂ (R := fun x' x => R h₀ x x' h) hout.flip hx'
  have habsent : ∀ x' ∈ out, Value.eq env (key x') (key (copy e h).1) = false := by
    intro x' hx'
    rcases horiginal x' hx' with ⟨x, hx, hRx⟩
    cases hcase : Value.eq env (key x') (key (copy e h).1) with
    | false => rfl
    | true =>
      have hxe := (hkey hRx).reflects hk hs (hwf x (by simp [hx])).1 (hwf e he).1
        (hwf e he).2 hcase
      rw [(pairwise_append.mp hdistinct).2.2 x hx e (by simp)] at hxe
      exact hxe.symm
  have houtWf : ∀ x' ∈ out, (key x').WellFormed env emitted := by
    intro x' hx'
    rcases horiginal x' hx' with ⟨x, -, hRx⟩
    exact (hkey hRx).wellFormed
  rw [copyLoop, hinsert out _ houtWf hs.wellFormed habsent]
  have happend : done ++ e :: items = (done ++ [e]) ++ items := by simp
  rw [happend] at hwf hdistinct ⊢
  refine ih _ _ (hmono.trans hs.mono) (fun x hx => hcopy x (by simp [hx])) hwf hdistinct ?_ ?_
  · refine rel_append (hout.imp (fun x x' hx => hweaken hx le_rfl hs.mono)) ?_
    exact List.Forall₂.cons (hweaken hR hmono le_rfl) List.Forall₂.nil
  · rw [pairwise_append]
    exact ⟨houtDistinct, by simp, by simpa using habsent⟩

/-! ## Snapshots of values -/

/-- A value that is kept as it is. -/
lemma Snapshot.refl (hsnap : v.Snapshottable env) (h : Heap) (hv : v.WellFormed env emitted)
    (hptrs : v.PtrsBelow h.next) : Snapshot env emitted h v v h where
  mono := le_rfl
  wellFormed := hv
  ptrs := hptrs
  same := fun _ => hk.refl hv
  fresh := fun hnot => absurd hsnap hnot

variable (hcopies : LawfulCopies env emitted)

include hcopies

lemma object_snapshot (o : ObjectRef) : Snapshots env emitted (object o) := by
  intro h hv hptrs
  rcases deepClone_object env o h with
    ⟨hclone, hkept⟩ | ⟨t, copyFn, hreg, hcopy, hidentity, hclone⟩
  · rw [hclone]
    exact Snapshot.refl hk ⟨hkept, by simp [children]⟩ h hv hptrs
  rw [hclone]
  refine ⟨Nat.le_succ _, ⟨trivial, by simp [children]⟩, ⟨?_, by simp [children]⟩,
    fun hsnap => ?_, fun hnot => ?_⟩
  · simp [address?]
  · rcases hequality : t.equality with _ | equality
    · exact absurd hsnap.here (by simp [hidentity, hequality])
    have hcontent : contentEquality env o.typeId = some equality := by
      simp [contentEquality, hreg, hcopy, hequality]
    refine (objectEq_of_content (a := ⟨h.next, o.typeId, copyFn o.data⟩) (b := o) rfl
      hcontent).trans ?_
    exact hcopies.object_copy o.typeId t hreg copyFn hcopy equality hequality o rfl h.next
  · refine ⟨_, .here, ?_, le_rfl⟩
    cases hequality : t.equality with
    | none => simp [contentEquality, hreg, hcopy, hequality]
    | some equality => exact absurd ⟨by simp [hidentity, hequality], by simp [children]⟩ hnot

/-- Every well-formed value is snapshotted faithfully: the snapshot is equal to
it, or holds an object at an address that is new. -/
theorem deepClone_snapshot (v : Value) : Snapshots env emitted v := by
  induction v using child_induction with
  | h v ih => ?_
  intro h hv hptrs
  have hchild := fun c hc => ih c hc h (hv.inside hc) (hptrs.inside hc)
  cases v with
  | object o => exact object_snapshot hk hcopies o h hv hptrs
  | list items =>
    have hloop := deepCloneItems_spec ih h (fun c hc => hv.inside hc)
      (fun c hc => hptrs.inside hc)
    exact Snapshot.of_parallel hk (.list hloop.2) hloop.1 hv trivial
  | set s items =>
    have hmono : h.next ≤ h.newHasher.2.next := le_rfl
    have hloop := copyLoop_spec hk id (Snapshot env emitted) (deepClone env)
      (setInsert env h.hasher) (fun hR => hR) (fun hR => hR.weaken)
      (fun out e => setInsert_of_absent hk h.hasher) items [] [] hmono
      (fun c hc h' hmono => ih c hc h' (hv.inside hc) (PtrsBelow.weaken hmono (hptrs.inside hc)))
      (fun c hc => ⟨hv.inside hc, hptrs.inside hc⟩) hv.here List.Forall₂.nil
      List.Pairwise.nil
    rw [← deepCloneMembers_eq] at hloop
    exact Snapshot.of_parallel hk (.set s h.hasher hloop.2.1) hloop.1 hv hloop.2.2
  | map s entries =>
    have hmono : h.next ≤ h.newHasher.2.next := le_rfl
    have hloop := copyLoop_spec hk Prod.fst
      (fun h e e' h' => Snapshot env emitted h e.1 e'.1 h' ∧ Snapshot env emitted h e.2 e'.2 h')
      (fun e h =>
        (((deepClone env e.1 h).1, (deepClone env e.2 (deepClone env e.1 h).2).1),
          (deepClone env e.2 (deepClone env e.1 h).2).2))
      (fun out e => mapInsert env h.hasher out e.1 e.2)
      (fun hR => hR.1) (fun hR hle hle' => ⟨hR.1.weaken hle hle', hR.2.weaken hle hle'⟩)
      (fun out e => mapInsert_of_absent hk h.hasher) entries [] [] hmono
      (by
        intro e he h' hmono
        have hkey := ih e.1 (mem_children_map he).1 h' (hv.entry he).1
          (PtrsBelow.weaken hmono (hptrs.entry he).1)
        have hvalue := ih e.2 (mem_children_map he).2 _ (hv.entry he).2
          (PtrsBelow.weaken (hmono.trans hkey.mono) (hptrs.entry he).2)
        exact ⟨hkey.weaken le_rfl hvalue.mono, hvalue.weaken hkey.mono le_rfl⟩)
      (fun e he => ⟨(hv.entry he).1, (hptrs.entry he).1⟩) hv.here List.Forall₂.nil
      List.Pairwise.nil
    rw [← deepCloneEntries_eq] at hloop
    exact Snapshot.of_parallel hk (.map s h.hasher hloop.2.1) hloop.1 hv hloop.2.2
  | tuple a b =>
    have ha := hchild a (by simp [children])
    have hb := ih b (by simp [children]) (deepClone env a h).2
      (hv.inside (by simp [children]))
      (PtrsBelow.weaken ha.mono (hptrs.inside (by simp [children])))
    exact Snapshot.of_parallel hk
      (.tuple (ha.weaken le_rfl hb.mono) (hb.weaken ha.mono le_rfl))
      (ha.mono.trans hb.mono) hv trivial
  | optional value =>
    cases value with
    | none => exact Snapshot.refl hk ⟨rfl, by simp [children]⟩ h hv hptrs
    | some a =>
      have ha := hchild a (by simp [children])
      exact Snapshot.of_parallel hk (.optional ha) ha.mono hv trivial
  | result value =>
    cases value with
    | ok a =>
      have ha := hchild a (by simp [children])
      exact Snapshot.of_parallel hk (.ok ha) ha.mono hv trivial
    | error a =>
      have ha := hchild a (by simp [children])
      exact Snapshot.of_parallel hk (.error ha) ha.mono hv trivial
  | boxedEnum e =>
    have hclone := clone_eq hk hcopies hv
    show Snapshot env emitted h (boxedEnum e) (boxedEnum (e.clone env)) h
    exact ⟨le_rfl, hclone.1, ⟨by simp [address?], by simp [children]⟩, fun _ => hclone.2,
      fun hnot => absurd ⟨rfl, by simp [children]⟩ hnot⟩
  | _ => exact Snapshot.refl hk ⟨rfl, by simp [children]⟩ h hv hptrs

end Value

end MuxRuntime
