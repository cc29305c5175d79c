import MuxRuntime.Json.Documents

/-!
# Merge patches against RFC 7396

The code stores a member that the target does not have as the patch spells it. The
standard merges such a member into an empty object, which drops the null members
inside it. The two results are the same exactly when no null is stored that way.
-/

namespace JsonTree

variable {α : Type}

/-! ## Storing absent members as they are -/

mutual

/-- Merging as the code does it: a member is merged into the target's member of the
same name, and stored unchanged if there is none. -/
def storeMerge (target : JsonTree α) : JsonTree α → JsonTree α
  | object patch => object (fun name => storeMember (target.members name) (patch name))
  | patch => patch

def storeMember (member : Option (JsonTree α)) : Option (JsonTree α) → Option (JsonTree α)
  | none => member
  | some null => none
  | some patch =>
    match member with
    | some existing => some (storeMerge existing patch)
    | none => some patch

end

mutual

/-- No object in the tree has a null member; what is inside an array is not looked at. -/
def NullFree : JsonTree α → Prop
  | object members => ∀ name, NullFreeMember (members name)
  | _ => True

def NullFreeMember : Option (JsonTree α) → Prop
  | none => True
  | some null => False
  | some t => NullFree t

end

mutual

/-- Wherever the patch has a member that the target does not have, its value is free
of null members. -/
def Storable (target : JsonTree α) : JsonTree α → Prop
  | object patch => ∀ name, StorableMember (target.members name) (patch name)
  | _ => True

def StorableMember (member : Option (JsonTree α)) : Option (JsonTree α) → Prop
  | none => True
  | some null => True
  | some patch =>
    match member with
    | some existing => Storable existing patch
    | none => NullFree patch

end

lemma storeMember_unpatched (member : Option (JsonTree α)) : storeMember member none = member := by
  rw [storeMember]

lemma storeMember_none {patch : JsonTree α} (h : patch ≠ null) :
    storeMember none (some patch) = some patch := by
  cases patch with
  | null => exact absurd rfl h
  | _ => simp only [storeMember]

lemma storeMember_some {patch : JsonTree α} (h : patch ≠ null) (existing : JsonTree α) :
    storeMember (some existing) (some patch) = some (storeMerge existing patch) := by
  cases patch with
  | null => exact absurd rfl h
  | _ => simp only [storeMember]

lemma object_inj_iff {f g : String → Option (JsonTree α)} :
    object f = object g ↔ ∀ name, f name = g name := by
  rw [object.injEq, funext_iff]

/-- Merging into nothing gives the patch back exactly when it holds no null. -/
lemma mergePatch_null_iff (patch : JsonTree α) : mergePatch null patch = patch ↔ NullFree patch := by
  induction patch using member_induction with
  | null | scalar value | array items _ => simp [mergePatch, NullFree]
  | object m ih => ?_
  rw [mergePatch, NullFree, object_inj_iff]
  apply forall_congr'
  intro name
  rcases hmember : m name with _ | t
  · simp [mergeMember, NullFreeMember]
  have ht := ih name t hmember
  cases t with
  | null => simp [mergeMember, NullFreeMember]
  | _ => simpa [mergeMember, NullFreeMember] using ht

/-- When that is what the standard computes. -/
theorem storeMerge_eq_mergePatch_iff (target patch : JsonTree α) :
    storeMerge target patch = mergePatch target patch ↔ Storable target patch := by
  induction patch using member_induction generalizing target with
  | null | scalar value | array items _ => simp [storeMerge, mergePatch, Storable]
  | object m ih => ?_
  rw [storeMerge, mergePatch, Storable, object_inj_iff]
  apply forall_congr'
  intro name
  rcases hmember : m name with _ | t
  · simp [storeMember, mergeMember, StorableMember]
  have ht := fun existing => ih name t hmember existing
  have hstored := mergePatch_null_iff t
  cases t with
  | null => simp [storeMember, mergeMember, StorableMember]
  | _ =>
    cases target.members name with
    | none => simpa [storeMember, mergeMember, StorableMember, eq_comm] using hstored
    | some existing => simpa [storeMember, mergeMember, StorableMember] using ht existing

end JsonTree

namespace MuxRuntime

open List Value JsonTree

variable {env : Runtime} {n : Nat} {fresh : RandomState}

/-! ## The loop over the members of a patch -/

/-- Merging is described by its tree, and keeps documents. -/
def Merges (env : Runtime) (fresh : RandomState) (n : Nat) (patch : Value) : Prop :=
  ∀ target, Document n target →
    tree (applyMergePatch env fresh target patch) = storeMerge (tree target) (tree patch) ∧
      Document n (applyMergePatch env fresh target patch)

lemma applyMergePatch_leaf {patch : Value} (hp : Document n patch)
    (hleaf : ∀ s entries, patch ≠ .map s entries) : Merges env fresh n patch := by
  intro target _
  have hresult : applyMergePatch env fresh target patch = patch := by
    cases patch with
    | map s entries => exact absurd rfl (hleaf s entries)
    | _ => simp only [applyMergePatch, hp.clone_eq]
  have hstore : storeMerge (tree target) (tree patch) = tree patch := by
    cases hp with
    | map => exact absurd rfl (hleaf _ _)
    | _ => simp [tree, storeMerge]
  rw [hresult, hstore]
  exact ⟨rfl, hp⟩

/-- One round of the loop: only the member under the name of the entry changes. -/
lemma mergeEntries_cons {s : RandomState} {entries : List (Value × Value)} {v : Value}
    (hdoc : Document n (.map s entries)) (hv : Document n v) (hmerge : Merges env fresh n v)
    (name : String) (rest : List (Value × Value)) :
    ∃ entries', mergeEntries env fresh s entries ((.string name, v) :: rest) =
        mergeEntries env fresh s entries' rest ∧ Document n (.map s entries') ∧
      treeMembers entries' = Function.update (treeMembers entries) name
        (storeMember (treeMembers entries name) (some (tree v))) := by
  by_cases hunit : v = .unit
  · subst hunit
    refine ⟨mapRemove env s entries (.string name), ?_, hdoc.mapRemove env _, ?_⟩
    · simp only [mergeEntries]
    · rw [treeMembers_mapRemove s hdoc.named]
      simp [storeMember]
  have hnull : tree v ≠ .null := fun htree => hunit (tree_eq_null_iff.mp htree)
  rw [treeMembers_eq]
  cases hget : member entries name with
  | none =>
    refine ⟨mapInsert env s entries (.string name) (v.clone env), ?_, ?_, ?_⟩
    · rw [mergeEntries, mapGet_string, hget]
      exact hunit
    · rw [hv.clone_eq]
      exact hdoc.mapInsert env name hv
    · rw [treeMembers_mapInsert, hv.clone_eq, Option.map_none, storeMember_none hnull]
  | some existing => ?_
  obtain ⟨htree, hresult⟩ := hmerge existing (hdoc.member hget)
  refine ⟨mapInsert env s entries (.string name) (applyMergePatch env fresh existing v),
    ?_, hdoc.mapInsert env name hresult, ?_⟩
  · rw [mergeEntries, mapGet_string, hget]
    exact hunit
  · rw [treeMembers_mapInsert, htree, Option.map_some, storeMember_some hnull]

/-- The whole loop: every member is merged on its own. -/
lemma mergeEntries_correct {s : RandomState} {entries patchEntries : List (Value × Value)}
    (hdoc : Document n (.map s entries)) (hnamed : Named patchEntries)
    (hvalues : ∀ e ∈ patchEntries, Document n e.2)
    (hmerges : ∀ e ∈ patchEntries, Merges env fresh n e.2) :
    (∀ name, treeMembers (mergeEntries env fresh s entries patchEntries) name =
        storeMember (treeMembers entries name) (treeMembers patchEntries name)) ∧
      Document n (.map s (mergeEntries env fresh s entries patchEntries)) := by
  induction patchEntries generalizing entries with
  | nil =>
    refine ⟨?_, by rwa [mergeEntries]⟩
    intro name
    rw [mergeEntries, treeMembers, storeMember_unpatched]
  | cons e rest ih => ?_
  obtain ⟨key, v⟩ := e
  obtain ⟨name, rfl⟩ : ∃ name, key = .string name := hnamed.texts _ mem_cons_self
  have hdistinct := hnamed.distinct
  rw [map_cons, nodup_cons] at hdistinct
  obtain ⟨entries', hstep, hdoc', htree⟩ :=
    mergeEntries_cons hdoc (hvalues _ mem_cons_self) (hmerges _ mem_cons_self)
      name rest
  obtain ⟨hrest, hresult⟩ := ih hdoc' hnamed.tail
    (fun e he => hvalues e (mem_cons_of_mem _ he))
    (fun e he => hmerges e (mem_cons_of_mem _ he))
  rw [hstep]
  refine ⟨?_, hresult⟩
  intro other
  rw [hrest, htree, treeMembers]
  by_cases hother : other = name
  · -- The later entries of the patch leave this member as it is.
    subst hother
    have habsent : treeMembers rest other = none := by
      rw [treeMembers_eq, member_eq_none_iff.mpr hdistinct.1]
      rfl
    rw [habsent, storeMember_unpatched, Function.update_self, if_pos (isName_iff.mpr rfl)]
  · simp [isName, hother, Ne.symm hother]

/-- The code merges trees, storing absent members as they are. -/
theorem tree_applyMergePatch {patch : Value} (hp : Document n patch) :
    Merges env fresh n patch := by
  induction hp with
  | list hlength hitems _ => exact applyMergePatch_leaf (.list hlength hitems) (by simp)
  | @map s' patchEntries hnamed hvalues ih =>
    intro target ht
    have hempty : Document n (.map fresh []) := .map Named.nil (by simp)
    cases ht with
    | @map s entries hn hv =>
      obtain ⟨htree, hdoc⟩ := mergeEntries_correct (s := s) (.map hn hv) hnamed hvalues ih
      simp only [applyMergePatch, tree_map, storeMerge, object_inj_iff]
      exact ⟨htree, hdoc⟩
    | _ =>
      obtain ⟨htree, hdoc⟩ := mergeEntries_correct hempty hnamed hvalues ih
      simp only [applyMergePatch, tree_map, storeMerge, object_inj_iff]
      exact ⟨htree, hdoc⟩
  | unit => exact applyMergePatch_leaf .unit (by simp)
  | bool b => exact applyMergePatch_leaf (.bool b) (by simp)
  | int i => exact applyMergePatch_leaf (.int i) (by simp)
  | float bits => exact applyMergePatch_leaf (.float bits) (by simp)
  | string s => exact applyMergePatch_leaf (.string s) (by simp)
  | number o => exact applyMergePatch_leaf (.number o) (by simp)

/-! ## The interface function -/

/-- A merge patch leaves the target as RFC 7396 says exactly when no null member is
stored with a member that the target does not have. -/
theorem mergePatch_agrees_iff (T : JsonNumberType env) (h : JsonHeap) {target patch : Value}
    (ht : Document n target) (hp : Document n patch) (hpatch : isRepresentable T h patch = true) :
    (∃ target', muxJsonMergePatch T h (some target) (some patch) = (some target', .ok ()) ∧
      tree target' = mergePatch (tree target) (tree patch)) ↔
      Storable (tree target) (tree patch) := by
  have hresult : muxJsonMergePatch T h (some target) (some patch) =
      (some (applyMergePatch env h.heap.hasher target patch), .ok ()) := by
    simp [muxJsonMergePatch, hpatch]
  have htree : tree (applyMergePatch env h.heap.hasher target patch) =
      storeMerge (tree target) (tree patch) :=
    (tree_applyMergePatch hp target ht).1
  rw [hresult, ← storeMerge_eq_mergePatch_iff, ← htree]
  simp

/-- `{"a": 1}` patched with `{"a": null, "b": 2}`. -/
theorem mergePatch_agrees_sample :
    let target := Value.map ⟨0, 0⟩ [(.string "a", .int 1)]
    let patch := Value.map ⟨0, 0⟩ [(.string "a", .unit), (.string "b", .int 2)]
    ∃ target', muxJsonMergePatch sampleNumberType .initial (some target) (some patch) =
        (some target', .ok ()) ∧
      tree target' = mergePatch (tree target) (tree patch) := by
  intro target patch
  have ht : Document 1 target := .map ⟨by simp, by simp⟩ (by simp [Document.int])
  have hp : Document 1 patch := .map ⟨by simp, by simp⟩ (by simp [Document.int, Document.unit])
  apply (mergePatch_agrees_iff sampleNumberType .initial ht hp rfl).mpr
  intro name
  by_cases ha : name = "a"
  · subst ha
    exact trivial
  by_cases hb : name = "b"
  · subst hb
    exact trivial
  · have habsent : treeMembers [(.string "a", .unit), (.string "b", .int 2)] name = none := by
      simp [treeMembers, isName, Ne.symm ha, Ne.symm hb]
    rw [habsent]
    exact trivial

/-- `{}` patched with `{"a": {"b": null}}` becomes the patch, not `{"a": {}}`. -/
theorem nested_null_is_stored :
    let target := Value.map ⟨0, 0⟩ []
    let patch := Value.map ⟨0, 0⟩ [(.string "a", .map ⟨0, 0⟩ [(.string "b", .unit)])]
    muxJsonMergePatch sampleNumberType .initial (some target) (some patch) = (some patch, .ok ()) ∧
      tree patch ≠ mergePatch (tree target) (tree patch) := by
  intro target patch
  refine ⟨rfl, ?_⟩
  intro hsame
  have hmember : ((((tree patch).members "a").getD .null).members "b") =
      ((((mergePatch (tree target) (tree patch)).members "a").getD .null).members "b") := by
    rw [← hsame]
  cases hmember

end MuxRuntime
