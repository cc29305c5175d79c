import MuxRuntime.Foundations.JsonTree
import MuxRuntime.Json.Pointer

/-!
# Documents among the runtime values

A document is a value made of lists and of maps with distinct text keys. Looking
up, inserting and removing a text key then do what the same operations do on the
members of a JSON object, whatever the hasher of the map is.
-/

namespace MuxRuntime

open List Value

variable {env : Runtime}

/-! ## Text keys -/

/-- Whether a key is the given text. -/
def isName (name : String) : Value → Bool
  | .string s => s == name
  | _ => false

variable {name : String}

lemma isName_iff {k : Value} : isName name k = true ↔ k = .string name := by
  cases k <;> simp [isName]

/-- The value under a name. -/
def member (entries : List (Value × Value)) (name : String) : Option Value :=
  (entries.find? (fun e => isName name e.1)).map Prod.snd

@[simp]
lemma member_nil (name : String) : member [] name = none := rfl

lemma member_cons (e : Value × Value) (entries : List (Value × Value)) (name : String) :
    member (e :: entries) name = if isName name e.1 then some e.2 else member entries name := by
  unfold member
  split <;> simp_all

/-- A text key is found exactly at itself. -/
lemma keyMatches_string (s : RandomState) (k : Value) (name : String) :
    keyMatches env s k (.string name) = isName name k := by
  rw [Bool.eq_iff_iff, isName_iff, keyMatches, Bool.and_eq_true, eq_unfold]
  constructor
  · rintro ⟨-, heq⟩
    cases k <;> simp_all [eqWith]
  · rintro rfl
    simp [eqWith]

theorem mapGet_string (s : RandomState) (entries : List (Value × Value)) (name : String) :
    mapGet env (eq env) s entries (.string name) = member entries name := by
  apply congrArg (Option.map Prod.snd)
  apply List.find?_congr
  intro e _
  exact keyMatches_string s e.1 name

theorem member_mapInsert (s : RandomState) (entries : List (Value × Value)) (k name : String)
    (v : Value) :
    member (mapInsert env s entries (.string k) v) name =
      if name = k then some v else member entries name := by
  induction entries with
  | nil =>
    rw [mapInsert, member_cons]
    by_cases hname : name = k
    · simp [isName, hname]
    · simp [isName, hname, Ne.symm hname]
  | cons e entries ih => ?_
  rw [mapInsert, keyMatches_string]
  by_cases hk : isName k e.1 = true
  · rw [if_pos hk, member_cons, member_cons]
    rw [isName_iff] at hk
    by_cases hname : name = k
    · simp [hk, isName, hname]
    · simp [hk, isName, hname, Ne.symm hname]
  · rw [if_neg hk, member_cons, member_cons, ih]
    by_cases hname : name = k
    · subst hname
      simp [hk]
    · simp [hname]

/-- The keys are texts, each of which occurs once. -/
structure Named (entries : List (Value × Value)) : Prop where
  texts : ∀ e ∈ entries, ∃ name, e.1 = .string name
  distinct : (entries.map Prod.fst).Nodup

lemma Named.nil : Named [] := ⟨by simp, by simp⟩

variable {e : Value × Value}

lemma Named.tail {entries : List (Value × Value)} (h : Named (e :: entries)) : Named entries := by
  have hdistinct := h.distinct
  rw [map_cons, nodup_cons] at hdistinct
  exact ⟨fun e he => h.texts e (mem_cons_of_mem _ he), hdistinct.2⟩

lemma member_eq_none_iff {entries : List (Value × Value)} :
    member entries name = none ↔ .string name ∉ entries.map Prod.fst := by
  unfold member
  simp only [Option.map_eq_none_iff, List.find?_eq_none, isName_iff, mem_map, not_exists, not_and]

theorem member_mapRemove (s : RandomState) {entries : List (Value × Value)} (h : Named entries)
    (k name : String) :
    member (mapRemove env s entries (.string k)) name =
      if name = k then none else member entries name := by
  induction entries with
  | nil => simp [mapRemove]
  | cons e entries ih => ?_
  rw [mapRemove, keyMatches_string]
  by_cases hk : isName k e.1 = true
  · rw [if_pos hk]
    rw [isName_iff] at hk
    by_cases hname : name = k
    · -- No later entry has the key that was removed.
      have hdistinct := h.distinct
      rw [map_cons, nodup_cons, hk] at hdistinct
      rw [if_pos hname, hname, member_eq_none_iff]
      exact hdistinct.1
    · simp [member_cons, hk, isName, hname, Ne.symm hname]
  · rw [if_neg hk, member_cons, member_cons, ih h.tail]
    by_cases hname : name = k
    · subst hname
      simp [hk]
    · simp [hname]

/-! ## What an insertion and a removal leave -/

variable (env) in
lemma keys_mapInsert (s : RandomState) (entries : List (Value × Value)) (k : String)
    (v : Value) :
    (mapInsert env s entries (.string k) v).map Prod.fst =
      if (member entries k).isSome then entries.map Prod.fst
      else entries.map Prod.fst ++ [.string k] := by
  induction entries with
  | nil => simp [mapInsert]
  | cons e entries ih => ?_
  rw [mapInsert, keyMatches_string, member_cons]
  by_cases hk : isName k e.1 = true
  · simp [hk]
  · rw [if_neg hk, if_neg hk, map_cons, ih]
    split <;> simp

lemma mem_mapInsert {s : RandomState} {entries : List (Value × Value)} {k v : Value}
    (h : e ∈ mapInsert env s entries k v) : e.2 = v ∨ ∃ e' ∈ entries, e.2 = e'.2 := by
  induction entries with
  | nil => simp_all [mapInsert]
  | cons e' entries ih => ?_
  rw [mapInsert] at h
  split at h
  · rcases mem_cons.mp h with rfl | h
    · exact .inl rfl
    · exact .inr ⟨e, mem_cons_of_mem _ h, rfl⟩
  · rcases mem_cons.mp h with rfl | h
    · exact .inr ⟨e, mem_cons_self, rfl⟩
    · rcases ih h with h | ⟨e'', he'', h⟩
      · exact .inl h
      · exact .inr ⟨e'', mem_cons_of_mem _ he'', h⟩

variable (env) in
lemma mapRemove_sublist (s : RandomState) (entries : List (Value × Value)) (k : Value) :
    (mapRemove env s entries k).Sublist entries := by
  induction entries with
  | nil => exact List.Sublist.slnil
  | cons e entries ih =>
    rw [mapRemove]
    split
    · exact sublist_cons_self e entries
    · exact ih.cons_cons e

lemma Named.mapInsert {entries : List (Value × Value)} (h : Named entries) (s : RandomState)
    (k : String) (v : Value) : Named (mapInsert env s entries (.string k) v) := by
  have hkeys := keys_mapInsert env s entries k v
  split at hkeys
  case isTrue =>
    constructor
    · intro e he
      have hmem := mem_map_of_mem (f := Prod.fst) he
      rw [hkeys] at hmem
      obtain ⟨e', he', heq⟩ := mem_map.mp hmem
      rw [← heq]
      exact h.texts e' he'
    · rw [hkeys]
      exact h.distinct
  case isFalse habsent =>
    rw [Bool.not_eq_true, Option.isSome_eq_false_iff, Option.isNone_iff_eq_none,
      member_eq_none_iff] at habsent
    constructor
    · intro e he
      have hmem := mem_map_of_mem (f := Prod.fst) he
      rw [hkeys, mem_append, mem_singleton] at hmem
      rcases hmem with hmem | hmem
      · obtain ⟨e', he', heq⟩ := mem_map.mp hmem
        rw [← heq]
        exact h.texts e' he'
      · exact ⟨k, hmem⟩
    · rw [hkeys]
      exact nodup_append.mpr ⟨h.distinct, by simp, by grind⟩

lemma Named.mapRemove {entries : List (Value × Value)} (h : Named entries) (s : RandomState)
    (k : Value) : Named (mapRemove env s entries k) :=
  have hsub := mapRemove_sublist env s entries k
  ⟨fun e he => h.texts e (hsub.subset he), h.distinct.sublist (hsub.map Prod.fst)⟩

/-! ## Documents -/

/-- Documents whose lists have fewer than `n` items. -/
inductive Document (n : Nat) : Value → Prop
  | unit : Document n .unit
  | bool (b : Bool) : Document n (.bool b)
  | int (i : Int64) : Document n (.int i)
  | float (bits : UInt64) : Document n (.float bits)
  | string (s : String) : Document n (.string s)
  | number (o : ObjectRef) : Document n (.object o)
  | list {items : List Value} (hlength : items.length < n)
      (hitems : ∀ v ∈ items, Document n v) : Document n (.list items)
  | map {s : RandomState} {entries : List (Value × Value)} (hnamed : Named entries)
      (hvalues : ∀ e ∈ entries, Document n e.2) : Document n (.map s entries)

namespace Document

variable {n m : Nat} {s : RandomState} {entries : List (Value × Value)} {items : List Value}
  {v : Value}

lemma mono (h : Document n v) (hle : n ≤ m) : Document m v := by
  induction h with
  | unit => exact unit
  | bool b => exact bool b
  | int i => exact int i
  | float bits => exact float bits
  | string s => exact string s
  | number o => exact number o
  | list hlength _ ih => exact list (by omega) ih
  | map hnamed _ ih => exact map hnamed ih

lemma named (h : Document n (.map s entries)) : Named entries := by
  cases h
  assumption

lemma values (h : Document n (.map s entries)) (he : e ∈ entries) : Document n e.2 := by
  cases h with
  | map _ hvalues => exact hvalues e he

lemma length_lt (h : Document n (.list items)) : items.length < n := by
  cases h
  assumption

lemma item (h : Document n (.list items)) (hv : v ∈ items) : Document n v := by
  cases h with
  | list _ hitems => exact hitems v hv

lemma member (h : Document n (.map s entries)) (hv : member entries name = some v) :
    Document n v := by
  obtain ⟨e, he, rfl⟩ := Option.map_eq_some_iff.mp hv
  exact h.values (mem_of_find?_eq_some he)

variable (env) in
lemma mapInsert (h : Document n (.map s entries)) (k : String) (hv : Document n v) :
    Document n (.map s (mapInsert env s entries (.string k) v)) := by
  apply map (h.named.mapInsert s k v)
  intro e he
  rcases mem_mapInsert he with heq | ⟨e', he', heq⟩
  · exact heq ▸ hv
  · exact heq ▸ h.values he'

variable (env) in
lemma mapRemove (h : Document n (.map s entries)) (k : Value) :
    Document n (.map s (mapRemove env s entries k)) :=
  map (h.named.mapRemove s k)
    (fun _ he => h.values ((mapRemove_sublist env s entries k).subset he))

lemma cloneItems_eq (h : ∀ v ∈ items, v.clone env = v) : cloneItems env items = items := by
  induction items with
  | nil => rfl
  | cons v items ih =>
    rw [cloneItems, h v mem_cons_self, ih (fun w hw => h w (mem_cons_of_mem _ hw))]

lemma cloneEntries_eq (hnamed : Named entries) (h : ∀ e ∈ entries, e.2.clone env = e.2) :
    cloneEntries env entries = entries := by
  induction entries with
  | nil => rfl
  | cons e entries ih =>
    obtain ⟨name, hname⟩ := hnamed.texts e mem_cons_self
    have hkey : e.1.clone env = e.1 := by simp [hname, clone]
    rw [cloneEntries, hkey, h e mem_cons_self,
      ih hnamed.tail (fun e he => h e (mem_cons_of_mem _ he))]

/-- A clone of a document is the document. -/
theorem clone_eq (h : Document n v) : v.clone env = v := by
  induction h with
  | list _ _ ih => rw [clone, cloneItems_eq ih]
  | map hnamed _ ih => rw [clone, cloneEntries_eq hnamed ih]
  | _ => simp [clone]

end Document

/-! ## The tree of a document -/

mutual

/-- A document up to the order of members. -/
def tree : Value → JsonTree Value
  | .unit => .null
  | .list items => .array (treeItems items)
  | .map _ entries => .object (treeMembers entries)
  | v => .scalar v

def treeItems : List Value → List (JsonTree Value)
  | [] => []
  | v :: items => tree v :: treeItems items

def treeMembers : List (Value × Value) → String → Option (JsonTree Value)
  | [], _ => none
  | (k, v) :: entries, name => if isName name k then some (tree v) else treeMembers entries name

end

lemma treeItems_eq (items : List Value) : treeItems items = items.map tree := by
  induction items with
  | nil => rfl
  | cons v items ih => rw [treeItems, ih, map_cons]

lemma treeMembers_eq (entries : List (Value × Value)) (name : String) :
    treeMembers entries name = (member entries name).map tree := by
  induction entries with
  | nil => rfl
  | cons e entries ih =>
    rw [treeMembers, member_cons, ih]
    split <;> rfl

@[simp]
lemma tree_unit : tree .unit = .null := by rw [tree]

lemma tree_eq_null_iff {v : Value} : tree v = .null ↔ v = .unit := by cases v <;> simp [tree]

lemma tree_list (items : List Value) : tree (.list items) = .array (items.map tree) := by
  rw [tree, treeItems_eq]

lemma tree_map (s : RandomState) (entries : List (Value × Value)) :
    tree (.map s entries) = .object (treeMembers entries) := by
  rw [tree]

theorem treeMembers_mapInsert (s : RandomState) (entries : List (Value × Value)) (k : String)
    (v : Value) : treeMembers (mapInsert env s entries (.string k) v) =
      Function.update (treeMembers entries) k (some (tree v)) := by
  ext1 name
  rw [treeMembers_eq, member_mapInsert, Function.update_apply, treeMembers_eq]
  split <;> rfl

theorem treeMembers_mapRemove (s : RandomState) {entries : List (Value × Value)}
    (h : Named entries) (k : String) : treeMembers (mapRemove env s entries (.string k)) =
      Function.update (treeMembers entries) k none := by
  ext1 name
  rw [treeMembers_eq, member_mapRemove s h, Function.update_apply, treeMembers_eq]
  split <;> rfl

end MuxRuntime
