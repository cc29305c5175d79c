import MuxRuntime.Json.Patching

/-!
# Laws of changes through pointers

What is added at a new place can be removed again, at any depth.
-/

namespace MuxRuntime

open Value

variable {env : Runtime} {v c c' addition : Value} {token : String} {tokens : List String}
  {s : RandomState} {entries : List (Value × Value)}

/-! ## A child and the value around it -/

lemma mapInsert_mapInsert (name : String) (hget : member entries name = some c) (c' : Value) :
    mapInsert env s (mapInsert env s entries (.string name) c') (.string name) c = entries := by
  induction entries with
  | nil => cases hget
  | cons e entries ih => ?_
  rw [member_cons] at hget
  rw [mapInsert, keyMatches_string]
  by_cases hname : isName name e.1 = true
  · rw [if_pos hname] at hget
    cases hget
    rw [if_pos hname, mapInsert, keyMatches_string, if_pos hname]
  · rw [if_neg hname] at hget ⊢
    rw [mapInsert, keyMatches_string, if_neg hname, ih hget]

lemma mapRemove_mapInsert (name : String) (hget : member entries name = none) (c' : Value) :
    mapRemove env s (mapInsert env s entries (.string name) c') (.string name) = entries := by
  induction entries with
  | nil => simp [mapInsert, mapRemove, keyMatches_string, isName]
  | cons e entries ih => ?_
  rw [member_cons] at hget
  rw [mapInsert, keyMatches_string]
  by_cases hname : isName name e.1 = true
  · rw [if_pos hname] at hget
    cases hget
  · rw [if_neg hname] at hget ⊢
    rw [mapRemove, keyMatches_string, if_neg hname, ih hget]

/-- A child that was put is found there, and the old one can be put back. -/
lemma stepChild_putChild (hstep : stepChild env v token = some c) (c' : Value) :
    stepChild env (putChild env v token c') token = some c' ∧
      putChild env (putChild env v token c') token c = v := by
  rcases stepChild_cases hstep with ⟨s, entries, rfl, hget⟩ | ⟨items, i, rfl, hindex, rfl⟩
  · rw [mapGet_string] at hget
    rw [putChild, stepChild, putChild, mapGet_string, member_mapInsert, if_pos rfl,
      mapInsert_mapInsert token hget]
    exact ⟨rfl, rfl⟩
  have hread := pointerIndex_eq_some_iff.mp hindex
  have hlt : i.val < (items.set i c').length := by
    rw [List.length_set]
    exact i.isLt
  have hset : pointerIndex token (items.set i c').length false = .ok (some ⟨i, hlt⟩) :=
    pointerIndex_eq_some_iff.mpr hread
  simp [putChild, hindex, stepChild, hset]

/-! ## Adding and removing -/

/-- The last step names a member that is not there, or an index and not the place after the
last item. -/
inductive NewPlace (env : Runtime) : Value → List String → Prop
  | member {s : RandomState} {entries : List (Value × Value)} {token : String}
      (habsent : mapGet env (eq env) s entries (.string token) = none) :
      NewPlace env (.map s entries) [token]
  | index {items : List Value} {token : String} (hdash : token ≠ "-") :
      NewPlace env (.list items) [token]
  | child {v c : Value} {token next : String} {rest : List String}
      (hstep : stepChild env v token = some c) (h : NewPlace env c (next :: rest)) :
      NewPlace env v (token :: next :: rest)

lemma pointerRemove_cons {next : String} {rest : List String} {removed c' : Value}
    (hstep : stepChild env v token = some c)
    (h : pointerRemove env c (next :: rest) = .ok (removed, c')) :
    pointerRemove env v (token :: next :: rest) = .ok (removed, putChild env v token c') := by
  rcases stepChild_cases hstep with ⟨s, entries, rfl, hget⟩ | ⟨items, i, rfl, hindex, rfl⟩
  · simp [pointerRemove, hget, h, putChild]
  · simp [-List.get_eq_getElem, pointerRemove, hindex, h, putChild]

/-- Removing what was added gives it back and restores the document. -/
theorem pointerRemove_pointerAdd {n : Nat} {document result : Value} (ha : Document n addition)
    (hplace : NewPlace env document tokens)
    (h : pointerAdd env document tokens addition = .ok result) :
    pointerRemove env result tokens = .ok (addition, document) := by
  induction hplace generalizing result with
  | @member s entries token habsent =>
    rw [mapGet_string] at habsent
    rw [pointerAdd, ha.clone_eq] at h
    cases h
    rw [pointerRemove, mapGet_string, member_mapInsert, if_pos rfl]
    simp [mapRemove_mapInsert token habsent]
  | @index items token hdash =>
    rw [pointerAdd, ha.clone_eq, insertItem] at h
    rcases hindex : insertIndex token items.length with _ | place
    · simp [hindex, Except.map] at h
    rcases place with _ | i
    · exact absurd (insertIndex_eq_none_iff.mp hindex) hdash
    simp only [hindex, Except.map] at h
    cases h
    obtain ⟨hread, hbound, hle⟩ := insertIndex_eq_some_iff.mp hindex
    have hlt : i < (items.insertIdx i addition).length := by
      rw [List.length_insertIdx, if_pos hle]
      omega
    have hremove : pointerIndex token (items.insertIdx i addition).length false =
        .ok (some ⟨i, hlt⟩) := pointerIndex_eq_some_iff.mpr ⟨hread, hbound⟩
    simp [pointerRemove, hremove, List.eraseIdx_insertIdx_self]
  | @child v c token next rest hstep hplace ih => ?_
  have hadd : (pointerAdd env v (token :: next :: rest) addition).toOption = _ :=
    walk_cons .add (by simp) addition v token next rest
  rw [h, hstep, Option.bind_some] at hadd
  obtain ⟨c', hc', rfl⟩ := Option.map_eq_some_iff.mp hadd.symm
  rcases hrun : pointerAdd env c (next :: rest) addition with _ | r
  · simp [PointerOp.run, hrun, Except.toOption] at hc'
  simp only [PointerOp.run, hrun, Except.toOption, Option.some.injEq] at hc'
  subst hc'
  obtain ⟨hfound, hback⟩ := stepChild_putChild hstep r
  rw [pointerRemove_cons hfound (ih hrun), hback]

theorem pointerRemove_pointerAdd_sample :
    let document := Value.map ⟨0, 0⟩ [(.string "a", .list [.int 1])]
    pointerAdd sampleJsonRuntime document ["a", "0"] (.int 2) =
        .ok (.map ⟨0, 0⟩ [(.string "a", .list [.int 2, .int 1])]) ∧
      pointerRemove sampleJsonRuntime (.map ⟨0, 0⟩ [(.string "a", .list [.int 2, .int 1])]) ["a", "0"] =
        .ok (.int 2, document) :=
  ⟨rfl, pointerRemove_pointerAdd (Document.int (n := 0) 2) (.child rfl (.index (by decide))) rfl⟩

end MuxRuntime
