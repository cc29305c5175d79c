import MuxRuntime.Json.Canonical
import MuxRuntime.Json.Comparing

/-!
# Documents as values and back

A number with a retained token becomes an object with a handle into the table of tokens. The
handles come from a counter that starts again when it is used up, so that they repeat only after
all handles have been given out.
-/

namespace MuxRuntime

open List Utf8 Value Loop
open JsonGrammar (NumberToken)

variable {env : Runtime}

/-! ## Handles -/

/-- How many handles there are. -/
def handleCount : Nat := 2 ^ 63 - 1

/-- The handle that is given out after `n` others, counted from the first. -/
def handleAt (n : Nat) : Nat := n % handleCount + 1

lemma handleAt_succ (n : Nat) :
    (if handleAt n + 1 < 2 ^ 63 then handleAt n + 1 else 1) = handleAt (n + 1) := by
  unfold handleAt handleCount
  split <;> omega

lemma handleAt_lt (n : Nat) : handleAt n < 2 ^ 63 := by
  unfold handleAt handleCount
  omega

variable {n : Nat}

/-- Handles repeat only after all others. -/
lemma handleAt_ne {m : Nat} (hlt : n < m) (hclose : m < n + handleCount) :
    handleAt n ≠ handleAt m := by
  unfold handleAt handleCount at *
  omega

lemma handleOfBytes_handleBytes {handle : Nat} (h : handle < 2 ^ 63) :
    handleOfBytes (handleBytes handle) = handle := by
  simp only [handleOfBytes, handleBytes, List.range, List.range.loop, map_cons, map_nil,
    foldr_cons, foldr_nil, UInt8.toNat_ofNat']
  omega

variable {T : JsonNumberType env} {h : JsonHeap}

lemma jsonNumberRaw_object {o : ObjectRef} {handle : Nat} {raw : List UInt8}
    (htype : o.typeId = T.id) (hdata : o.data = handleBytes handle) (hlt : handle < 2 ^ 63)
    (htable : h.jsonNumbers handle = some raw) : jsonNumberRaw T h (.object o) = some raw := by
  rw [jsonNumberRaw, jsonNumberHandle, hdata, handleOfBytes_handleBytes hlt, htable]
  simp [htype, htable]

/-! ## Conversions that can be read back -/

/-- Two tables agree on the handles that were given out between two counts. -/
def Agree (n n' : Nat) (later h : JsonHeap) : Prop :=
  ∀ i, n ≤ i → i < n' → later.jsonNumbers (handleAt i) = h.jsonNumbers (handleAt i)

/-- A conversion has given out the handles between two counts and left the others, and a later
table that agrees on them has what is to be read. -/
structure Converted (n n' : Nat) (h h' : JsonHeap) (reads : JsonHeap → Prop) : Prop where
  next : h'.nextJsonNumber = handleAt n'
  kept : ∀ handle, (∀ i, n ≤ i → i < n' → handleAt i ≠ handle) →
    h'.jsonNumbers handle = h.jsonNumbers handle
  reads : ∀ later, Agree n n' later h' → reads later

/-- A conversion without numbers. -/
lemma Converted.none {h' : JsonHeap} {reads : JsonHeap → Prop}
    (hnext : h.nextJsonNumber = handleAt n) (hsame : h'.nextJsonNumber = h.nextJsonNumber)
    (htable : h'.jsonNumbers = h.jsonNumbers) (hreads : ∀ later, reads later) :
    Converted n n h h' reads where
  next := hsame.trans hnext
  kept := fun handle _ => congrFun htable handle
  reads := fun later _ => hreads later

lemma Converted.mono {n' : Nat} {h' : JsonHeap} {reads reads' : JsonHeap → Prop}
    (hc : Converted n n' h h' reads) (himp : ∀ later, reads later → reads' later) :
    Converted n n' h h' reads' :=
  ⟨hc.next, hc.kept, fun later hagree => himp later (hc.reads later hagree)⟩

/-- One conversion after the other, with fewer numbers than there are handles. -/
lemma Converted.append {m k : Nat} {h₁ h₂ : JsonHeap} {first second : JsonHeap → Prop}
    (hfirst : Converted n m h h₁ first) (hsecond : Converted m k h₁ h₂ second) (hnm : n ≤ m)
    (hmk : m ≤ k) (hcount : k ≤ n + handleCount) :
    Converted n k h h₂ (fun later => first later ∧ second later) where
  next := hsecond.next
  kept := by
    intro handle hhandle
    rw [hsecond.kept handle (fun i hi hik => hhandle i (by omega) hik),
      hfirst.kept handle (fun i hi him => hhandle i hi (by omega))]
  reads := by
    intro later hagree
    refine ⟨hfirst.reads later ?_, hsecond.reads later ?_⟩
    · intro i hi him
      rw [hagree i hi (by omega)]
      apply hsecond.kept
      intro i' hi' hik'
      exact (handleAt_ne (by omega) (by omega)).symm
    · intro i hi hik
      exact hagree i (by omega) hik

lemma converted_number (raw : List UInt8) (hnext : h.nextJsonNumber = handleAt n) :
    Converted n (n + 1) h (jsonNumberValue T raw h).2
      (fun later => jsonNumberRaw T later (jsonNumberValue T raw h).1 = some raw) := by
  rw [jsonNumberValue_alloc]
  refine ⟨?_, ?_, ?_⟩
  · simp only [hnext]
    exact handleAt_succ n
  · intro handle hhandle
    apply Registry.insert_of_ne
    rw [hnext]
    exact (hhandle n (Nat.le_refl n) (Nat.lt_succ_self n)).symm
  intro later hagree
  apply jsonNumberRaw_object rfl rfl
  · rw [hnext]
    exact handleAt_lt n
  · rw [hnext, hagree n (Nat.le_refl n) (Nat.lt_succ_self n), ← hnext]
    exact Registry.insert_self

/-! ## From documents to values -/

/-- Documents with finite floats and distinct keys. -/
inductive Convertible : Json UInt64 → Prop
  | null : Convertible .null
  | bool (b : Bool) : Convertible (.bool b)
  | int (i : I64) : Convertible (.int i)
  | float {bits : UInt64} (hfinite : floatIsFinite bits = true) : Convertible (.float bits)
  | number (number : JsonNumber) : Convertible (.number number)
  | string (s : String) : Convertible (.string s)
  | array {values : List (Json UInt64)} (hvalues : ∀ v ∈ values, Convertible v) :
      Convertible (.array values)
  | object {values : List (String × Json UInt64)} (hkeys : AssocList.NodupKeys values)
      (hvalues : ∀ m ∈ values, Convertible m.2) : Convertible (.object values)

lemma I64.ofInt64_toInt64 (i : I64) : I64.ofInt64 i.toInt64 = i := by
  rcases i with ⟨val, hrange⟩
  simp only [I64.ofInt64, I64.toInt64, I64.mk.injEq]
  apply Int64.toInt_ofInt_of_le
  · exact hrange.1
  · exact hrange.2

variable (env) in
lemma mapInsert_absent {entries : List (Value × Value)} {k : String} (s : RandomState)
    (v : Value) (h : member entries k = none) :
    mapInsert env s entries (.string k) v = entries ++ [(.string k, v)] := by
  induction entries with
  | nil => rfl
  | cons e entries ih =>
    rw [member_cons] at h
    split_ifs at h with hname
    rw [mapInsert, keyMatches_string, if_neg hname, ih h, cons_append]

/-- The value of a document, the handles of its tokens and how it is read back. -/
def ConvertsBack (T : JsonNumberType env) (j : Json UInt64) : Prop :=
  ∀ (h : JsonHeap) (n : Nat), h.nextJsonNumber = handleAt n → Convertible j →
    j.tokens.length ≤ handleCount →
    Converted n (n + j.tokens.length) h (jsonToValue T j h).2
      (fun later => valueToJson T later (jsonToValue T j h).1 = .ok j)

lemma converted_items {values : List (Json UInt64)} (ih : ∀ v ∈ values, ConvertsBack T v)
    (hnext : h.nextJsonNumber = handleAt n) (hvalues : ∀ v ∈ values, Convertible v)
    (hcount : (tokensItems values).length ≤ handleCount) :
    Converted n (n + (tokensItems values).length) h (jsonToItems T values h).2
      (fun later => itemsToJson T later (jsonToItems T values h).1 = .ok values) := by
  induction values generalizing h n with
  | nil => exact .none hnext rfl rfl (fun _ => rfl)
  | cons value values ihlist => ?_
  rw [forall_mem_cons] at ih hvalues
  rw [tokensItems, length_append] at hcount ⊢
  have hfirst := ih.1 h n hnext hvalues.1 (by omega)
  have hrest := ihlist ih.2 hfirst.next hvalues.2 (by omega)
  rw [Nat.add_assoc] at hrest
  refine (hfirst.append hrest (by omega) (by omega) (by omega)).mono ?_
  intro later hreads
  simp only [jsonToItems, itemsToJson, hreads.1, hreads.2]
  rfl

lemma converted_entries {members : List (String × Json UInt64)}
    (ih : ∀ m ∈ members, ConvertsBack T m.2) (hnext : h.nextJsonNumber = handleAt n)
    (hvalues : ∀ m ∈ members, Convertible m.2) (hkeys : AssocList.NodupKeys members)
    (hcount : (tokensMembers members).length ≤ handleCount) (s : RandomState)
    {map : List (Value × Value)} (habsent : ∀ m ∈ members, member map m.1 = none) :
    ∃ entries, (jsonToEntries T s members map h).1 = map ++ entries ∧
      Converted n (n + (tokensMembers members).length) h (jsonToEntries T s members map h).2
        (fun later => ∀ done, AssocList.NodupKeys (done ++ members) →
          entriesToJson T later entries done = .ok (done ++ members)) := by
  induction members generalizing h n map with
  | nil =>
    refine ⟨[], (append_nil map).symm, .none hnext rfl rfl ?_⟩
    intro later done _
    rw [entriesToJson, append_nil]
  | cons m members ihlist => ?_
  rw [forall_mem_cons] at ih hvalues habsent
  rw [tokensMembers, length_append] at hcount ⊢
  have hkeys' := pairwise_cons.mp hkeys
  have hfirst := ih.1 h n hnext hvalues.1 (by omega)
  have hinsert := mapInsert_absent env s (jsonToValue T m.2 h).1 habsent.1
  have hstill : ∀ m' ∈ members,
      member (mapInsert env s map (.string m.1) (jsonToValue T m.2 h).1) m'.1 = none := by
    intro m' hm'
    have hne : m'.1 ≠ m.1 := by
      intro heq
      have := hkeys'.1 m' hm'
      simp [heq] at this
    rw [member_mapInsert, if_neg hne]
    exact habsent.2 m' hm'
  rcases ihlist ih.2 hfirst.next hvalues.2 hkeys'.2 (by omega) hstill with
    ⟨entries, hentries, hrest⟩
  rw [Nat.add_assoc] at hrest
  refine ⟨(.string m.1, (jsonToValue T m.2 h).1) :: entries, ?_,
    (hfirst.append hrest (by omega) (by omega) (by omega)).mono ?_⟩
  · rw [jsonToEntries, hentries, hinsert, append_assoc]
    rfl
  intro later hreads done hdone
  have hnot : AssocList.contains done m.1 = false := by
    rw [AssocList.contains_eq_false_iff]
    intro e he
    exact (pairwise_append.mp hdone).2.2 e he m mem_cons_self
  rw [append_cons] at hdone
  rw [entriesToJson]
  simp only [hreads.1, bind, Except.bind]
  rw [AssocList.insert_eq_append hnot, hreads.2 _ hdone, append_assoc]
  rfl

/-- The value of a document can be read back, also from a later table that still has its tokens. -/
theorem converted_jsonToValue (j : Json UInt64) : ConvertsBack T j := by
  induction j using Json.induction with
  | null | bool b | string s => exact fun h n hnext _ _ => .none hnext rfl rfl (fun _ => rfl)
  | int i =>
    intro h n hnext _ _
    refine .none hnext rfl rfl (fun later => ?_)
    rw [jsonToValue, valueToJson, I64.ofInt64_toInt64]
  | float bits =>
    intro h n hnext hj _
    cases hj with
    | float hfinite =>
      refine .none hnext rfl rfl (fun later => ?_)
      rw [jsonToValue, valueToJson, if_pos hfinite]
  | number number =>
    intro h n hnext _ _
    refine (converted_number number.raw hnext).mono ?_
    intro later hraw
    rw [jsonNumberValue_alloc] at hraw
    rw [jsonToValue, jsonNumberValue_alloc]
    simp only [valueToJson, hraw]
  | array values ih =>
    intro h n hnext hj hcount
    cases hj with
    | array hvalues =>
      refine (converted_items ih hnext hvalues hcount).mono ?_
      intro later hreads
      rw [jsonToValue]
      simp only [valueToJson, hreads, bind, Except.bind]
  | object values ih => ?_
  intro h n hnext hj hcount
  cases hj with
  | object hkeys hvalues => ?_
  have hempty : ∀ m ∈ values, member [] m.1 = none := fun _ _ => rfl
  rcases converted_entries (h := { h with heap := h.heap.newHasher.2 }) ih hnext hvalues
    hkeys hcount h.heap.newHasher.1 hempty with ⟨entries, hentries, hc⟩
  refine ⟨hc.next, hc.kept, fun later hagree => ?_⟩
  have hreads := hc.reads later hagree [] hkeys
  rw [jsonToValue]
  simp only [hentries, nil_append] at hreads ⊢
  simp only [valueToJson, hreads, bind, Except.bind]

/-- A document with finite floats, distinct keys and fewer number tokens than there are handles is
given back by the two conversions. -/
theorem valueToJson_jsonToValue {j : Json UInt64} (hj : Convertible j)
    (hnext : 1 ≤ h.nextJsonNumber ∧ h.nextJsonNumber < 2 ^ 63)
    (hcount : j.tokens.length ≤ handleCount) :
    valueToJson T (jsonToValue T j h).2 (jsonToValue T j h).1 = .ok j := by
  have hat : h.nextJsonNumber = handleAt (h.nextJsonNumber - 1) := by
    unfold handleAt handleCount
    omega
  exact (converted_jsonToValue j h _ hat hj hcount).reads _ (fun _ _ _ => rfl)

/-! ## From values to documents -/

mutual

/-- What is accepted as a document has finite floats and distinct keys. -/
lemma convertible_valueToJson {h : JsonHeap} (v : Value) {j : Json UInt64}
    (hv : valueToJson T h v = .ok j) : Convertible j := by
  cases v with
  | unit =>
    cases hv
    exact .null
  | bool b =>
    cases hv
    exact .bool b
  | int i =>
    cases hv
    exact .int _
  | string s =>
    cases hv
    exact .string s
  | float bits =>
    rw [valueToJson] at hv
    split_ifs at hv with hfinite
    cases hv
    exact .float hfinite
  | object o =>
    rw [valueToJson] at hv
    split at hv
    · cases hv
      exact .number _
    · cases hv
  | list items =>
    rw [valueToJson] at hv
    rcases bind_eq_ok hv with ⟨values, hvalues, heq⟩
    cases heq
    exact .array (convertible_itemsToJson items hvalues)
  | map s entries =>
    rw [valueToJson] at hv
    rcases bind_eq_ok hv with ⟨members, hmembers, heq⟩
    cases heq
    have hall := convertible_entriesToJson entries hmembers List.Pairwise.nil
      (forall_mem_nil _)
    exact .object hall.1 hall.2
  | bytes | set | tuple | optional | result | opaqueBytes | boxedEnum => cases hv

lemma convertible_itemsToJson {h : JsonHeap} (items : List Value)
    {values : List (Json UInt64)} (hv : itemsToJson T h items = .ok values) :
    ∀ v ∈ values, Convertible v := by
  cases items with
  | nil =>
    cases hv
    exact forall_mem_nil _
  | cons v items => ?_
  rw [itemsToJson] at hv
  rcases bind_eq_ok hv with ⟨j, hj, hv⟩
  rcases bind_eq_ok hv with ⟨rest, hrest, heq⟩
  cases heq
  exact forall_mem_cons.mpr
    ⟨convertible_valueToJson v hj, convertible_itemsToJson items hrest⟩

lemma convertible_entriesToJson {h : JsonHeap} (entries : List (Value × Value))
    {done members : List (String × Json UInt64)}
    (hv : entriesToJson T h entries done = .ok members) (hkeys : AssocList.NodupKeys done)
    (hdone : ∀ m ∈ done, Convertible m.2) :
    AssocList.NodupKeys members ∧ ∀ m ∈ members, Convertible m.2 := by
  cases entries with
  | nil =>
    cases hv
    exact ⟨hkeys, hdone⟩
  | cons e entries => ?_
  rcases e with ⟨k, v⟩
  cases k with
  | string key =>
    rw [entriesToJson] at hv
    rcases bind_eq_ok hv with ⟨j, hj, hv⟩
    refine convertible_entriesToJson entries hv (hkeys.insert key j) ?_
    intro m hm
    rcases AssocList.mem_insert hm with heq | hm
    · rw [heq]
      exact convertible_valueToJson v hj
    · exact hdone m hm
  | unit | bool | int | float | list | bytes | map | set | tuple | optional | result | object
    | opaqueBytes | boxedEnum => cases hv

end

/-- `mux_json_stringify` of a value. -/
def jsonStringify (S : Serde UInt64) (T : JsonNumberType env) (indent : Option Nat) (h : JsonHeap)
    (v : Value) : Except String (List UInt8) :=
  (valueToJson T h v).map (Json.stringify S indent)

/-- A document with finite floats and distinct keys is given back, with its member order and its
number tokens; and a value that is accepted as a document, and the value of that document, have
the same text. -/
theorem conversions_round_trip (S : Serde UInt64) (h : JsonHeap)
    (hnext : 1 ≤ h.nextJsonNumber ∧ h.nextJsonNumber < 2 ^ 63) (j : Json UInt64)
    (hcount : j.tokens.length ≤ handleCount) : (Convertible j →
      valueToJson T (jsonToValue T j h).2 (jsonToValue T j h).1 = .ok j) ∧
    ∀ (v : Value) (indent : Option Nat), valueToJson T h v = .ok j →
      jsonStringify S T indent (jsonToValue T j h).2 (jsonToValue T j h).1 =
        jsonStringify S T indent h v := by
  refine ⟨fun hj => valueToJson_jsonToValue hj hnext hcount, ?_⟩
  intro v indent hv
  rw [jsonStringify, jsonStringify, hv,
    valueToJson_jsonToValue (convertible_valueToJson v hv) hnext hcount]

/-- A token that fits no machine number, and a member behind it. -/
theorem large_token_round_trips :
    let j : Json UInt64 := .object [("a", .number ⟨ascii "1e400"⟩), ("b", .bool true)]
    Convertible j ∧ valueToJson sampleNumberType (jsonToValue sampleNumberType j .initial).2
      (jsonToValue sampleNumberType j .initial).1 = .ok j := by
  intro j
  have hj : Convertible j := by
    refine .object (by simp [AssocList.NodupKeys]) ?_
    intro m hm
    rcases mem_cons.mp hm with rfl | hm
    · exact .number _
    · rw [mem_singleton.mp hm]
      exact .bool true
  exact ⟨hj, (conversions_round_trip hundredSerde .initial ⟨by decide, by decide⟩ j
    (by decide)).1 hj⟩

end MuxRuntime
