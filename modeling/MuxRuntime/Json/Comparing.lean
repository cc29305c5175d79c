import Mathlib
import MuxRuntime.Json.Documents
import MuxRuntime.Json.Numbers

/-!
# The test operation of a patch

A test compares the located value with the given one by the equality of runtime values.
Two numbers are equal there only if both are integers or both are floats; a retained
token is an object, which is equal to itself only.
-/

namespace MuxRuntime

open List Utf8 JsonTree Value
open JsonGrammar (NumberToken blank_nil)

variable {env : Runtime}

/-! ## Numbers -/

def digitsNumber (digits : List UInt8) : Nat :=
  digits.foldl (fun n b => n * 10 + (b.toNat - 48)) 0

/-- The exponent of a number, from the letter on. -/
def exponentValue (text : List UInt8) : Int :=
  match text.drop 1 with
  | [] => 0
  | b :: digits =>
    if b == byte '-' then -digitsNumber digits
    else if b == byte '+' then digitsNumber digits
    else digitsNumber (b :: digits)

/-- The number that a JSON number token stands for. -/
def numericValue (token : List UInt8) : ℚ :=
  let isNegative := token.head? == some (byte '-')
  let body := if isNegative then token.drop 1 else token
  let whole := body.takeWhile isAsciiDigit
  let rest := body.dropWhile isAsciiDigit
  let hasFraction := rest.head? == some (byte '.')
  let fraction := if hasFraction then (rest.drop 1).takeWhile isAsciiDigit else []
  let rest := if hasFraction then (rest.drop 1).dropWhile isAsciiDigit else rest
  let magnitude : ℚ :=
    digitsNumber (whole ++ fraction) * 10 ^ (exponentValue rest - fraction.length)
  if isNegative then -magnitude else magnitude

/-- Finite floats are equal exactly when their texts denote the same number. -/
def FloatsByText (env : Runtime) (S : Serde UInt64) : Prop :=
  ∀ a b, S.isFinite a = true → S.isFinite b = true →
    (env.floatEq a b = true ↔ numericValue (S.displayNumber (.float a)) =
      numericValue (S.displayNumber (.float b)))

variable (S : Serde UInt64) (T : JsonNumberType env) (h : JsonHeap)

/-- The number that a value is, with retained tokens read from the table. -/
def numeric : Value → Option ℚ
  | .int i => some i.toInt
  | .float bits => some (numericValue (S.displayNumber (.float bits)))
  | v => (jsonNumberRaw T h v).map numericValue

/-- Numbers are the same if they are numerically equal. -/
def SameScalar (a b : Value) : Prop :=
  match numeric S T h a, numeric S T h b with
  | some x, some y => x = y
  | none, none => a = b
  | _, _ => False

/-- The two values are stored in the same way, and neither retains a number token. -/
def StoredAlike : Value → Value → Prop
  | .bool _, .bool _ => True
  | .int _, .int _ => True
  | .float _, .float _ => True
  | .string _, .string _ => True
  | _, _ => False

/-! ## Parsed values -/

/-- Values with finite floats, and with number objects between two addresses. -/
inductive Parsed (lo hi : Nat) : Value → Prop
  | unit : Parsed lo hi .unit
  | bool (b : Bool) : Parsed lo hi (.bool b)
  | int (i : Int64) : Parsed lo hi (.int i)
  | float {bits : UInt64} (hfinite : S.isFinite bits = true) : Parsed lo hi (.float bits)
  | string (s : String) : Parsed lo hi (.string s)
  | number {o : ObjectRef} (htype : o.typeId = T.id) (hlo : lo ≤ o.ptr) (hhi : o.ptr < hi) :
      Parsed lo hi (.object o)
  | list {items : List Value} (hitems : ∀ v ∈ items, Parsed lo hi v) : Parsed lo hi (.list items)
  | map {s : RandomState} {entries : List (Value × Value)} (hnamed : Named entries)
      (hvalues : ∀ e ∈ entries, Parsed lo hi e.2) : Parsed lo hi (.map s entries)

variable {S T h} {lo hi lo' hi' : Nat} {u v : Value}

lemma Parsed.mono (hp : Parsed S T lo hi v) (hlo : lo' ≤ lo) (hhi : hi ≤ hi') :
    Parsed S T lo' hi' v := by
  induction hp with
  | unit => exact .unit
  | bool b => exact .bool b
  | int i => exact .int i
  | float hfinite => exact .float hfinite
  | string s => exact .string s
  | number htype hfrom hto => exact .number htype (by omega) (by omega)
  | list _ ih => exact .list ih
  | map hnamed _ ih => exact .map hnamed ih

lemma exists_bound {ι : Type} {l : List ι} {f : ι → Value}
    (hall : ∀ x ∈ l, ∃ n, Document n (f x)) : ∃ n, ∀ x ∈ l, Document n (f x) := by
  induction l with
  | nil => exact ⟨0, by simp⟩
  | cons x l ih => ?_
  obtain ⟨n, hn⟩ := hall x mem_cons_self
  obtain ⟨m, hm⟩ := ih (fun y hy => hall y (mem_cons_of_mem _ hy))
  refine ⟨max n m, ?_⟩
  intro y hy
  rcases mem_cons.mp hy with rfl | hy
  · exact hn.mono (le_max_left _ _)
  · exact (hm y hy).mono (le_max_right _ _)

lemma Parsed.exists_document (hp : Parsed S T lo hi v) : ∃ n, Document n v := by
  induction hp with
  | unit => exact ⟨0, .unit⟩
  | bool b => exact ⟨0, .bool b⟩
  | int i => exact ⟨0, .int i⟩
  | float _ => exact ⟨0, .float _⟩
  | string s => exact ⟨0, .string s⟩
  | number => exact ⟨0, .number _⟩
  | @list items _ ih =>
    obtain ⟨n, hn⟩ := exists_bound ih
    exact ⟨max n (items.length + 1), .list (by omega)
      (fun v hv => (hn v hv).mono (le_max_left _ _))⟩
  | map hnamed _ ih =>
    obtain ⟨n, hn⟩ := exists_bound ih
    exact ⟨n, .map hnamed hn⟩

/-- A number with a retained token gets the next address. -/
lemma jsonNumberValue_alloc (raw : List UInt8) (h : JsonHeap) : jsonNumberValue T raw h =
      (.object { ptr := h.heap.next, typeId := T.id, data := handleBytes h.nextJsonNumber },
        { heap := { h.heap with next := h.heap.next + 1 }
          nextJsonNumber := if h.nextJsonNumber + 1 < 2 ^ 63 then h.nextJsonNumber + 1 else 1
          jsonNumbers := h.jsonNumbers.insert h.nextJsonNumber raw }) := by
  have halloc : allocObject env h.heap T.id =
      (some { ptr := h.heap.next, typeId := T.id, data := [] },
        { h.heap with next := h.heap.next + 1 }) := by
    rw [allocObject, T.registered]
    rfl
  simp only [jsonNumberValue, halloc]

mutual

/-- A parsed value holds objects with addresses that were unused before. -/
theorem parsed_jsonToValue (hS : S.Documented) (d : JsonGrammar.Doc) (h : JsonHeap) :
    Parsed S T h.heap.next (jsonToValue T (toJson S d) h).2.heap.next
        (jsonToValue T (toJson S d) h).1 ∧
      h.heap.next ≤ (jsonToValue T (toJson S d) h).2.heap.next := by
  cases d with
  | null => exact ⟨.unit, le_refl _⟩
  | bool b => exact ⟨.bool b, le_refl _⟩
  | string s => exact ⟨.string s, le_refl _⟩
  | number token =>
    rw [toJson]
    have hclass := classified_parsedNumber hS.real hS.asF64_float hS.serialize token
    generalize parsedNumber S token = j at hclass ⊢
    cases hclass with
    | int => exact ⟨.int _, le_refl _⟩
    | float hreal hfinite => exact ⟨.float hfinite, le_refl _⟩
    | number =>
      rw [jsonToValue, jsonNumberValue_alloc]
      exact ⟨.number rfl (le_refl _) (Nat.lt_succ_self _), Nat.le_succ _⟩
  | array items =>
    obtain ⟨hitems, hle⟩ := parsed_jsonToItems hS items h
    exact ⟨.list hitems, hle⟩
  | object members =>
    obtain ⟨hnamed, hvalues, hle⟩ := parsed_jsonToEntries hS members h.heap.newHasher.1 []
      { h with heap := h.heap.newHasher.2 } h.heap.next Named.nil (by simp) (le_refl _)
    exact ⟨.map hnamed hvalues, hle⟩

lemma parsed_jsonToItems (hS : S.Documented) (items : List JsonGrammar.Doc) (h : JsonHeap) :
    (∀ v ∈ (jsonToItems T (toJsonItems S items) h).1,
        Parsed S T h.heap.next (jsonToItems T (toJsonItems S items) h).2.heap.next v) ∧
      h.heap.next ≤ (jsonToItems T (toJsonItems S items) h).2.heap.next := by
  rcases items with _ | ⟨d, items⟩
  · exact ⟨by simp [toJsonItems, jsonToItems], le_refl _⟩
  obtain ⟨hfirst, hle⟩ := parsed_jsonToValue hS d h
  obtain ⟨hrest, hle'⟩ := parsed_jsonToItems hS items (jsonToValue T (toJson S d) h).2
  simp only [toJsonItems, jsonToItems, mem_cons, forall_eq_or_imp]
  exact ⟨⟨hfirst.mono (le_refl _) hle', fun v hv => (hrest v hv).mono hle (le_refl _)⟩,
    le_trans hle hle'⟩

lemma parsed_jsonToEntries (hS : S.Documented) (members : List (String × JsonGrammar.Doc))
    (s : RandomState) (entries : List (Value × Value)) (h : JsonHeap) (lo : Nat)
    (hnamed : Named entries) (hvalues : ∀ e ∈ entries, Parsed S T lo h.heap.next e.2) (hlo : lo ≤ h.heap.next) :
    Named (jsonToEntries T s (toJsonMembers S members) entries h).1 ∧
      (∀ e ∈ (jsonToEntries T s (toJsonMembers S members) entries h).1,
        Parsed S T lo (jsonToEntries T s (toJsonMembers S members) entries h).2.heap.next e.2) ∧
      h.heap.next ≤ (jsonToEntries T s (toJsonMembers S members) entries h).2.heap.next := by
  rcases members with _ | ⟨m, members⟩
  · exact ⟨hnamed, hvalues, le_refl _⟩
  obtain ⟨hfirst, hle⟩ := parsed_jsonToValue hS m.2 h
  obtain ⟨hnamed', hvalues', hle'⟩ := parsed_jsonToEntries hS members s
    (mapInsert env s entries (.string m.1) (jsonToValue T (toJson S m.2) h).1)
    (jsonToValue T (toJson S m.2) h).2 lo (hnamed.mapInsert s m.1 _)
    (by
      intro e he
      rcases mem_mapInsert he with heq | ⟨e', he', heq⟩
      · exact heq ▸ hfirst.mono hlo (le_refl _)
      · exact heq ▸ (hvalues e' he').mono (le_refl _) hle)
    (le_trans hlo hle)
  exact ⟨hnamed', hvalues', le_trans hle hle'⟩

end

/-! ## Maps compared by members -/

variable {entries : List (Value × Value)}

lemma string_mem_keys_iff {name : String} :
    .string name ∈ entries.map Prod.fst ↔ (member entries name).isSome = true := by
  rw [← not_iff_not, ← member_eq_none_iff]
  simp

lemma member_of_mem (hnamed : Named entries) {e : Value × Value} (he : e ∈ entries)
    {name : String} (hname : e.1 = .string name) : member entries name = some e.2 := by
  induction entries with
  | nil => cases he
  | cons e' entries ih => ?_
  rw [member_cons]
  rcases mem_cons.mp he with rfl | he'
  · rw [if_pos (isName_iff.mpr hname)]
  have hdistinct := hnamed.distinct
  rw [map_cons, nodup_cons] at hdistinct
  have hother : ¬ isName name e'.1 = true := by
    intro hsame
    apply hdistinct.1
    rw [isName_iff.mp hsame, ← hname]
    exact mem_map_of_mem he'
  rw [if_neg hother]
  exact ih hnamed.tail he'

/-- Two maps of one size, in which every entry of the first is found in the second. -/
lemma members_related_iff {a b : List (Value × Value)} (ha : Named a) (hb : Named b)
    (P : Value → Value → Prop) : (a.length = b.length ∧ ∀ e ∈ a, ∀ name, e.1 = .string name →
        ∃ w, member b name = some w ∧ P e.2 w) ↔
      ∀ name, Option.Rel P (member a name) (member b name) := by
  constructor
  · rintro ⟨hlength, hfound⟩ name
    have hsub : a.map Prod.fst ⊆ b.map Prod.fst := by
      intro k hk
      obtain ⟨e, he, rfl⟩ := mem_map.mp hk
      obtain ⟨name, hname⟩ := ha.texts e he
      obtain ⟨w, hw, -⟩ := hfound e he name hname
      rw [hname, string_mem_keys_iff, hw]
      rfl
    -- Both lists of keys have no repetition and one length.
    have hperm : (a.map Prod.fst).Perm (b.map Prod.fst) :=
      (subperm_of_subset ha.distinct hsub).perm_of_length_le (by simp [hlength])
    cases hmember : member a name with
    | none =>
      have habsent : .string name ∉ b.map Prod.fst := by
        rw [← hperm.mem_iff]
        exact member_eq_none_iff.mp hmember
      rw [member_eq_none_iff.mpr habsent]
      exact .none
    | some x => ?_
    obtain ⟨e, he, rfl⟩ := Option.map_eq_some_iff.mp hmember
    have hname : e.1 = .string name := by
      have hfirst := List.find?_some he
      exact isName_iff.mp hfirst
    obtain ⟨w, hw, hP⟩ := hfound e (mem_of_find?_eq_some he) name hname
    rw [hw]
    exact .some hP
  · intro hrel
    have hkeys : ∀ k, k ∈ a.map Prod.fst ↔ k ∈ b.map Prod.fst := by
      have hname : ∀ name : String, .string name ∈ a.map Prod.fst ↔
          .string name ∈ b.map Prod.fst := by
        intro name
        rw [string_mem_keys_iff, string_mem_keys_iff]
        have hrelated := hrel name
        generalize member a name = x at hrelated ⊢
        generalize member b name = y at hrelated ⊢
        cases hrelated <;> rfl
      intro k
      constructor
      · intro hk
        obtain ⟨e, he, rfl⟩ := mem_map.mp hk
        obtain ⟨name, htext⟩ := ha.texts e he
        rw [htext] at hk ⊢
        exact (hname name).mp hk
      · intro hk
        obtain ⟨e, he, rfl⟩ := mem_map.mp hk
        obtain ⟨name, htext⟩ := hb.texts e he
        rw [htext] at hk ⊢
        exact (hname name).mpr hk
    have hperm := (perm_ext_iff_of_nodup ha.distinct hb.distinct).mpr hkeys
    refine ⟨by simpa using hperm.length_eq, ?_⟩
    intro e he name hname
    have hmember := member_of_mem ha he hname
    have hrel' := hrel name
    rw [hmember] at hrel'
    cases hw : member b name with
    | none =>
      rw [hw] at hrel'
      cases hrel'
    | some w =>
      rw [hw] at hrel'
      cases hrel' with
      | some hP => exact ⟨w, rfl, hP⟩

lemma eq_map_iff_members {s s' : RandomState} {a b : List (Value × Value)} (ha : Named a)
    (hb : Named b) : eq env (.map s a) (.map s' b) = true ↔
      ∀ name, Option.Rel (fun x y => eq env y x = true) (member a name) (member b name) := by
  rw [eq_unfold, eqWith, Bool.and_eq_true, beq_iff_eq, all_eq_true, ← members_related_iff ha hb]
  apply and_congr_right
  intro _
  apply forall₂_congr
  intro e he
  obtain ⟨name, hname⟩ := ha.texts e he
  rw [hname, mapGet_string, Option.any_eq_true]
  constructor
  · rintro ⟨w, hw, heq⟩ name' hname'
    cases hname'
    exact ⟨w, hw, heq⟩
  · intro hfound
    exact hfound name rfl

/-! ## The runtime's equality and the standard's -/

lemma forall₂_congr_mem {α β : Type} {P Q : α → β → Prop} {l : List α} {l' : List β}
    (hiff : ∀ a ∈ l, ∀ b ∈ l', P a b ↔ Q a b) : List.Forall₂ P l l' ↔ List.Forall₂ Q l l' := by
  induction l generalizing l' with
  | nil => simp
  | cons a l ih => ?_
  cases l' with
  | nil => simp
  | cons b l' =>
    rw [forall₂_cons, forall₂_cons, hiff a mem_cons_self b mem_cons_self,
      ih (fun x hx y hy => hiff x (mem_cons_of_mem _ hx) y (mem_cons_of_mem _ hy))]

/-- Objects of the number type are equal to themselves only. -/
lemma eq_number_iff {a b : ObjectRef} (ha : a.typeId = T.id) (hb : b.typeId = T.id) :
    eq env (.object a) (.object b) = true ↔ a.ptr = b.ptr := by
  have hidentity : contentEquality env a.typeId = none := by
    rw [contentEquality, ha, T.registered]
    rfl
  have hobject : eq env (.object a) (.object b) = objectEq env a b := by rfl
  rw [hobject, objectEq_of_identity (ha.trans hb.symm) hidentity, beq_iff_eq]

/-- Equal numbers that are stored alike. -/
def EqualStored (S : Serde UInt64) (T : JsonNumberType env) (h : JsonHeap) (a b : Value) : Prop :=
  SameScalar S T h a b ∧ StoredAlike a b

lemma EqualStored.symm {a b : Value} (hab : EqualStored S T h a b) : EqualStored S T h b a := by
  rcases hab with ⟨hsame, hstored⟩
  refine ⟨?_, by cases a <;> cases b <;> exact hstored⟩
  unfold SameScalar at hsame ⊢
  cases ha : numeric S T h a <;> cases hb : numeric S T h b <;> simp_all

lemma equalStored_iff (hfloat : FloatsByText env S) (hu : Parsed S T lo hi u)
    (hv : Parsed S T lo' hi' v) (hle : hi ≤ lo')
    (hulist : ∀ items, u ≠ .list items) (humap : ∀ s entries, u ≠ .map s entries) :
    (eq env u v = true ↔ Equal (EqualStored S T h) (tree u) (tree v)) ∧
      (eq env v u = true ↔ Equal (EqualStored S T h) (tree u) (tree v)) := by
  cases hu with
  | list => exact absurd rfl (hulist _)
  | map => exact absurd rfl (humap _ _)
  | unit => cases hv <;> simp [eq_unfold, eqWith, tree, Equal]
  | bool b =>
    cases hv with
    | bool b' =>
      simp only [eq_unfold, eqWith, beq_iff_eq, tree, Equal, EqualStored, SameScalar,
        StoredAlike, numeric, jsonNumberRaw, jsonNumberHandle, Option.bind_none,
        Option.map_none, Value.bool.injEq, and_true]
      exact ⟨trivial, eq_comm⟩
    | _ => simp [eq_unfold, eqWith, tree, Equal, EqualStored, StoredAlike]
  | int i =>
    cases hv with
    | int j =>
      simp only [eq_unfold, eqWith, beq_iff_eq, tree, Equal, EqualStored, SameScalar,
        StoredAlike, numeric, Int.cast_inj, Int64.toInt_inj, and_true]
      exact ⟨trivial, eq_comm⟩
    | _ => simp [eq_unfold, eqWith, tree, Equal, EqualStored, StoredAlike]
  | float hfinite =>
    cases hv with
    | float hfinite' =>
      simp only [eq_unfold, eqWith, tree, Equal, EqualStored, SameScalar, StoredAlike, numeric,
        hfloat _ _ hfinite hfinite', hfloat _ _ hfinite' hfinite, and_true]
      exact ⟨trivial, eq_comm⟩
    | _ => simp [eq_unfold, eqWith, tree, Equal, EqualStored, StoredAlike]
  | string s =>
    cases hv with
    | string s' =>
      simp only [eq_unfold, eqWith, beq_iff_eq, tree, Equal, EqualStored, SameScalar,
        StoredAlike, numeric, jsonNumberRaw, jsonNumberHandle, Option.bind_none,
        Option.map_none, Value.string.injEq, and_true]
      exact ⟨trivial, eq_comm⟩
    | _ => simp [eq_unfold, eqWith, tree, Equal, EqualStored, StoredAlike]
  | number htype hlo hhi => ?_
  cases hv with
  | number htype' hlo' hhi' =>
    rw [eq_number_iff htype htype', eq_number_iff htype' htype]
    simp only [tree, Equal, EqualStored, StoredAlike, and_false, iff_false]
    omega
  | _ => simp [eq_unfold, eqWith, tree, Equal, EqualStored, StoredAlike]

/-- Values parsed one after the other are equal exactly if they are equal in the sense of
the standard, with numbers that are stored alike. -/
theorem eq_iff_equal (hfloat : FloatsByText env S) (hu : Parsed S T lo hi u)
    (hv : Parsed S T lo' hi' v) (hle : hi ≤ lo') :
    (eq env u v = true ↔ Equal (EqualStored S T h) (tree u) (tree v)) ∧
      (eq env v u = true ↔ Equal (EqualStored S T h) (tree u) (tree v)) := by
  induction hu generalizing v with
  | @list items hitems ih =>
    cases hv with
    | @list items' hitems' =>
      have hflip : List.Forall₂ (fun b a => eq env b a = true) items' items ↔
          List.Forall₂ (fun a b => eq env b a = true) items items' :=
        ⟨List.Forall₂.flip, List.Forall₂.flip⟩
      rw [eq_unfold, eq_unfold, eqWith, eqWith, Comparison.listEq_iff, Comparison.listEq_iff,
        hflip, tree_list, tree_list, Equal, equalItems_iff, forall₂_map_left_iff,
        forall₂_map_right_iff]
      exact ⟨forall₂_congr_mem (fun a ha b hb => (ih a ha (hitems' b hb)).1),
        forall₂_congr_mem (fun a ha b hb => (ih a ha (hitems' b hb)).2)⟩
    | _ => simp [eq_unfold, eqWith, tree, Equal]
  | @map s entries hnamed hvalues ih =>
    cases hv with
    | @map s' entries' hnamed' hvalues' =>
      have hmember : ∀ {a : List (Value × Value)} {name : String} {x : Value},
          member a name = some x → ∃ e ∈ a, e.2 = x := by
        intro a name x hx
        obtain ⟨e, he, rfl⟩ := Option.map_eq_some_iff.mp hx
        exact ⟨e, mem_of_find?_eq_some he, rfl⟩
      rw [eq_map_iff_members hnamed hnamed', eq_map_iff_members hnamed' hnamed, tree_map,
        tree_map, Equal]
      refine ⟨forall_congr' fun name => ?_, forall_congr' fun name => ?_⟩
      all_goals
        rw [treeMembers_eq, treeMembers_eq]
        rcases hx : member entries name with _ | x
        · cases member entries' name <;> simp [EqualMember]
        rcases hy : member entries' name with _ | y
        · simp [EqualMember]
        obtain ⟨e, he, rfl⟩ := hmember hx
        obtain ⟨e', he', rfl⟩ := hmember hy
        have hvalue := ih e he (hvalues' e' he')
        simp only [Option.rel_some_some, Option.map_some, EqualMember]
        first | exact hvalue.2 | exact hvalue.1
    | _ => simp [eq_unfold, eqWith, tree, Equal]
  | _ =>
    exact equalStored_iff hfloat (by constructor <;> assumption : Parsed S T lo hi _) hv hle
      (by simp) (by simp)

/-! ## Tests -/

/-- A parsed text is the value of the document that the library found in it. -/
lemma exists_doc_of_parse (hS : S.Documented) {policy : JsonDuplicatePolicy}
    {text : List UInt8} {j : Json UInt64} (hj : Json.parseWithPolicy S policy text = .ok j) :
    ∃ d, S.deserialize text = some d ∧ j = toJson S (retained policy d) := by
  by_cases hsize : text.length ≤ maxJsonInputBytes
  · have hparse := hj
    rw [Json.parseWithPolicy, if_neg (by omega)] at hparse
    obtain ⟨⟨⟩, hlimit, hparse⟩ := Loop.bind_eq_ok hparse
    obtain ⟨tokens, -, hparse⟩ := Loop.bind_eq_ok hparse
    rcases haccepts : S.deserialize text with _ | d
    · simp [haccepts] at hparse
    cases hvisit : visit S policy d 0 with
    | error e => simp [haccepts, hvisit] at hparse
    | ok visited =>
      rw [parseWithPolicy_eq hsize hlimit haccepts (hS.grammar text d haccepts) hvisit] at hj
      exact ⟨d, rfl, (Except.ok.inj hj).symm⟩
  · rw [Json.parseWithPolicy, if_pos (by omega)] at hj
    cases hj

lemma Parsed.pointerGet (hp : Parsed S T lo hi v) {tokens : List String}
    (hget : pointerGet env v tokens = .ok u) : Parsed S T lo hi u := by
  induction tokens generalizing v with
  | nil =>
    obtain ⟨n, hdoc⟩ := hp.exists_document
    rw [MuxRuntime.pointerGet, hdoc.clone_eq] at hget
    cases hget
    exact hp
  | cons token rest ih => ?_
  cases hp with
  | @map s entries hnamed hvalues =>
    rw [MuxRuntime.pointerGet, mapGet_string] at hget
    rcases hmember : member entries token with _ | c
    · simp [hmember] at hget
    rw [hmember] at hget
    obtain ⟨e, he, rfl⟩ := Option.map_eq_some_iff.mp hmember
    exact ih (hvalues e (mem_of_find?_eq_some he)) hget
  | @list items hitems =>
    rw [MuxRuntime.pointerGet] at hget
    split at hget
    · cases hget
    · cases hget
    · exact ih (hitems _ (get_mem _ _)) hget
  | _ => simp [MuxRuntime.pointerGet] at hget

/-- A test compares the located value with the given one. -/
lemma test_eq {document : Value} {s : RandomState} {fields : List (Value × Value)}
    {path : String} {tokens : List String} (hop : patchText env s fields "op" = .ok "test")
    (hpath : patchText env s fields "path" = .ok path)
    (htokens : decodePointerText path = .ok tokens)
    (hvalue : patchField env s fields "value" = .ok v)
    (hget : pointerGet env document tokens = .ok u) :
    applyJsonPatchOperation env document (.map s fields) =
      if eq env u v = true then .ok document else .error "JSON Patch test operation failed" := by
  simp only [applyJsonPatchOperation, hop, hpath, htokens, hget, hvalue, bind, Except.bind]
  cases eq env u v <;> rfl

/-- A test of a parsed value against a value parsed before or after it succeeds exactly on equal
values if and only if equal values have their numbers stored alike. -/
theorem test_agrees_iff (hS : S.Documented) (hfloat : FloatsByText env S)
    {policy policy' : JsonDuplicatePolicy} {text text' : List UInt8} {j j' : Json UInt64}
    (hj : Json.parseWithPolicy S policy text = .ok j)
    (hj' : Json.parseWithPolicy S policy' text' = .ok j') {h₀ h₁ : JsonHeap}
    (hapart : (jsonToValue T j h₀).2.heap.next ≤ h₁.heap.next ∨
      (jsonToValue T j' h₁).2.heap.next ≤ h₀.heap.next) (h : JsonHeap) {s : RandomState}
    {fields : List (Value × Value)} {path : String} {tokens : List String} {located : Value}
    (hop : patchText env s fields "op" = .ok "test")
    (hpath : patchText env s fields "path" = .ok path)
    (htokens : decodePointerText path = .ok tokens)
    (hvalue : patchField env s fields "value" = .ok (jsonToValue T j' h₁).1)
    (hget : pointerGet env (jsonToValue T j h₀).1 tokens = .ok located) :
    (applyJsonPatchOperation env (jsonToValue T j h₀).1 (.map s fields) =
          .ok (jsonToValue T j h₀).1 ↔
        Equal (SameScalar S T h) (tree located) (tree (jsonToValue T j' h₁).1)) ↔
      (Equal (SameScalar S T h) (tree located) (tree (jsonToValue T j' h₁).1) →
        Equal (EqualStored S T h) (tree located) (tree (jsonToValue T j' h₁).1)) := by
  obtain ⟨d, -, rfl⟩ := exists_doc_of_parse hS hj
  obtain ⟨d', -, rfl⟩ := exists_doc_of_parse hS hj'
  have hlocated := (parsed_jsonToValue (T := T) hS (retained policy d) h₀).1.pointerGet hget
  have hgiven := (parsed_jsonToValue (T := T) hS (retained policy' d') h₁).1
  have hequal : eq env located (jsonToValue T (toJson S (retained policy' d')) h₁).1 = true ↔
      Equal (EqualStored S T h) (tree located)
        (tree (jsonToValue T (toJson S (retained policy' d')) h₁).1) := by
    rcases hapart with hlater | hearlier
    · exact (eq_iff_equal (h := h) hfloat hlocated hgiven hlater).1
    · rw [(eq_iff_equal (h := h) hfloat hgiven hlocated hearlier).2]
      exact ⟨Equal.swap fun _ _ => EqualStored.symm, Equal.swap fun _ _ => EqualStored.symm⟩
  rw [test_eq hop hpath htokens hvalue hget, ← hequal]
  by_cases heq : eq env located (jsonToValue T (toJson S (retained policy' d')) h₁).1 = true
  · have hsound : Equal (SameScalar S T h) (tree located) _ :=
      (hequal.mp heq).mono (fun _ _ hboth => hboth.1)
    simp [heq, hsound]
  · simp [heq]

/-! ## Two numbers -/

/-- A library that knows the numbers `1` and `1e2`, and two arrays with them. -/
def hundredSerde : Serde UInt64 where
  unescape _ := none
  deserialize text :=
    if text = ascii "1" ∨ text = ascii "1e2" then some (.number text)
    else if text = ascii "[1]" then some (.array [.number (ascii "1")])
    else if text = ascii "[[1],1e2]" then
      some (.array [.array [.number (ascii "1")], .number (ascii "1e2")])
    else none
  failure _ _ := "expected value at line 1 column 1"
  located _ message := message
  visited token := if isReal token then .f64 0x4059000000000000 else .u64
  isFinite bits := bits == 0x4059000000000000
  parseNumber raw := if isReal raw then some (.float 0x4059000000000000) else none
  asF64 number := match number with | .float value => some value | _ => none
  displayNumber _ := ascii "100.0"
  serializeNumber _ := some (ascii "100.0")
  serializeString s := some (ascii ("\"" ++ s ++ "\""))

lemma numberToken_hundred : NumberToken (ascii "1e2") :=
  ⟨[], [byte '1'], [], [byte 'e', byte '2'], Or.inl rfl,
    .digits (by decide) (by decide) (by simp), .none,
    @JsonGrammar.ExponentPart.digits (byte 'e') (byte '2') [] [] (.inl rfl) (.inl rfl)
      (all_eq_true.mp rfl),
    rfl⟩

lemma hundredSerde_documented : hundredSerde.Documented where
  grammar := by
    intro text d hd
    have hone : NumberToken (ascii "1") :=
      ⟨[], [byte '1'], [], [], Or.inl rfl, .digits (by decide) (by decide) (by simp), .none, .none,
        rfl⟩
    simp only [hundredSerde] at hd
    have hitem : JsonGrammar.Document (fun _ => none) _ _ := .number hone
    have hlist := JsonGrammar.Text.array (.lastElement hitem)
    have hlast : JsonGrammar.Document (fun _ => none) _ _ := .number numberToken_hundred
    split_ifs at hd with hnumber harray hnested <;> cases hd
    · rcases hnumber with rfl | rfl
      · exact .number hone
      · exact .number numberToken_hundred
    · subst harray
      exact .bare hlist
    · subst hnested
      exact .bare (.array (.moreElements (JsonGrammar.Document.bare hlist) (.lastElement hlast)))
  real := by
    intro raw number hreal hparse
    simp only [hundredSerde, hreal, if_true] at hparse
    cases hparse
    exact ⟨_, rfl, rfl⟩
  asF64_float := fun _ => rfl
  serialize := fun _ => rfl

lemma hundredSerde_floats : FloatsByText sampleJsonRuntime hundredSerde := by
  intro a b ha hb
  have ha' : a = 0x4059000000000000 := beq_iff_eq.mp ha
  have hb' : b = 0x4059000000000000 := beq_iff_eq.mp hb
  subst ha' hb'
  exact ⟨fun _ => rfl, fun _ => rfl⟩

/-- A test of the value at `path`. -/
def testOperation (path : String) (value : Value) : List (Value × Value) :=
  [(.string "op", .string "test"), (.string "path", .string path), (.string "value", value)]

/-- The array at `/0` of the document `[[1],1e2]` is equal to an array parsed before it. -/
theorem test_agrees_item :
    let one : Json UInt64 := .array [.int ⟨1, by decide⟩]
    let given := jsonToValue sampleNumberType one .initial
    let document := (jsonToValue sampleNumberType (.array [one, .number ⟨ascii "1e2"⟩]) given.2).1
    applyJsonPatchOperation sampleJsonRuntime document
          (.map ⟨0, 0⟩ (testOperation "/0" given.1)) = .ok document ↔
      Equal (SameScalar hundredSerde sampleNumberType .initial) (tree given.1) (tree given.1) := by
  intro one given document
  have hone : Json.parseWithPolicy hundredSerde .reject (ascii "[1]") = .ok one := rfl
  have hdocument : Json.parseWithPolicy hundredSerde .reject (ascii "[[1],1e2]") =
      .ok (.array [one, .number ⟨ascii "1e2"⟩]) := rfl
  have htokens : decodePointerText "/0" = .ok ["0"] := by decide +kernel
  apply (test_agrees_iff hundredSerde_documented hundredSerde_floats hdocument hone
    (Or.inr (le_refl _)) .initial rfl rfl htokens rfl rfl).mpr
  intro _
  exact ⟨⟨rfl, trivial⟩, trivial⟩

/-- The number `1e2` keeps its token, and is not equal to itself when it is parsed
again. -/
theorem retained_number_fails_test :
    let j : Json UInt64 := .number ⟨ascii "1e2"⟩
    let first := jsonToValue sampleNumberType j .initial
    let second := jsonToValue sampleNumberType j first.2
    Json.parseWithPolicy hundredSerde .reject (ascii "1e2") = .ok j ∧
      applyJsonPatchOperation sampleJsonRuntime first.1 (.map ⟨0, 0⟩ (testOperation "" second.1)) =
        .error "JSON Patch test operation failed" ∧
      Equal (SameScalar hundredSerde sampleNumberType second.2) (tree first.1) (tree second.1) := by
  intro j first second
  have hone : handleOfBytes (handleBytes 1) = 1 := by decide
  have htwo : handleOfBytes (handleBytes 2) = 2 := by decide
  have hfirst : first.1 = .object { ptr := 0, typeId := 1, data := handleBytes 1 } := rfl
  have hsecond : second.1 = .object { ptr := 1, typeId := 1, data := handleBytes 2 } := rfl
  have htable : second.2.jsonNumbers =
      (JsonHeap.initial.jsonNumbers.insert 1 (ascii "1e2")).insert 2 (ascii "1e2") := rfl
  have hsame : SameScalar hundredSerde sampleNumberType second.2 first.1 second.1 := by
    have hnumber : sampleNumberType.id = 1 := rfl
    simp [SameScalar, numeric, jsonNumberRaw, jsonNumberHandle, hfirst, hsecond, htable, hone, htwo,
      hnumber, Registry.insert_of_ne]
  refine ⟨rfl, rfl, ?_⟩
  rw [hfirst, hsecond] at hsame ⊢
  simpa only [tree, Equal] using hsame

end MuxRuntime
