import MuxRuntime.Json.Scan

/-!
# Number tokens and duplicate keys

The visitor numbers the numbers it sees, also those inside discarded duplicates,
and the conversion looks the tokens up by that number. The two traversals stay
aligned, and a parsed document is the source without its discarded members,
every number spelled as in the text.
-/

namespace MuxRuntime

open List Utf8 Loop Cursor JsonGrammar

variable {F : Type}

/-! ## The retained document -/

/-- The members that a policy retains. -/
def select (policy : JsonDuplicatePolicy) (members : List (String × Doc)) : List (String × Doc) :=
  match policy with
  | .reject => members
  | .first => AssocList.withFirst members
  | .last => AssocList.withLast members

mutual

/-- The document without the members that the policy discards. -/
def retained (policy : JsonDuplicatePolicy) : Doc → Doc
  | .null => .null
  | .bool value => .bool value
  | .number token => .number token
  | .string value => .string value
  | .array items => .array (retainedItems policy items)
  | .object members => .object (select policy (retainedMembers policy members))

def retainedItems (policy : JsonDuplicatePolicy) : List Doc → List Doc
  | [] => []
  | d :: items => retained policy d :: retainedItems policy items

def retainedMembers (policy : JsonDuplicatePolicy) : List (String × Doc) → List (String × Doc)
  | [] => []
  | (key, d) :: members => (key, retained policy d) :: retainedMembers policy members

end

/-- Some object of the document, at any depth, has a key more than once. -/
inductive Repeats : Doc → Prop
  | here {members : List (String × Doc)} (h : ¬(members.map Prod.fst).Nodup) :
      Repeats (.object members)
  | item {items : List Doc} {d : Doc} (hmem : d ∈ items) (h : Repeats d) : Repeats (.array items)
  | member {members : List (String × Doc)} {m : String × Doc} (hmem : m ∈ members)
      (h : Repeats m.2) : Repeats (.object members)

section Library

variable (S : Serde F)

mutual

/-- The JSON value of a document: every number token is classified by itself. -/
def toJson : Doc → Json F
  | .null => .null
  | .bool value => .bool value
  | .number token => parsedNumber S token
  | .string value => .string value
  | .array items => .array (toJsonItems items)
  | .object members => .object (toJsonMembers members)

def toJsonItems : List Doc → List (Json F)
  | [] => []
  | d :: items => toJson d :: toJsonItems items

def toJsonMembers : List (String × Doc) → List (String × Json F)
  | [] => []
  | (key, d) :: members => (key, toJson d) :: toJsonMembers members

end

mutual

/-- The document a JSON value spells: every number is given by its rendering. -/
def spelled : Json F → Doc
  | .null => .null
  | .bool value => .bool value
  | .int value => .number (renderJson S none 0 (.int value))
  | .float value => .number (renderJson S none 0 (.float value))
  | .number number => .number (renderJson S none 0 (.number number))
  | .string value => .string value
  | .array values => .array (spelledItems values)
  | .object values => .object (spelledMembers values)

def spelledItems : List (Json F) → List Doc
  | [] => []
  | value :: values => spelled value :: spelledItems values

def spelledMembers : List (String × Json F) → List (String × Doc)
  | [] => []
  | (key, value) :: values => (key, spelled value) :: spelledMembers values

end

/-! ## Alignment of the two traversals -/

variable {S}

/-- A visited value is converted to the value of the retained document. -/
abbrev ConvertsTo (tokens : List (List UInt8)) (value : ParsedJson) (d : Doc) : Prop :=
  convertParsedValue S tokens value = .ok (toJson S d)

lemma convertItems_eq {tokens : List (List UInt8)} {values : List ParsedJson} {items : List Doc}
    (h : List.Forall₂ (ConvertsTo (S := S) tokens) values items) :
    convertItems S tokens values = .ok (toJsonItems S items) := by
  induction h with
  | nil => rfl
  | cons hd _ ih =>
    simp only [convertItems, toJsonItems]
    rw [hd, ih]
    rfl

lemma toJsonMembers_keys (members : List (String × Doc)) :
    (toJsonMembers S members).map Prod.fst = members.map Prod.fst := by
  induction members with
  | nil => rfl
  | cons m members ih => rw [toJsonMembers, map_cons, map_cons, ih]

variable {members : List (String × Doc)} {values : List (String × ParsedJson)}

/-- Distinct keys are inserted one after the other. -/
lemma convertMembers_eq {tokens : List (List UInt8)} {m : List (String × Json F)}
    (h : AssocList.Related (ConvertsTo (S := S) tokens) values members)
    (hnodup : AssocList.NodupKeys (m ++ toJsonMembers S members)) :
    convertMembers S tokens values m = .ok (m ++ toJsonMembers S members) := by
  induction h generalizing m with
  | nil => simp [convertMembers, toJsonMembers]
  | @cons a b values members hab _ ih => ?_
  rcases a with ⟨key, value⟩
  rcases b with ⟨key', d⟩
  obtain ⟨rfl, hvalue⟩ : key = key' ∧ ConvertsTo tokens value d := hab
  rw [toJsonMembers] at hnodup ⊢
  have habsent : AssocList.contains m key = false := by
    rw [AssocList.contains_eq_false_iff]
    intro e he
    exact (pairwise_append.mp hnodup).2.2 e he (key, toJson S d) (by simp)
  rw [convertMembers, hvalue]
  simp only [bind, Except.bind]
  rw [AssocList.insert_eq_append habsent]
  rw [append_cons] at hnodup
  have hrest := ih hnodup
  rwa [append_assoc, singleton_append] at hrest

variable {policy : JsonDuplicatePolicy}

/-- One more member under a policy. -/
lemma select_append {R : ParsedJson → Doc → Prop} {done : List (String × Doc)} {key : String}
    {value : ParsedJson} {d : Doc} (h : AssocList.Related R values (select policy done))
    (hvalue : R value d) (haccepted : (AssocList.contains values key && policy == .reject) = false) :
    AssocList.Related R
      (if AssocList.contains values key && policy == .first then values
        else AssocList.insert values key value)
      (select policy (done ++ [(key, d)])) := by
  have hcontains := h.contains (k := key)
  cases policy with
  | reject =>
    have habsent : AssocList.contains values key = false := by simpa using haccepted
    rw [if_neg (by simp [habsent]), AssocList.insert_eq_append habsent]
    exact h.append (.cons ⟨rfl, hvalue⟩ .nil)
  | first =>
    rw [select, AssocList.contains_withFirst] at hcontains
    rw [select, AssocList.withFirst_append_singleton, ← hcontains]
    cases hkey : AssocList.contains values key with
    | true => exact h
    | false =>
      rw [if_neg (by simp), if_neg (by simp), AssocList.insert_eq_append hkey]
      exact h.append (.cons ⟨rfl, hvalue⟩ .nil)
  | last =>
    rw [if_neg (by simp), select, AssocList.withLast_append_singleton]
    exact h.insert hvalue

mutual

/-- The visitor advances by the numbers of the document, has seen no key twice if it
rejects duplicates, and what it returns is converted to the value of the retained
document when the tokens are in place. -/
theorem visit_spec (policy : JsonDuplicatePolicy) (d : Doc) {n n' : Nat} {value : ParsedJson}
    (h : visit S policy d n = .ok (value, n')) :
    n' = n + d.numbers.length ∧ (policy = .reject → ¬Repeats d) ∧
      ∀ {tokens pre post}, At tokens n pre (d.numbers ++ post) →
      ConvertsTo (S := S) tokens value (retained policy d) := by
  cases d with
  | null | bool b | string s =>
    cases h
    exact ⟨rfl, nofun, fun _ => rfl⟩
  | number token =>
    rw [visit] at h
    rcases bind_eq_ok h with ⟨_, -, h⟩
    cases h
    refine ⟨rfl, nofun, fun hat => ?_⟩
    have htoken := hat.head
    simp only [Doc.numbers, singleton_append, List.getElem?_cons_zero] at htoken
    simp [ConvertsTo, convertParsedValue, htoken, retained, toJson]
  | array items =>
    rw [visit] at h
    rcases bind_eq_ok h with ⟨⟨values, m⟩, hseq, h⟩
    cases h
    rcases visitSeq_spec policy items hseq with ⟨hcount, hitems, hvalues⟩
    refine ⟨hcount, fun hp (.item hmem hd) => hitems hp _ hmem hd, fun {tokens pre post} hat => ?_⟩
    have hforall : List.Forall₂ (ConvertsTo (S := S) tokens) values
        ([] ++ retainedItems policy items) := hvalues hat .nil
    have hitems := convertItems_eq hforall
    simp only [ConvertsTo, convertParsedValue, hitems]
    rfl
  | object members => ?_
  rw [visit] at h
  rcases bind_eq_ok h with ⟨⟨values, m⟩, hmap, h⟩
  cases h
  rcases visitMap_spec policy members hmap with ⟨hcount, hnodup, hmembers, hvalues⟩
  have hdistinct := hnodup List.Pairwise.nil
  refine ⟨hcount, fun hp hd => ?_, fun {tokens pre post} hat => ?_⟩
  · cases hd with
    | here hd =>
      have hkeys := hdistinct.nodup
      rw [(hmembers hp).1] at hkeys
      exact hd hkeys
    | member hmem hd => exact (hmembers hp).2 _ hmem hd
  have hempty : AssocList.Related (ConvertsTo (S := S) tokens) [] (select policy []) := by
    cases policy <;> exact .nil
  have hrelated := hvalues hat hempty
  rw [nil_append] at hrelated
  have hkeys : AssocList.NodupKeys
      ([] ++ toJsonMembers S (select policy (retainedMembers policy members))) := by
    rw [nil_append, AssocList.nodupKeys_iff, toJsonMembers_keys, ← hrelated.keys_eq,
      ← AssocList.nodupKeys_iff]
    exact hdistinct
  simp only [ConvertsTo, convertParsedValue, convertMembers_eq hrelated hkeys]
  rfl

lemma visitSeq_spec (policy : JsonDuplicatePolicy) (items : List Doc) {n n' : Nat}
    {values values' : List ParsedJson} (h : visitSeq S policy items values n = .ok (values', n')) :
    n' = n + (itemNumbers items).length ∧ (policy = .reject → ∀ d ∈ items, ¬Repeats d) ∧
      ∀ {tokens pre post done}, At tokens n pre (itemNumbers items ++ post) →
      List.Forall₂ (ConvertsTo (S := S) tokens) values done →
      List.Forall₂ (ConvertsTo (S := S) tokens) values' (done ++ retainedItems policy items) := by
  rcases items with _ | ⟨d, items⟩
  · cases h
    exact ⟨rfl, nofun, fun _ hdone => by simpa [retainedItems] using hdone⟩
  rw [visitSeq] at h
  rcases bind_eq_ok h with ⟨⟨value, m⟩, hvisit, h⟩
  rcases visit_spec policy d hvisit with ⟨hm, hd, hvalue⟩
  rcases visitSeq_spec policy items h with ⟨hn', hitems, hvalues⟩
  refine ⟨?_, fun hp => forall_mem_cons.mpr ⟨hd hp, hitems hp⟩, fun hat hdone => ?_⟩
  · rw [itemNumbers, length_append]
    omega
  · rw [itemNumbers, append_assoc] at hat
    have hnext := hat.advance d.numbers
    rw [← hm] at hnext
    have hall := hvalues hnext (rel_append hdone (.cons (hvalue hat) .nil))
    rwa [append_assoc, singleton_append] at hall

lemma visitMap_spec (policy : JsonDuplicatePolicy) (members : List (String × Doc)) {n n' : Nat}
    {values values' : List (String × ParsedJson)}
    (h : visitMap S policy members values n = .ok (values', n')) :
    n' = n + (memberNumbers members).length ∧
      (AssocList.NodupKeys values → AssocList.NodupKeys values') ∧
      (policy = .reject → values'.map Prod.fst = values.map Prod.fst ++ members.map Prod.fst ∧
        ∀ m ∈ members, ¬Repeats m.2) ∧
      ∀ {tokens pre post done}, At tokens n pre (memberNumbers members ++ post) →
      AssocList.Related (ConvertsTo (S := S) tokens) values (select policy done) →
      AssocList.Related (ConvertsTo (S := S) tokens) values'
        (select policy (done ++ retainedMembers policy members)) := by
  rcases members with _ | ⟨entry, members⟩
  · cases h
    exact ⟨rfl, id, fun _ => ⟨by simp, nofun⟩, fun _ hdone => by
      simpa [retainedMembers] using hdone⟩
  rcases entry with ⟨key, d⟩
  rw [visitMap] at h
  dsimp only at h
  split at h
  · cases h
  rename_i hreject
  rcases bind_eq_ok h with ⟨⟨value, m⟩, hvisit, h⟩
  rcases visit_spec policy d hvisit with ⟨hm, hd, hvalue⟩
  -- both branches continue with the values that `select_append` describes
  have hrest : visitMap S policy members
      (if AssocList.contains values key && policy == .first then values
        else AssocList.insert values key value) m = .ok (values', n') := by
    dsimp only at h
    split at h
    · rw [if_pos (by assumption)]
      exact h
    · rw [if_neg (by assumption)]
      exact h
  rcases visitMap_spec policy members hrest with ⟨hn', hnodup, hmembers, hvalues⟩
  refine ⟨?_, fun hkeys => hnodup ?_, fun hp => ⟨?_, ?_⟩, fun hat hdone => ?_⟩
  · rw [memberNumbers, length_append]
    omega
  · split
    · exact hkeys
    · exact hkeys.insert key value
  · have habsent : AssocList.contains values key = false := by simpa [hp] using hreject
    rw [(hmembers hp).1, if_neg (by simp [habsent]), AssocList.insert_eq_append habsent]
    simp
  · exact forall_mem_cons.mpr ⟨hd hp, (hmembers hp).2⟩
  · rw [memberNumbers, append_assoc] at hat
    have hnext := hat.advance d.numbers
    rw [← hm] at hnext
    have hall := hvalues hnext (select_append hdone (hvalue hat) (by simpa using hreject))
    rwa [append_assoc, singleton_append] at hall

end

mutual

/-- Only a repeated key that is rejected stops the visitor. -/
lemma visit_accepts {policy : JsonDuplicatePolicy} (d : Doc)
    (hnumbers : ∀ token ∈ d.numbers, visitNumber S token = .ok ())
    (h : policy = .reject → ¬Repeats d) (n : Nat) :
    ∃ visited, visit S policy d n = .ok visited := by
  cases d with
  | null | bool | string => exact ⟨_, rfl⟩
  | number token =>
    rw [visit, hnumbers token (by simp [Doc.numbers])]
    exact ⟨_, rfl⟩
  | array items =>
    rcases visitSeq_accepts items hnumbers (fun hp d hd hr => h hp (.item hd hr)) [] n with
      ⟨_, hvisit⟩
    rw [visit, hvisit]
    exact ⟨_, rfl⟩
  | object members => ?_
  have hkeys : policy = .reject → (members.map Prod.fst).Nodup :=
    fun hp => not_not.mp (fun hr => h hp (.here hr))
  rcases visitMap_accepts members hnumbers (fun hp m hm hr => h hp (.member hm hr)) [] hkeys n
    with ⟨_, hvisit⟩
  rw [visit, hvisit]
  exact ⟨_, rfl⟩

lemma visitSeq_accepts {policy : JsonDuplicatePolicy} (items : List Doc)
    (hnumbers : ∀ token ∈ itemNumbers items, visitNumber S token = .ok ())
    (h : policy = .reject → ∀ d ∈ items, ¬Repeats d) (values : List ParsedJson) (n : Nat) :
    ∃ visited, visitSeq S policy items values n = .ok visited := by
  rcases items with _ | ⟨d, items⟩
  · exact ⟨_, rfl⟩
  rw [itemNumbers, forall_mem_append] at hnumbers
  simp only [forall_mem_cons] at h
  rcases visit_accepts d hnumbers.1 (fun hp => (h hp).1) n with ⟨⟨value, m⟩, hvisit⟩
  rw [visitSeq, hvisit]
  exact visitSeq_accepts items hnumbers.2 (fun hp => (h hp).2) (values ++ [value]) m

lemma visitMap_accepts {policy : JsonDuplicatePolicy} (members : List (String × Doc))
    (hnumbers : ∀ token ∈ memberNumbers members, visitNumber S token = .ok ())
    (h : policy = .reject → ∀ m ∈ members, ¬Repeats m.2) (values : List (String × ParsedJson))
    (hkeys : policy = .reject → (values.map Prod.fst ++ members.map Prod.fst).Nodup) (n : Nat) :
    ∃ visited, visitMap S policy members values n = .ok visited := by
  rcases members with _ | ⟨m, members⟩
  · exact ⟨_, rfl⟩
  rcases m with ⟨key, d⟩
  rw [memberNumbers, forall_mem_append] at hnumbers
  simp only [forall_mem_cons] at h
  have habsent : policy = .reject → AssocList.contains values key = false := by
    intro hp
    rw [AssocList.contains_eq_false_iff]
    intro e he
    exact beq_eq_false_iff_ne.mpr
      ((nodup_append.mp (hkeys hp)).2.2 e.1 (mem_map_of_mem he) key (by simp))
  rcases visit_accepts d hnumbers.1 (fun hp => (h hp).1) n with ⟨⟨value, k⟩, hvisit⟩
  have hrest := fun values hkeys =>
    visitMap_accepts members hnumbers.2 (fun hp => (h hp).2) values hkeys k
  rw [visitMap]
  simp only [hvisit, bind, Except.bind]
  split_ifs with hreject hfirst
  · rw [Bool.and_eq_true, beq_iff_eq] at hreject
    rw [habsent hreject.2] at hreject
    cases hreject.1
  · rw [Bool.and_eq_true, beq_iff_eq] at hfirst
    exact hrest values (fun hp => by rw [hfirst.2] at hp; cases hp)
  · apply hrest
    intro hp
    rw [AssocList.insert_eq_append (habsent hp)]
    simpa using hkeys hp

end

/-! ## The result of parsing -/

variable {text : List UInt8}

section

variable {d : Doc}
    (hsize : text.length ≤ maxJsonInputBytes) (hlimit : enforceJsonTokenLimit text = .ok ())
    (haccepts : S.deserialize text = some d) (hdocument : Document S.unescape d text)

include hsize hlimit haccepts hdocument

/-- The result of parsing an accepted text, once it passes the limits. -/
theorem parseWithPolicy_eq {value : ParsedJson} {n : Nat}
    (hvisit : visit S policy d 0 = .ok (value, n)) :
    Json.parseWithPolicy S policy text = .ok (toJson S (retained policy d)) := by
  rcases visit_spec policy d hvisit with ⟨hcount, -, hconvert⟩
  have hat : At d.numbers 0 [] (d.numbers ++ []) := by
    rw [append_nil]
    exact .start _
  rw [Json.parseWithPolicy, if_neg (by omega), hlimit, scanJsonNumbers_text hdocument]
  simp only [bind, Except.bind, haccepts, hvisit]
  rw [if_neg (by omega)]
  exact hconvert hat

/-- The visitor's failure is the failure of the parser. -/
lemma parseWithPolicy_visit_error {e : VisitError} (hvisit : visit S policy d 0 = .error e) :
    Json.parseWithPolicy S policy text = .error (.deserializer (S.located text e.message)) := by
  rw [Json.parseWithPolicy, if_neg (by omega), hlimit, scanJsonNumbers_text hdocument]
  simp only [bind, Except.bind, haccepts, hvisit]

end

/-- A text that parses is within the limits and accepted. -/
lemma parse_eq_ok {j : Json F} (h : Json.parse S text = .ok j) :
    ∃ d, text.length ≤ maxJsonInputBytes ∧ enforceJsonTokenLimit text = .ok () ∧
      S.deserialize text = some d := by
  unfold Json.parse Json.parseWithPolicy at h
  split at h
  · cases h
  rcases bind_eq_ok h with ⟨_, hlimit, h⟩
  rcases bind_eq_ok h with ⟨numbers, -, h⟩
  cases haccepts : S.deserialize text with
  | none =>
    rw [haccepts] at h
    cases h
  | some d => exact ⟨d, by omega, hlimit, rfl⟩

/-- What the JSON library's documentation promises about accepted texts and numbers. -/
structure Serde.Documented (S : Serde F) : Prop where
  /-- Only texts of the grammar are accepted. -/
  grammar : ∀ text d, S.deserialize text = some d → Document S.unescape d text
  /-- A token with a fraction or an exponent is a finite float. -/
  real : ∀ raw number, isReal raw = true → S.parseNumber raw = some number →
    ∃ value, number = .float value ∧ S.isFinite value = true
  asF64_float : ∀ value, S.asF64 (.float value) = some value
  /-- Serializing a number and displaying it are the same. -/
  serialize : ∀ number, S.serializeNumber number = some (S.displayNumber number)

/-- What a number token may be classified as. -/
inductive Classified (S : Serde F) (raw : List UInt8) : Json F → Prop
  | int {value : I64} (hparse : parseI64 raw = some value) (htext : value.toText = raw) :
      Classified S raw (.int value)
  | float {value : F} (hreal : isReal raw = true) (hfinite : S.isFinite value = true)
      (htext : S.displayNumber (.float value) = raw) : Classified S raw (.float value)
  | number : Classified S raw (.number ⟨raw⟩)

lemma classified_parsedNumber
    (hreal : ∀ raw number, isReal raw = true → S.parseNumber raw = some number →
      ∃ value, number = .float value ∧ S.isFinite value = true)
    (hfloat : ∀ value, S.asF64 (.float value) = some value)
    (hserialize : ∀ number, S.serializeNumber number = some (S.displayNumber number))
    (raw : List UInt8) : Classified S raw (parsedNumber S raw) := by
  rw [parsedNumber]
  split
  · rename_i value hvalue
    rcases Option.filter_eq_some_iff.mp hvalue with ⟨hparse, htext⟩
    exact .int hparse (beq_iff_eq.mp htext)
  split_ifs with hint
  · exact .number
  have hraw : isReal raw = true := by simpa using hint
  rw [parsedReal]
  split
  · exact .number
  rename_i number hparse
  rcases hreal raw number hraw hparse with ⟨value, rfl, hfinite⟩
  rw [hfloat, hserialize]
  split_ifs with hcanonical
  · exact .float hraw hfinite (Option.some.inj hcanonical)
  · exact .number

/-- A classified number token renders as that token. -/
lemma spelled_parsedNumber (hS : S.Documented) (raw : List UInt8) :
    spelled S (parsedNumber S raw) = .number raw := by
  have hclass := classified_parsedNumber hS.real hS.asF64_float hS.serialize raw
  generalize parsedNumber S raw = j at hclass ⊢
  cases hclass with
  | int hparse htext => rw [spelled, renderJson, htext]
  | float hreal hfinite htext =>
    simp only [spelled, renderJson, Serde.numberFromF64, hfinite, if_true, htext]
  | number => rfl

mutual

lemma spelled_toJson (hS : S.Documented) (d : Doc) : spelled S (toJson S d) = d := by
  cases d with
  | null => rfl
  | bool b => rfl
  | string s => rfl
  | number token => exact spelled_parsedNumber hS token
  | array items => rw [toJson, spelled, spelledItems_toJson hS items]
  | object members => rw [toJson, spelled, spelledMembers_toJson hS members]

lemma spelledItems_toJson (hS : S.Documented) (items : List Doc) :
    spelledItems S (toJsonItems S items) = items := by
  cases items with
  | nil => rfl
  | cons d items =>
    rw [toJsonItems, spelledItems, spelled_toJson hS d, spelledItems_toJson hS items]

lemma spelledMembers_toJson (hS : S.Documented) (members : List (String × Doc)) :
    spelledMembers S (toJsonMembers S members) = members := by
  cases members with
  | nil => rfl
  | cons m members =>
    rw [toJsonMembers, spelledMembers, spelled_toJson hS m.2, spelledMembers_toJson hS members]

end

/-- On an accepted text the number tokens found by the scan are those of the document,
as many as the visitor counts; parsing never reports an accounting failure, and a
parsed value spells the retained document with the tokens of the source. -/
theorem parseWithPolicy_spelled (hS : S.Documented) (policy : JsonDuplicatePolicy)
    (text : List UInt8) (d : Doc) (haccepts : S.deserialize text = some d) :
    scanJsonNumbers text = .ok d.numbers ∧
      (∀ value n, visit S policy d 0 = .ok (value, n) → n = d.numbers.length) ∧
      Json.parseWithPolicy S policy text ≠ .error .numberAccounting ∧
      ∀ j, Json.parseWithPolicy S policy text = .ok j → spelled S j = retained policy d := by
  have hdocument := hS.grammar text d haccepts
  refine ⟨scanJsonNumbers_text hdocument, fun value n hvisit => ?_, ?_⟩
  · rw [(visit_spec policy d hvisit).1, Nat.zero_add]
  by_cases hsize : text.length ≤ maxJsonInputBytes
  · cases hlimit : enforceJsonTokenLimit text with
    | error e =>
      have hresult : Json.parseWithPolicy S policy text = .error e := by
        rw [Json.parseWithPolicy, if_neg (by omega), hlimit]
        rfl
      rw [hresult, enforceJsonTokenLimit_error hdocument hlimit]
      exact ⟨nofun, nofun⟩
    | ok _ => ?_
    cases hvisit : visit S policy d 0 with
    | error e =>
      rw [parseWithPolicy_visit_error hsize hlimit haccepts hdocument hvisit]
      exact ⟨nofun, nofun⟩
    | ok visited =>
      rw [parseWithPolicy_eq hsize hlimit haccepts hdocument hvisit]
      refine ⟨nofun, fun j hj => ?_⟩
      cases hj
      exact spelled_toJson hS (retained policy d)
  · have hresult : Json.parseWithPolicy S policy text = .error .inputTooLarge := by
      rw [Json.parseWithPolicy, if_pos (by omega)]
    rw [hresult]
    exact ⟨nofun, nofun⟩

/-! ## Duplicate keys -/

/-- The value of a key that a policy keeps. -/
def occurrence (policy : JsonDuplicatePolicy) (members : List (String × Doc)) (key : String) :
    Option Doc :=
  match policy with
  | .reject | .first => AssocList.lookup members key
  | .last => AssocList.lookup members.reverse key

/-- The second document is the first one with each key once, in the order of first
appearance and with the value that the policy keeps, in every object at any depth. -/
inductive Keeps (policy : JsonDuplicatePolicy) : Doc → Doc → Prop
  | null : Keeps policy .null .null
  | bool (value : Bool) : Keeps policy (.bool value) (.bool value)
  | number (token : List UInt8) : Keeps policy (.number token) (.number token)
  | string (value : String) : Keeps policy (.string value) (.string value)
  | array {items items' : List Doc} (hitems : List.Forall₂ (Keeps policy) items items') :
      Keeps policy (.array items) (.array items')
  | object {members members' : List (String × Doc)}
      (hkeys : members'.map Prod.fst = (members.map Prod.fst).eraseDups)
      (hvalues : ∀ key d d', occurrence policy members key = some d →
        AssocList.lookup members' key = some d' → Keeps policy d d') :
      Keeps policy (.object members) (.object members')

lemma retainedMembers_eq (policy : JsonDuplicatePolicy) (members : List (String × Doc)) :
    retainedMembers policy members = members.map (fun m => (m.1, retained policy m.2)) := by
  induction members with
  | nil => rfl
  | cons m members ih => rw [retainedMembers, ih, map_cons]

lemma keys_select (h : policy = .reject → (members.map Prod.fst).Nodup) :
    (select policy members).map Prod.fst = (members.map Prod.fst).eraseDups := by
  cases policy with
  | reject => exact (AssocList.distinctKeys_of_nodup (h rfl)).symm
  | first => exact AssocList.keys_withFirst
  | last => exact AssocList.keys_withLast

lemma lookup_select (policy : JsonDuplicatePolicy) (members : List (String × Doc))
    (key : String) :
    AssocList.lookup (select policy members) key = occurrence policy members key := by
  cases policy with
  | reject => rfl
  | first => exact AssocList.lookup_withFirst
  | last => exact AssocList.lookup_withLast

lemma occurrence_map (policy : JsonDuplicatePolicy) (f : Doc → Doc)
    (members : List (String × Doc)) (key : String) :
    occurrence policy (members.map (fun m => (m.1, f m.2))) key =
      (occurrence policy members key).map f := by
  have hlookup : ∀ l : List (String × Doc), AssocList.lookup (l.map (fun m => (m.1, f m.2))) key =
      (AssocList.lookup l key).map f := by
    intro l
    simp only [AssocList.lookup, List.find?_map, Option.map_map]
    rfl
  cases policy with
  | reject | first => exact hlookup members
  | last => rw [occurrence, ← map_reverse, hlookup, occurrence]

lemma mem_of_occurrence {key : String} {d : Doc} (h : occurrence policy members key = some d) :
    (key, d) ∈ members := by
  cases policy with
  | reject | first => exact AssocList.mem_of_lookup h
  | last => exact mem_reverse.mp (AssocList.mem_of_lookup h)

mutual

lemma keeps_retained {policy : JsonDuplicatePolicy} (d : Doc)
    (h : policy = .reject → ¬Repeats d) : Keeps policy d (retained policy d) := by
  cases d with
  | null => exact .null
  | bool value => exact .bool value
  | number token => exact .number token
  | string value => exact .string value
  | array items => exact .array (keeps_retainedItems items (fun hp d hd hr => h hp (.item hd hr)))
  | object members => ?_
  have hvalues := keeps_retainedMembers members (fun hp m hm hr => h hp (.member hm hr))
  rw [retained, retainedMembers_eq]
  refine .object ?_ (fun key d d' hd hd' => ?_)
  · have hkeys : (members.map (fun m => (m.1, retained policy m.2))).map Prod.fst =
        members.map Prod.fst := by simp
    rw [keys_select, hkeys]
    rw [hkeys]
    exact fun hp => not_not.mp (fun hr => h hp (.here hr))
  · rw [lookup_select, occurrence_map, hd] at hd'
    cases hd'
    exact hvalues (key, d) (mem_of_occurrence hd)

lemma keeps_retainedItems {policy : JsonDuplicatePolicy} (items : List Doc)
    (h : policy = .reject → ∀ d ∈ items, ¬Repeats d) :
    List.Forall₂ (Keeps policy) items (retainedItems policy items) := by
  rcases items with _ | ⟨d, items⟩
  · exact .nil
  simp only [forall_mem_cons] at h
  exact .cons (keeps_retained d (fun hp => (h hp).1))
    (keeps_retainedItems items (fun hp => (h hp).2))

lemma keeps_retainedMembers {policy : JsonDuplicatePolicy} (members : List (String × Doc))
    (h : policy = .reject → ∀ m ∈ members, ¬Repeats m.2) :
    ∀ m ∈ members, Keeps policy m.2 (retained policy m.2) := by
  rcases members with _ | ⟨m, members⟩
  · exact nofun
  simp only [forall_mem_cons] at h
  exact forall_mem_cons.mpr ⟨keeps_retained m.2 (fun hp => (h hp).1),
    keeps_retainedMembers members (fun hp => (h hp).2)⟩

end

/-- Parsing an accepted document fails exactly if duplicates are rejected and some object
repeats a key; otherwise every object has each key once, in the order of first appearance,
with the value that the policy keeps. -/
theorem parseWithPolicy_duplicates (policy : JsonDuplicatePolicy) (text : List UInt8) (d : Doc)
    (hsize : text.length ≤ maxJsonInputBytes) (hlimit : enforceJsonTokenLimit text = .ok ())
    (haccepts : S.deserialize text = some d) (hdocument : Document S.unescape d text)
    (hnumbers : ∀ token ∈ d.numbers, visitNumber S token = .ok ()) :
    ((∃ e, Json.parseWithPolicy S policy text = .error e) ↔ policy = .reject ∧ Repeats d) ∧
      ∀ j, Json.parseWithPolicy S policy text = .ok j →
        ∃ d', Keeps policy d d' ∧ j = toJson S d' := by
  by_cases h : policy = .reject → ¬Repeats d
  · rcases visit_accepts d hnumbers h 0 with ⟨_, hvisit⟩
    rw [parseWithPolicy_eq hsize hlimit haccepts hdocument hvisit]
    refine ⟨⟨nofun, fun hr => absurd hr.2 (h hr.1)⟩, fun j hj => ?_⟩
    cases hj
    exact ⟨_, keeps_retained d h, rfl⟩
  · cases hvisit : visit S policy d 0 with
    | ok visited => exact absurd (visit_spec policy d hvisit).2.1 h
    | error e =>
      rw [parseWithPolicy_visit_error hsize hlimit haccepts hdocument hvisit]
      exact ⟨⟨fun _ => by simpa using h, fun _ => ⟨_, rfl⟩⟩, nofun⟩

end Library

/-! ## A repeated key -/

/-- An object with a repeated key whose values contain numbers. -/
def repeatedKey : List UInt8 :=
  ascii "\x7b\"a\":1.50,\"a\":[2]\x7d"

def repeatedKeyDoc : Doc :=
  .object [("a", .number (ascii "1.50")), ("a", .array [.number (ascii "2")])]

/-- A library that knows this text only. -/
def repeatedKeySerde : Serde Unit where
  unescape body := if body = ascii "a" then some "a" else none
  deserialize text := if text = repeatedKey then some repeatedKeyDoc else none
  failure _ _ := "expected value at line 1 column 1"
  located _ message := message ++ " at line 1 column 15"
  visited token := if isReal token then .f64 () else .u64
  isFinite _ := true
  parseNumber raw := if isReal raw then some (.float ()) else none
  asF64 number := match number with | .float value => some value | _ => none
  displayNumber _ := ascii "1.5"
  serializeNumber _ := some (ascii "1.5")
  serializeString s := some (ascii ("\"" ++ s ++ "\""))

lemma repeatedKey_document : Document repeatedKeySerde.unescape repeatedKeyDoc repeatedKey := by
  have hkey : StringText repeatedKeySerde.unescape "a" (ascii "\"a\"") :=
    ⟨ascii "a", .plain (by decide) (by decide) (by decide) .nil, rfl, rfl⟩
  have hreal : NumberToken (ascii "1.50") :=
    ⟨[], [byte '1'], [byte '.', byte '5', byte '0'], [], Or.inl rfl,
      .digits (by decide) (by decide) (by simp), .digits (all_eq_true.mp rfl), .none, rfl⟩
  have hint : NumberToken (ascii "2") :=
    ⟨[], [byte '2'], [], [], Or.inl rfl, .digits (by decide) (by decide) (by simp), .none, .none,
      rfl⟩
  have hfirst := Text.member blank_nil hkey blank_nil
    (.element blank_nil (.number hreal) blank_nil)
  have hsecond := Text.member blank_nil hkey blank_nil
    (.element blank_nil (.array (.lastElement (.element blank_nil (.number hint) blank_nil)))
      blank_nil)
  have hobject := Text.element blank_nil (.object (.moreMembers hfirst (.lastMember hsecond)))
    blank_nil
  exact hobject

lemma repeatedKeySerde_documented : repeatedKeySerde.Documented where
  grammar := by
    intro text d h
    simp only [repeatedKeySerde] at h
    split_ifs at h with htext
    cases h
    subst htext
    exact repeatedKey_document
  real := by
    intro raw number hreal hparse
    simp only [repeatedKeySerde, hreal, if_true] at hparse
    cases hparse
    exact ⟨(), rfl, rfl⟩
  asF64_float := fun _ => rfl
  serialize := fun _ => rfl

/-- The last value of the repeated key is kept, with its own number. -/
theorem parseWithPolicy_spelled_repeatedKey :
    repeatedKeySerde.deserialize repeatedKey = some repeatedKeyDoc ∧
      scanJsonNumbers repeatedKey = .ok [ascii "1.50", ascii "2"] ∧
      Json.parseWithPolicy repeatedKeySerde .last repeatedKey ≠ .error .numberAccounting ∧
      ∀ j, Json.parseWithPolicy repeatedKeySerde .last repeatedKey = .ok j →
        spelled repeatedKeySerde j = retained .last repeatedKeyDoc := by
  have hspelled := parseWithPolicy_spelled repeatedKeySerde_documented .last repeatedKey
    repeatedKeyDoc rfl
  exact ⟨rfl, hspelled.1, hspelled.2.2⟩

/-- The repeated key is rejected, and kept once otherwise. -/
theorem parseWithPolicy_duplicates_repeatedKey :
    ((∃ e, Json.parseWithPolicy repeatedKeySerde .reject repeatedKey = .error e) ↔
        JsonDuplicatePolicy.reject = .reject ∧ Repeats repeatedKeyDoc) ∧
      ∀ j, Json.parseWithPolicy repeatedKeySerde .reject repeatedKey = .ok j →
        ∃ d', Keeps .reject repeatedKeyDoc d' ∧ j = toJson repeatedKeySerde d' :=
  parseWithPolicy_duplicates .reject repeatedKey repeatedKeyDoc (by decide) rfl rfl
    repeatedKey_document (by
      intro token _
      rw [visitNumber, repeatedKeySerde]
      by_cases hreal : isReal token = true <;> simp [hreal])

end MuxRuntime
