import Mathlib
import MuxRuntime.Json.RoundTrip

/-!
# Canonical text

The canonical text of a value has the members of its objects in the order of their keys. It
is written by the JSON library, from numbers that the library has parsed again: a token that
the library writes in another way is not kept.
-/

namespace MuxRuntime

open List Utf8 JsonGrammar

variable {F : Type}

/-! ## Induction over values -/

section Induction

variable {P : Json F → Prop} (null : P .null) (bool : ∀ b, P (.bool b)) (int : ∀ i, P (.int i))
  (float : ∀ f, P (.float f)) (number : ∀ n, P (.number n)) (string : ∀ s, P (.string s))
  (array : ∀ values, (∀ v ∈ values, P v) → P (.array values))
  (object : ∀ values, (∀ m ∈ values, P m.2) → P (.object values))

include null bool int float number string array object

/-- A fact about a container may be proved from the fact about its values. -/
lemma Json.induction (j : Json F) : P j := by
  apply @Json.rec F P (fun values => ∀ v ∈ values, P v) (fun values => ∀ m ∈ values, P m.2)
    (fun m => P m.2) null bool int float number string array object
  · exact forall_mem_nil _
  · exact fun _ _ hvalue hvalues => forall_mem_cons.mpr ⟨hvalue, hvalues⟩
  · exact forall_mem_nil _
  · exact fun _ _ hmember hmembers => forall_mem_cons.mpr ⟨hmember, hmembers⟩
  · exact fun _ _ hvalue => hvalue

end Induction

/-! ## The library's values -/

inductive SerdeValue (F : Type) where
  | null
  | bool (value : Bool)
  | number (value : SerdeNumber F)
  | string (value : String)
  | array (values : List (SerdeValue F))
  | object (values : List (String × SerdeValue F))

/-- `Number::from` at 64-bit integers. -/
def I64.toSerdeNumber (value : I64) : SerdeNumber F :=
  if 0 ≤ value.val then .posInt value.val.toNat else .negInt value.val

section Library

variable (S : Serde F)

mutual

/-- `Value::to_string`. -/
def SerdeValue.toText : SerdeValue F → List UInt8
  | .null => ascii "null"
  | .bool value => ascii (toString value)
  | .number number => S.displayNumber number
  | .string value => (S.serializeString value).getD []
  | .array values => [byte '['] ++ List.intercalate (ascii ",") (itemTexts values) ++ [byte ']']
  | .object values =>
    [byte '\x7b'] ++ List.intercalate (ascii ",") (memberTexts values) ++ [byte '\x7d']

def itemTexts : List (SerdeValue F) → List (List UInt8)
  | [] => []
  | value :: values => value.toText :: itemTexts values

def memberTexts : List (String × SerdeValue F) → List (List UInt8)
  | [] => []
  | (key, value) :: values =>
    ((S.serializeString key).getD [] ++ ascii ":" ++ value.toText) :: memberTexts values

end

mutual

def convertToSerdeValue : Json F → SerdeValue F
  | .null => .null
  | .bool b => .bool b
  | .int i => .number i.toSerdeNumber
  | .number number =>
    match S.parseNumber number.raw with
    | some number => .number number
    | none => .null
  | .float f =>
    match S.numberFromF64 f with
    | some number => .number number
    | none => .null
  | .string s => .string s
  | .array a => .array (convertToSerdeItems a)
  | .object m => .object (convertToSerdeMembers m)

def convertToSerdeItems : List (Json F) → List (SerdeValue F)
  | [] => []
  | value :: values => convertToSerdeValue value :: convertToSerdeItems values

def convertToSerdeMembers : List (String × Json F) → List (String × SerdeValue F)
  | [] => []
  | (key, value) :: values => (key, convertToSerdeValue value) :: convertToSerdeMembers values

end

/-- Keys are compared byte by byte. -/
def keyLe (a b : String) : Prop :=
  encode a.toList ≤ encode b.toList

instance : DecidableRel keyLe := fun a b =>
  inferInstanceAs (Decidable (encode a.toList ≤ encode b.toList))

/-- The loop that fills an object in the order of the keys. -/
def fillObject (values : List (String × SerdeValue F)) (keys : List String) :
    List (String × SerdeValue F) :=
  keys.foldl
    (fun object key =>
      match AssocList.lookup values key with
      | some value => AssocList.insert object key value
      | none => object)
    []

mutual

def canonicalSerdeValue : Json F → SerdeValue F
  | .object map => .object (fillObject (canonicalMembers map) ((map.map Prod.fst).insertionSort keyLe))
  | .array values => .array (canonicalItems values)
  | .null => convertToSerdeValue S .null
  | .bool b => convertToSerdeValue S (.bool b)
  | .int i => convertToSerdeValue S (.int i)
  | .float f => convertToSerdeValue S (.float f)
  | .number number => convertToSerdeValue S (.number number)
  | .string s => convertToSerdeValue S (.string s)

def canonicalItems : List (Json F) → List (SerdeValue F)
  | [] => []
  | value :: values => canonicalSerdeValue value :: canonicalItems values

def canonicalMembers : List (String × Json F) → List (String × SerdeValue F)
  | [] => []
  | (key, value) :: values => (key, canonicalSerdeValue value) :: canonicalMembers values

end

def Json.canonical (value : Json F) : List UInt8 :=
  (canonicalSerdeValue S value).toText S

/-! ## Sorted keys and rewritten tokens -/

mutual

/-- The value with the members of all objects in the order of their keys. -/
def Json.sorted : Json F → Json F
  | .object values => .object ((sortedMembers values).insertionSort (fun a b => keyLe a.1 b.1))
  | .array values => .array (sortedItems values)
  | .null => .null
  | .bool b => .bool b
  | .int i => .int i
  | .float f => .float f
  | .number number => .number number
  | .string s => .string s

def sortedItems : List (Json F) → List (Json F)
  | [] => []
  | value :: values => value.sorted :: sortedItems values

def sortedMembers : List (String × Json F) → List (String × Json F)
  | [] => []
  | (key, value) :: values => (key, value.sorted) :: sortedMembers values

end

mutual

/-- The value with other number tokens. -/
def withTokens (f : List UInt8 → List UInt8) : Json F → Json F
  | .number number => .number ⟨f number.raw⟩
  | .array values => .array (withTokensItems f values)
  | .object values => .object (withTokensMembers f values)
  | .null => .null
  | .bool b => .bool b
  | .int i => .int i
  | .float f => .float f
  | .string s => .string s

def withTokensItems (f : List UInt8 → List UInt8) : List (Json F) → List (Json F)
  | [] => []
  | value :: values => withTokens f value :: withTokensItems f values

def withTokensMembers (f : List UInt8 → List UInt8) :
    List (String × Json F) → List (String × Json F)
  | [] => []
  | (key, value) :: values => (key, withTokens f value) :: withTokensMembers f values

end

mutual

/-- The number tokens that a value keeps. -/
def Json.tokens : Json F → List (List UInt8)
  | .number number => [number.raw]
  | .array values => tokensItems values
  | .object values => tokensMembers values
  | .null | .bool _ | .int _ | .float _ | .string _ => []

def tokensItems : List (Json F) → List (List UInt8)
  | [] => []
  | value :: values => value.tokens ++ tokensItems values

def tokensMembers : List (String × Json F) → List (List UInt8)
  | [] => []
  | (_, value) :: values => value.tokens ++ tokensMembers values

end

/-- What the library writes for a number token. -/
def canonicalNumber (raw : List UInt8) : List UInt8 :=
  match S.parseNumber raw with
  | some number => S.displayNumber number
  | none => ascii "null"

/-! ## Containers value by value -/

variable {S}

/-- A function that treats the entries of a list one by one. -/
lemma eq_map {α β : Type} {f : List α → List β} {g : α → β} (hnil : f [] = [])
    (hcons : ∀ a l, f (a :: l) = g a :: f l) (l : List α) : f l = l.map g := by
  induction l with
  | nil => exact hnil
  | cons a l ih => rw [hcons, ih, map_cons]

lemma itemTexts_eq (values : List (SerdeValue F)) :
    itemTexts S values = values.map (SerdeValue.toText S) :=
  eq_map rfl (fun _ _ => rfl) values

lemma memberTexts_eq (values : List (String × SerdeValue F)) : memberTexts S values = values.map
      (fun m => (S.serializeString m.1).getD [] ++ ascii ":" ++ m.2.toText S) :=
  eq_map rfl (fun _ _ => rfl) values

lemma convertToSerdeItems_eq (values : List (Json F)) :
    convertToSerdeItems S values = values.map (convertToSerdeValue S) :=
  eq_map rfl (fun _ _ => rfl) values

variable (values : List (String × Json F))

lemma convertToSerdeMembers_eq :
    convertToSerdeMembers S values = values.map (fun m => (m.1, convertToSerdeValue S m.2)) :=
  eq_map rfl (fun _ _ => rfl) values

lemma canonicalItems_eq (values : List (Json F)) :
    canonicalItems S values = values.map (canonicalSerdeValue S) :=
  eq_map rfl (fun _ _ => rfl) values

lemma canonicalMembers_eq :
    canonicalMembers S values = values.map (fun m => (m.1, canonicalSerdeValue S m.2)) :=
  eq_map rfl (fun _ _ => rfl) values

lemma sortedItems_eq (values : List (Json F)) : sortedItems values = values.map Json.sorted :=
  eq_map rfl (fun _ _ => rfl) values

lemma sortedMembers_eq : sortedMembers values = values.map (fun m => (m.1, m.2.sorted)) :=
  eq_map rfl (fun _ _ => rfl) values

lemma withTokensItems_eq (f : List UInt8 → List UInt8) (values : List (Json F)) :
    withTokensItems f values = values.map (withTokens f) :=
  eq_map rfl (fun _ _ => rfl) values

lemma withTokensMembers_eq (f : List UInt8 → List UInt8) (values : List (String × Json F)) :
    withTokensMembers f values = values.map (fun m => (m.1, withTokens f m.2)) :=
  eq_map rfl (fun _ _ => rfl) values

variable (depth : Nat)

lemma renderItems_eq (values : List (Json F)) :
    renderItems S none depth values = values.map (renderJson S none depth) :=
  eq_map rfl (fun _ _ => rfl) values

lemma renderMembers_eq (values : List (String × Json F)) :
    renderMembers S none depth values = values.map
      (fun m => renderKey S m.1 ++ ascii ":" ++ renderJson S none depth m.2) :=
  eq_map rfl (fun _ _ => rfl) values

/-- An array without indentation. -/
lemma renderJson_array (values : List (Json F)) :
    renderJson S none depth (.array values) = [byte '['] ++
      List.intercalate (ascii ",") (values.map (renderJson S none (depth + 1))) ++
      [byte ']'] := by
  rw [renderJson, ← renderItems_eq]
  cases values with
  | nil | cons => rfl

/-- An object without indentation. -/
lemma renderJson_object (values : List (String × Json F)) :
    renderJson S none depth (.object values) = [byte '\x7b'] ++ List.intercalate (ascii ",")
        (values.map (fun m => renderKey S m.1 ++ ascii ":" ++ renderJson S none (depth + 1) m.2)) ++
      [byte '\x7d'] := by
  rw [renderJson, ← renderMembers_eq]
  cases values with
  | nil | cons => rfl

lemma writableItems_iff (values : List (Json F)) :
    WritableItems S values ↔ ∀ v ∈ values, Writable S v := by
  induction values with
  | nil => exact ⟨fun _ => forall_mem_nil _, fun _ => trivial⟩
  | cons value values ih => rw [WritableItems, ih, forall_mem_cons]

lemma writableMembers_iff : WritableMembers S values ↔ ∀ m ∈ values, Writable S m.2 := by
  induction values with
  | nil => exact ⟨fun _ => forall_mem_nil _, fun _ => trivial⟩
  | cons m values ih => rw [WritableMembers, ih, forall_mem_cons]

/-! ## The sorted object -/

/-- Filling an object with the values of distinct keys, one after the other. -/
lemma foldl_fill {values entries object : List (String × SerdeValue F)}
    (hlookup : ∀ e ∈ entries, AssocList.lookup values e.1 = some e.2)
    (hnodup : AssocList.NodupKeys (object ++ entries)) :
    (entries.map Prod.fst).foldl
        (fun object key =>
          match AssocList.lookup values key with
          | some value => AssocList.insert object key value
          | none => object)
        object = object ++ entries := by
  induction entries generalizing object with
  | nil => simp
  | cons e entries ih => ?_
  rw [forall_mem_cons] at hlookup
  have habsent : AssocList.contains object e.1 = false := by
    rw [AssocList.contains_eq_false_iff]
    intro other hother
    exact (pairwise_append.mp hnodup).2.2 other hother e (by simp)
  rw [append_cons] at hnodup
  rw [map_cons, foldl_cons, hlookup.1]
  simp only
  rw [AssocList.insert_eq_append habsent, ih hlookup.2 hnodup, append_assoc]
  rfl

lemma lookup_of_mem {V : Type} {l : List (String × V)} (hnodup : AssocList.NodupKeys l)
    {e : String × V} (he : e ∈ l) : AssocList.lookup l e.1 = some e.2 := by
  rcases append_of_mem he with ⟨before, after, rfl⟩
  exact AssocList.lookup_eq_of_split hnodup (by simp)

lemma nodupKeys_perm {V : Type} {l l' : List (String × V)} (h : l.Perm l')
    (hnodup : AssocList.NodupKeys l) : AssocList.NodupKeys l' := by
  rw [AssocList.nodupKeys_iff] at hnodup ⊢
  refine ((h.map Prod.fst).pairwise_iff ?_).mp hnodup
  intro a b hab
  rw [BEq.comm]
  exact hab

lemma fillObject_eq {values : List (String × SerdeValue F)}
    (hnodup : AssocList.NodupKeys values) :
    fillObject values ((values.map Prod.fst).insertionSort keyLe) =
      values.insertionSort (fun a b => keyLe a.1 b.1) := by
  have hperm := perm_insertionSort (fun a b : String × SerdeValue F => keyLe a.1 b.1) values
  have hkeys := map_insertionSort (fun a b : String × SerdeValue F => keyLe a.1 b.1) keyLe
    Prod.fst values (fun _ _ _ _ => Iff.rfl)
  rw [fillObject, ← hkeys]
  apply foldl_fill
  · intro e he
    exact lookup_of_mem hnodup (hperm.mem_iff.mp he)
  · exact nodupKeys_perm hperm.symm hnodup

variable (j : Json F)

/-- The canonical value is the library's value of the sorted one. -/
lemma canonicalSerdeValue_eq (h : Writable S j) :
    canonicalSerdeValue S j = convertToSerdeValue S j.sorted := by
  induction j using Json.induction with
  | null | bool | int | float | number | string => rfl
  | array values ih =>
    have hwritable := (writableItems_iff values).mp h
    rw [canonicalSerdeValue, Json.sorted, convertToSerdeValue, canonicalItems_eq, sortedItems_eq,
      convertToSerdeItems_eq, map_map]
    congr 1
    apply map_congr_left
    intro value hvalue
    exact ih value hvalue (hwritable value hvalue)
  | object values ih => ?_
  have hwritable := (writableMembers_iff values).mp h.2
  have hmembers : canonicalMembers S values = convertToSerdeMembers S (sortedMembers values) := by
    rw [canonicalMembers_eq, sortedMembers_eq, convertToSerdeMembers_eq, map_map]
    apply map_congr_left
    intro m hm
    exact congrArg (Prod.mk m.1) (ih m hm (hwritable m hm))
  have hkeys : values.map Prod.fst = (canonicalMembers S values).map Prod.fst := by
    rw [canonicalMembers_eq, map_map]
    rfl
  have hnodup : AssocList.NodupKeys (canonicalMembers S values) := by
    rw [AssocList.nodupKeys_iff, ← hkeys, ← AssocList.nodupKeys_iff]
    exact h.1
  rw [canonicalSerdeValue, Json.sorted, convertToSerdeValue, hkeys, fillObject_eq hnodup,
    hmembers, convertToSerdeMembers_eq, convertToSerdeMembers_eq]
  congr 1
  exact (map_insertionSort (fun a b : String × Json F => keyLe a.1 b.1)
    (fun a b : String × SerdeValue F => keyLe a.1 b.1) _ _ (fun _ _ _ _ => Iff.rfl)).symm

/-! ## The text of the library's value -/

/-- What the JSON library's documentation promises about the numbers that it writes. -/
structure Serde.WritesNumbers (S : Serde F) : Prop where
  /-- Integers are written as numerals. -/
  int : ∀ value : I64, S.displayNumber value.toSerdeNumber = value.toText
  /-- A parsed number is written as a number. -/
  token : ∀ raw number, S.parseNumber raw = some number → NumberToken (S.displayNumber number)

/-- The library writes a value as the runtime does, but for the number tokens. -/
lemma toText_convertToSerdeValue (hS : S.Writes) (hnumbers : S.WritesNumbers) (j : Json F)
    (depth : Nat) : (convertToSerdeValue S j).toText S =
      renderJson S none depth (withTokens (canonicalNumber S) j) := by
  induction j using Json.induction generalizing depth with
  | null | bool => rfl
  | int i => exact hnumbers.int i
  | float f =>
    rw [convertToSerdeValue, withTokens, renderJson]
    cases S.numberFromF64 f with
    | none | some => rfl
  | number number =>
    rw [convertToSerdeValue, withTokens, renderJson, canonicalNumber]
    cases S.parseNumber number.raw with
    | none | some => rfl
  | string s =>
    rcases hS.string s with ⟨t, ht, -⟩
    rw [convertToSerdeValue, SerdeValue.toText, withTokens, renderJson, ht]
    rfl
  | array values ih =>
    rw [convertToSerdeValue, SerdeValue.toText, withTokens, renderJson_array, itemTexts_eq,
      convertToSerdeItems_eq, withTokensItems_eq, map_map, map_map]
    congr 3
    apply map_congr_left
    intro value hvalue
    exact ih value hvalue (depth + 1)
  | object values ih => ?_
  rw [convertToSerdeValue, SerdeValue.toText, withTokens, renderJson_object, memberTexts_eq,
    convertToSerdeMembers_eq, withTokensMembers_eq, map_map, map_map]
  congr 3
  apply map_congr_left
  intro m hm
  rcases hS.string m.1 with ⟨t, ht, -⟩
  simp only [Function.comp, renderKey, ht, Option.getD_some]
  rw [ih m hm (depth + 1)]

/-- The canonical text is the text of the value with sorted keys and rewritten number tokens. -/
theorem canonical_eq (hS : S.Writes) (hnumbers : S.WritesNumbers) (j : Json F)
    (h : Writable S j) :
    j.canonical S = (withTokens (canonicalNumber S) j.sorted).stringify S none := by
  rw [Json.canonical, canonicalSerdeValue_eq j h]
  exact toText_convertToSerdeValue hS hnumbers j.sorted 0

/-! ## Rewritten tokens change the text -/

lemma tokens_array (values : List (Json F)) :
    (Json.array values).tokens = values.flatMap Json.tokens := by
  rw [Json.tokens]
  induction values with
  | nil => rfl
  | cons value values ih => rw [tokensItems, ih, flatMap_cons]

lemma tokens_object : (Json.object values).tokens = values.flatMap (fun m => m.2.tokens) := by
  rw [Json.tokens]
  induction values with
  | nil => rfl
  | cons m values ih => rw [tokensMembers, ih, flatMap_cons]

/-- Two texts that come before a delimiter can be equal, together with what follows, only under a
condition, and then what follows is equal. -/
def Cancels (t t' : List UInt8) (condition : Prop) : Prop :=
  ∀ rest rest', Next isDelimiter rest → Next isDelimiter rest' → t ++ rest = t' ++ rest' →
    condition ∧ rest = rest'

lemma cancels_self (t : List UInt8) : Cancels t t True :=
  fun _ _ _ _ h => ⟨trivial, append_cancel_left h⟩

lemma Cancels.append_left {t t' : List UInt8} {condition : Prop} (h : Cancels t t' condition)
    (start : List UInt8) : Cancels (start ++ t) (start ++ t') condition := by
  intro rest rest' hrest hrest' heq
  rw [append_assoc, append_assoc] at heq
  exact h rest rest' hrest hrest' (append_cancel_left heq)

/-- Texts without delimiters. -/
lemma cancels_plain {t t' : List UInt8} (ht : ∀ b ∈ t, isDelimiter b = false)
    (ht' : ∀ b ∈ t', isDelimiter b = false) : Cancels t t' (t = t') := by
  intro rest rest' hrest hrest' heq
  have htake : ∀ {t rest : List UInt8}, (∀ b ∈ t, isDelimiter b = false) → Next isDelimiter rest →
      (t ++ rest).takeWhile (fun b => !isDelimiter b) = t := by
    intro t rest ht hrest
    apply Cursor.takeWhile_run
    · intro b hb
      simp [ht b hb]
    · intro b hb
      simp [hrest b hb]
  have hsame : t = t' := by rw [← htake ht hrest, heq, htake ht' hrest']
  subst hsame
  exact ⟨rfl, append_cancel_left heq⟩

lemma intercalate_cons_cons (t u : List UInt8) (texts : List (List UInt8)) :
    List.intercalate (ascii ",") (t :: u :: texts) =
      t ++ byte ',' :: List.intercalate (ascii ",") (u :: texts) := by
  rfl

/-- The entries between brackets, one by one. -/
lemma cancels_intercalate {α : Type} {text text' : α → List UInt8} {condition : α → Prop}
    {entries : List α} (h : ∀ a ∈ entries, Cancels (text a) (text' a) (condition a))
    {closing : UInt8} (hclosing : isDelimiter closing = true) {rest rest' : List UInt8}
    (heq : List.intercalate (ascii ",") (entries.map text) ++ closing :: rest =
      List.intercalate (ascii ",") (entries.map text') ++ closing :: rest') :
    (∀ a ∈ entries, condition a) ∧ rest = rest' := by
  induction entries with
  | nil => exact ⟨forall_mem_nil _, (List.cons.inj heq).2⟩
  | cons a entries ih => ?_
  rw [forall_mem_cons] at h
  cases entries with
  | nil =>
    rw [map_singleton, map_singleton, intercalate_singleton, intercalate_singleton] at heq
    have hfirst := h.1 _ _ (next_cons hclosing) (next_cons hclosing) heq
    exact ⟨forall_mem_singleton.mpr hfirst.1, (List.cons.inj hfirst.2).2⟩
  | cons b entries => ?_
  have hcomma : isDelimiter (byte ',') = true := by decide
  rw [map_cons, map_cons, map_cons, map_cons, intercalate_cons_cons,
    intercalate_cons_cons, append_assoc, append_assoc] at heq
  have hfirst := h.1 _ _ (next_cons hcomma) (next_cons hcomma) heq
  have hrest := ih h.2 (List.cons.inj hfirst.2).2
  exact ⟨forall_mem_cons.mpr ⟨hfirst.1, hrest.1⟩, hrest.2⟩

lemma cancels_entries {α : Type} {text text' : α → List UInt8} {condition : α → Prop}
    {entries : List α} (h : ∀ a ∈ entries, Cancels (text a) (text' a) (condition a))
    (opening : UInt8) {closing : UInt8} (hclosing : isDelimiter closing = true) :
    Cancels ([opening] ++ List.intercalate (ascii ",") (entries.map text) ++ [closing])
      ([opening] ++ List.intercalate (ascii ",") (entries.map text') ++ [closing])
      (∀ a ∈ entries, condition a) := by
  intro rest rest' _ _ heq
  simp only [append_assoc, cons_append, List.cons.injEq, true_and] at heq
  exact cancels_intercalate h hclosing heq

variable {f : List UInt8 → List UInt8}

lemma cancels_withTokens (hplain : ∀ raw ∈ j.tokens, ∀ b ∈ raw ++ f raw, isDelimiter b = false)
    (depth : Nat) :
    Cancels (renderJson S none depth (withTokens f j)) (renderJson S none depth j)
      (∀ raw ∈ j.tokens, f raw = raw) := by
  induction j using Json.induction generalizing depth with
  | null | bool | int | float | string =>
    intro rest rest' hrest hrest' heq
    exact ⟨forall_mem_nil _, (cancels_self _ rest rest' hrest hrest' heq).2⟩
  | number number =>
    have hnumber := hplain number.raw (mem_singleton_self _)
    have hcancels := cancels_plain
      (fun b hb => hnumber b (mem_append_right _ hb))
      (fun b hb => hnumber b (mem_append_left _ hb))
    intro rest rest' hrest hrest' heq
    have hsame := hcancels rest rest' hrest hrest' heq
    exact ⟨forall_mem_singleton.mpr hsame.1, hsame.2⟩
  | array values ih =>
    rw [tokens_array, forall_mem_flatMap] at hplain ⊢
    rw [withTokens, renderJson_array, renderJson_array, withTokensItems_eq, map_map]
    exact cancels_entries (fun v hv => ih v hv (hplain v hv) (depth + 1)) _ (by decide)
  | object values ih =>
    rw [tokens_object, forall_mem_flatMap] at hplain ⊢
    rw [withTokens, renderJson_object, renderJson_object, withTokensMembers_eq, map_map]
    refine cancels_entries (fun m hm => ?_) _ (by decide)
    exact (ih m hm (hplain m hm) (depth + 1)).append_left (renderKey S m.1 ++ ascii ":")

lemma withTokens_eq_self (h : ∀ raw ∈ j.tokens, f raw = raw) : withTokens f j = j := by
  induction j using Json.induction with
  | null | bool | int | float | string => rfl
  | number number => rw [withTokens, h number.raw (mem_singleton_self _)]
  | array values ih =>
    rw [tokens_array, forall_mem_flatMap] at h
    have hvalues : values.map (withTokens f) = values.map id :=
      map_congr_left (fun v hv => ih v hv (h v hv))
    rw [withTokens, withTokensItems_eq, hvalues, map_id]
  | object values ih =>
    rw [tokens_object, forall_mem_flatMap] at h
    have hvalues : values.map (fun m => (m.1, withTokens f m.2)) = values.map id :=
      map_congr_left (fun m hm => congrArg (Prod.mk m.1) (ih m hm (h m hm)))
    rw [withTokens, withTokensMembers_eq, hvalues, map_id]

/-- Rewriting the tokens keeps the text if and only if it keeps each token. -/
theorem stringify_withTokens_iff
    (hplain : ∀ raw ∈ j.tokens, ∀ b ∈ raw ++ f raw, isDelimiter b = false) :
    (withTokens f j).stringify S none = j.stringify S none ↔ ∀ raw ∈ j.tokens, f raw = raw := by
  constructor
  · intro heq
    have hcancels := cancels_withTokens (S := S) j hplain 0
    exact (hcancels [] [] (next_nil _) (next_nil _) (congrArg (· ++ []) heq)).1
  · intro h
    rw [withTokens_eq_self j h]

/-! ## Sorting keeps the numbers -/

/-- What is collected from the values of containers is collected from the sorted value in another
order. -/
lemma perm_sorted {β : Type} (collect : Json F → List β)
    (harray : ∀ values, collect (.array values) = values.flatMap collect)
    (hobject : ∀ values, collect (.object values) = values.flatMap (fun m => collect m.2))
    (j : Json F) : (collect j.sorted).Perm (collect j) := by
  induction j using Json.induction with
  | null | bool | int | float | number | string => exact .refl _
  | array values ih =>
    rw [Json.sorted, harray, harray, sortedItems_eq, flatMap_map]
    exact List.Perm.flatMap_left _ ih
  | object values ih => ?_
  have hsort := perm_insertionSort (fun a b : String × Json F => keyLe a.1 b.1)
    (sortedMembers values)
  rw [Json.sorted, hobject, hobject]
  refine (hsort.flatMap_right _).trans ?_
  rw [sortedMembers_eq, flatMap_map]
  exact List.Perm.flatMap_left _ ih

lemma numbers_array (values : List (Json F)) :
    (document S (.array values)).numbers = values.flatMap (fun v => (document S v).numbers) := by
  rw [document, Doc.numbers]
  induction values with
  | nil => rfl
  | cons value values ih => rw [documentItems, itemNumbers, ih, flatMap_cons]

lemma numbers_object : (document S (.object values)).numbers =
      values.flatMap (fun m => (document S m.2).numbers) := by
  rw [document, Doc.numbers]
  induction values with
  | nil => rfl
  | cons m values ih => rw [documentMembers, memberNumbers, ih, flatMap_cons]

lemma Writable.sorted {j : Json F} (h : Writable S j) : Writable S j.sorted := by
  induction j using Json.induction with
  | null | bool | int | float | number | string => exact h
  | array values ih =>
    rw [Json.sorted, Writable, sortedItems_eq, writableItems_iff, forall_mem_map]
    exact fun v hv => ih v hv ((writableItems_iff values).mp h v hv)
  | object values ih => ?_
  have hsort := perm_insertionSort (fun a b : String × Json F => keyLe a.1 b.1)
    (sortedMembers values)
  have hkeys : (sortedMembers values).map Prod.fst = values.map Prod.fst := by
    rw [sortedMembers_eq, map_map]
    rfl
  have hnodup : AssocList.NodupKeys (sortedMembers values) := by
    rw [AssocList.nodupKeys_iff, hkeys, ← AssocList.nodupKeys_iff]
    exact h.1
  refine ⟨nodupKeys_perm hsort.symm hnodup, ?_⟩
  rw [writableMembers_iff]
  intro m hm
  rw [hsort.mem_iff, sortedMembers_eq] at hm
  rcases mem_map.mp hm with ⟨m', hm', rfl⟩
  exact ih m' hm' ((writableMembers_iff values).mp h.2 m' hm')

/-! ## Reading the canonical text -/

lemma document_parsedNumber (hS : S.Writes) (raw : List UInt8) :
    document S (parsedNumber S raw) = .number raw := by
  have hclass := classified_parsedNumber hS.real hS.asF64_float hS.serialize raw
  generalize parsedNumber S raw = j at hclass ⊢
  cases hclass with
  | int hparse htext => rw [document, htext]
  | float hreal hfinite htext => rw [document, if_pos hfinite, htext]
  | number => rfl

mutual

/-- The value of a document has that document. -/
lemma document_toJson (hS : S.Writes) (d : Doc) : document S (toJson S d) = d := by
  cases d with
  | null | bool | string => rfl
  | number token => exact document_parsedNumber hS token
  | array items => rw [toJson, document, documentItems_toJson hS items]
  | object members => rw [toJson, document, documentMembers_toJson hS members]

lemma documentItems_toJson (hS : S.Writes) (items : List Doc) :
    documentItems S (toJsonItems S items) = items := by
  cases items with
  | nil => rfl
  | cons d items =>
    rw [toJsonItems, documentItems, document_toJson hS d, documentItems_toJson hS items]

lemma documentMembers_toJson (hS : S.Writes) (members : List (String × Doc)) :
    documentMembers S (toJsonMembers S members) = members := by
  cases members with
  | nil => rfl
  | cons m members =>
    rw [toJsonMembers, documentMembers, document_toJson hS m.2, documentMembers_toJson hS members]

end

/-- The text of a value without indentation can be read within the limits of the parser. -/
structure WithinLimits (S : Serde F) (j : Json F) : Prop where
  depth : (document S j).depth ≤ maxJsonDepth
  size : (j.stringify S none).length ≤ maxJsonInputBytes
  tokens : (document S j).tokenCount ≤ maxJsonTokens

/-- Tokens of a value and what the library writes for them have no delimiter. -/
lemma isDelimiter_tokens (hnumbers : S.WritesNumbers) {j : Json F} (h : Writable S j) :
    ∀ raw ∈ j.tokens, ∀ b ∈ raw ++ canonicalNumber S raw, isDelimiter b = false := by
  have hbytes : ∀ {token : List UInt8}, NumberToken token → ∀ b ∈ token, isDelimiter b = false := by
    intro token htoken b hb
    by_contra hdelimiter
    have hnot := isNumberByte_of_isDelimiter (Bool.not_eq_false _ ▸ hdelimiter)
    rw [numberToken_bytes htoken b hb] at hnot
    cases hnot
  induction j using Json.induction with
  | null | bool | int | float | string => exact forall_mem_nil _
  | number number =>
    rw [Json.tokens, forall_mem_singleton]
    intro b hb
    rcases mem_append.mp hb with hb | hb
    · exact hbytes h.token b hb
    rw [canonicalNumber] at hb
    split at hb
    · rename_i parsed hparsed
      exact hbytes (hnumbers.token _ parsed hparsed) b hb
    · have hnull : (ascii "null").all (fun b => !isDelimiter b) = true := rfl
      simpa using all_eq_true.mp hnull b hb
  | array values ih =>
    rw [tokens_array, forall_mem_flatMap]
    exact fun v hv => ih v hv ((writableItems_iff values).mp h v hv)
  | object values ih =>
    rw [tokens_object, forall_mem_flatMap]
    exact fun m hm => ih m hm ((writableMembers_iff values).mp h.2 m hm)

/-- The canonical text is the text of the value with sorted keys, and reading it gives a value
with the same numbers, if and only if the library writes every number token of the value as it
is. -/
theorem canonical_exact_iff (hS : S.Writes) (hnumbers : S.WritesNumbers) (j : Json F)
    (h : Writable S j) : (j.canonical S = j.sorted.stringify S none ∧
      (WithinLimits S j.sorted → ∃ j', Json.parse S (j.canonical S) = .ok j' ∧
        (document S j').numbers.Perm (document S j).numbers)) ↔
      ∀ raw ∈ j.tokens, canonicalNumber S raw = raw := by
  have hsorted := h.sorted
  have htokens : ∀ raw, raw ∈ j.sorted.tokens ↔ raw ∈ j.tokens :=
    fun raw => (perm_sorted Json.tokens tokens_array tokens_object j).mem_iff
  have htext : j.canonical S = j.sorted.stringify S none ↔
      ∀ raw ∈ j.tokens, canonicalNumber S raw = raw := by
    rw [canonical_eq hS hnumbers j h,
      stringify_withTokens_iff j.sorted (isDelimiter_tokens hnumbers hsorted)]
    simp only [htokens]
  constructor
  · intro hexact
    exact htext.mp hexact.1
  intro hkept
  have hcanonical := htext.mpr hkept
  refine ⟨hcanonical, fun hlimits => ⟨toJson S (document S j.sorted), ?_, ?_⟩⟩
  · rw [hcanonical]
    exact parse_stringify_document hS j.sorted hsorted none hlimits.depth hlimits.size
      hlimits.tokens
  · rw [document_toJson hS]
    exact perm_sorted (fun j => (document S j).numbers) numbers_array numbers_object j

end Library

/-! ## A token that is not kept -/

lemma sampleSerde_writesNumbers : sampleSerde.WritesNumbers where
  int := by
    intro value
    unfold I64.toSerdeNumber
    split_ifs with hsign
    · change decimal value.val.toNat = value.toText
      rw [← ascii_toString, I64.toText, ← Int.toNat_of_nonneg hsign]
      rfl
    · rfl
  token := by
    intro raw number hparse
    simp only [sampleSerde] at hparse
    split_ifs at hparse
    cases hparse
    exact numberToken_oneAndHalf [] (forall_mem_nil _)

lemma inRange_sample : -2 ^ 63 ≤ (-7 : Int) ∧ (-7 : Int) < 2 ^ 63 := by decide

/-- An object whose keys are not in order. -/
def unsortedJson : Json SampleFloat :=
  .object [("b", .int ⟨-7, inRange_sample⟩), ("a", .float .oneAndHalf)]

theorem unsortedJson_canonical :
    unsortedJson.canonical sampleSerde = ascii "\x7b\"a\":1.5,\"b\":-7\x7d" ∧
      unsortedJson.canonical sampleSerde = unsortedJson.sorted.stringify sampleSerde none := by
  have hwritable : Writable sampleSerde unsortedJson :=
    ⟨by rw [AssocList.nodupKeys_iff]; decide, trivial, trivial, trivial⟩
  have hexact := (canonical_exact_iff sampleSerde_roundTrips.toWrites sampleSerde_writesNumbers unsortedJson
    hwritable).mpr (forall_mem_nil _)
  exact ⟨by decide +kernel, hexact.1⟩

/-- The canonical text of a number with a trailing zero has lost it. -/
theorem trailing_zero_is_lost : Writable sampleSerde (.number ⟨ascii "1.50"⟩) ∧
      (Json.number ⟨ascii "1.50"⟩).canonical sampleSerde = ascii "1.5" ∧
      (Json.number ⟨ascii "1.50"⟩).sorted.stringify sampleSerde none = ascii "1.50" :=
  ⟨sampleSerde_validNumber (numberToken_oneAndHalf [byte '0'] (all_eq_true.mp rfl)), rfl, rfl⟩

end MuxRuntime
