import MuxRuntime.Foundations.Decimal
import MuxRuntime.Foundations.JsonReader
import MuxRuntime.Json.Numbers

/-!
# Parsing what was rendered

Rendering a JSON value gives a text of the grammar that spells the value, in
every indentation, and parsing that text gives the value back.
-/

namespace MuxRuntime

open List Utf8 Loop Cursor JsonGrammar

variable {F : Type}

/-! ## Joining phrases -/

variable {d : Doc} {t : List UInt8}

section Joining

variable {unescape : List UInt8 → Option String}

variable {w w' : List UInt8}

lemma text_element_pad (hw : Blank w) (h : Text unescape (.element d) t) (hw' : Blank w') :
    Text unescape (.element d) (w ++ (t ++ w')) := by
  cases h with
  | @element _ v t v' hv ht hv' =>
    have hpad := Text.element (blank_append hw hv) ht (blank_append hv' hw')
    simpa using hpad

lemma text_member_pad {key : String} (hw : Blank w) (h : Text unescape (.member key d) t)
    (hw' : Blank w') : Text unescape (.member key d) (w ++ (t ++ w')) := by
  cases h with
  | @member _ _ v k v' t hv hk hv' ht =>
    have hpad := Text.member (blank_append hw hv) hk hv' (text_element_pad blank_nil ht hw')
    simpa using hpad

/-- Padded phrases that are joined by commas form a list phrase. -/
lemma text_intercalate {α : Type} {P : α → List UInt8 → Prop} {M : List α → List UInt8 → Prop}
    (hlast : ∀ {a t}, P a t → M [a] t)
    (hmore : ∀ {a as t ts}, P a t → M as ts → M (a :: as) (t ++ byte ',' :: ts))
    (hpad : ∀ {a w t w'}, Blank w → P a t → Blank w' → P a (w ++ (t ++ w'))) {v : List UInt8}
    (hv : Blank v) (hw' : Blank w') {items : List α} {entries : List (List UInt8)}
    (h : List.Forall₂ P items entries) (hne : items ≠ []) (hw : Blank w) :
    M items (w ++ (List.intercalate (byte ',' :: v) entries ++ w')) := by
  induction h generalizing w with
  | nil => exact absurd rfl hne
  | @cons a t items entries hat hrest ih => ?_
  cases hrest with
  | nil =>
    have hone := hlast (hpad hw hat hw')
    simpa [List.intercalate] using hone
  | @cons b t' items entries hbt hrest =>
    have htail := ih (by simp) hv
    have hall := hmore (hpad hw hat blank_nil) htail
    simpa [List.intercalate] using hall

lemma blank_spaces (count : Nat) : Blank (spaces count) := by
  intro b hb
  rw [eq_of_mem_replicate hb]
  decide

lemma blank_newline : Blank (ascii "\n") :=
  all_eq_true.mp rfl

/-- The text between the brackets, in any indentation. -/
lemma text_renderEntries {α : Type} {P : α → List UInt8 → Prop}
    {M : List α → List UInt8 → Prop} (hlast : ∀ {a t}, P a t → M [a] t)
    (hmore : ∀ {a as t ts}, P a t → M as ts → M (a :: as) (t ++ byte ',' :: ts))
    (hpad : ∀ {a w t w'}, Blank w → P a t → Blank w' → P a (w ++ (t ++ w')))
    {items : List α} {entries : List (List UInt8)} (h : List.Forall₂ P items entries)
    (hne : items ≠ []) (opening closing : UInt8) (indent : Option Nat) (depth : Nat) :
    ∃ t, M items t ∧
      renderEntries opening closing indent depth entries = opening :: (t ++ [closing]) := by
  cases indent with
  | none =>
    have hjoin := text_intercalate hlast hmore hpad blank_nil blank_nil h hne blank_nil
    refine ⟨_, hjoin, ?_⟩
    simp [renderEntries, show ascii "," = [byte ','] from rfl]
  | some width => ?_
  have hpadded : List.Forall₂ P items
      (entries.map (fun entry => spaces (width * (depth + 1)) ++ entry)) := by
    rw [forall₂_map_right_iff]
    refine h.imp (fun a t hat => ?_)
    have := hpad (blank_spaces (width * (depth + 1))) hat blank_nil
    rwa [append_nil] at this
  have hjoin := text_intercalate hlast hmore hpad blank_newline
    (blank_append blank_newline (blank_spaces (width * depth))) hpadded hne blank_newline
  refine ⟨_, hjoin, ?_⟩
  simp [renderEntries, show ascii ",\n" = byte ',' :: ascii "\n" from rfl]

end Joining

/-! ## Assumptions on the library -/

/-- The nesting depth the deserializer accepts. -/
def maxJsonDepth : Nat :=
  127

/-- A token that is a JSON number and that the library reads as one. -/
structure Serde.ValidNumber (S : Serde F) (raw : List UInt8) : Prop where
  token : NumberToken raw
  accepted : S.deserialize raw = some (.number raw)

/-- What the JSON library's documentation promises about the texts that it reads and writes. -/
structure Serde.Writes (S : Serde F) : Prop where
  /-- Every text of the grammar is accepted within the depth limit. -/
  complete : ∀ text d, Document S.unescape d text → d.depth ≤ maxJsonDepth →
    (∀ raw ∈ d.numbers, S.ValidNumber raw) → S.deserialize text = some d
  /-- A serialized string denotes the string. -/
  string : ∀ s, ∃ t, S.serializeString s = some t ∧ StringText S.unescape s t
  /-- The numbers that are visited are finite. -/
  finite : ∀ raw value, S.ValidNumber raw → S.visited raw = .f64 value → S.isFinite value = true
  /-- Integers of 64 bits are accepted. -/
  int : ∀ value : I64, S.deserialize value.toText = some (.number value.toText)
  /-- A displayed float is a number. -/
  float : ∀ value, S.isFinite value = true → S.ValidNumber (S.displayNumber (.float value))
  real : ∀ raw number, isReal raw = true → S.parseNumber raw = some number →
    ∃ value, number = .float value ∧ S.isFinite value = true
  asF64_float : ∀ value, S.asF64 (.float value) = some value
  serialize : ∀ number, S.serializeNumber number = some (S.displayNumber number)

/-- The library reads back the floats that it writes, which it promises only when it is built to
parse floats exactly. -/
structure Serde.RoundTrips (S : Serde F) : Prop extends S.Writes where
  back : ∀ value, S.isFinite value = true → isReal (S.displayNumber (.float value)) = true ∧
    S.parseNumber (S.displayNumber (.float value)) = some (.float value)

mutual

/-- The values that have a JSON text of their own: finite floats, valid number tokens
that are not the text of an integer or a float, and distinct keys. -/
def Renderable (S : Serde F) : Json F → Prop
  | .null | .bool _ | .int _ | .string _ => True
  | .float value => S.isFinite value = true
  | .number number => S.ValidNumber number.raw ∧ (∀ value : I64, value.toText ≠ number.raw) ∧
      ∀ value, S.isFinite value = true → S.displayNumber (.float value) ≠ number.raw
  | .array values => RenderableItems S values
  | .object values => AssocList.NodupKeys values ∧ RenderableMembers S values

def RenderableItems (S : Serde F) : List (Json F) → Prop
  | [] => True
  | value :: values => Renderable S value ∧ RenderableItems S values

def RenderableMembers (S : Serde F) : List (String × Json F) → Prop
  | [] => True
  | (_, value) :: values => Renderable S value ∧ RenderableMembers S values

end

mutual

/-- The values whose number tokens are valid and whose keys are distinct. -/
def Writable (S : Serde F) : Json F → Prop
  | .null | .bool _ | .int _ | .float _ | .string _ => True
  | .number number => S.ValidNumber number.raw
  | .array values => WritableItems S values
  | .object values => AssocList.NodupKeys values ∧ WritableMembers S values

def WritableItems (S : Serde F) : List (Json F) → Prop
  | [] => True
  | value :: values => Writable S value ∧ WritableItems S values

def WritableMembers (S : Serde F) : List (String × Json F) → Prop
  | [] => True
  | (_, value) :: values => Writable S value ∧ WritableMembers S values

end

mutual

/-- The document of a value's text, where a float that is not finite is written as null. -/
def document (S : Serde F) : Json F → Doc
  | .null => .null
  | .bool value => .bool value
  | .int value => .number value.toText
  | .float value => if S.isFinite value then .number (S.displayNumber (.float value)) else .null
  | .number number => .number number.raw
  | .string value => .string value
  | .array values => .array (documentItems S values)
  | .object values => .object (documentMembers S values)

def documentItems (S : Serde F) : List (Json F) → List Doc
  | [] => []
  | value :: values => document S value :: documentItems S values

def documentMembers (S : Serde F) : List (String × Json F) → List (String × Doc)
  | [] => []
  | (key, value) :: values => (key, document S value) :: documentMembers S values

end

/-! ## Numbers -/

variable (value : I64)

/-- The text of an integer is its sign and a decimal numeral. -/
lemma I64.toText_eq : (∃ n : Nat, value.val = n ∧ value.toText = decimal n) ∨
      ∃ n : Nat, 0 < n ∧ value.val = -n ∧ value.toText = byte '-' :: decimal n := by
  rcases value with ⟨val, hrange⟩
  cases val with
  | ofNat n => exact Or.inl ⟨n, rfl, ascii_toString n⟩
  | negSucc n => ?_
  refine Or.inr ⟨n + 1, by omega, rfl, ?_⟩
  rw [← ascii_toString]
  simp only [I64.toText, ascii]
  rw [show toString (Int.negSucc n) = "-" ++ toString (n + 1) from rfl, String.toList_append,
    encode_append]
  rfl

lemma integerPart_decimal (n : Nat) : IntegerPart (decimal n) := by
  rcases Nat.eq_zero_or_pos n with rfl | hn
  · exact .zero
  have hdigits := @isAsciiDigit_decimal n
  rcases decimal_head hn with ⟨d, ds, hds, hd⟩
  rw [hds, forall_mem_cons] at hdigits
  rw [hds]
  exact .digits hdigits.1 hd hdigits.2

lemma I64.numberToken : NumberToken value.toText := by
  rcases value.toText_eq with ⟨n, -, htext⟩ | ⟨n, -, -, htext⟩
  · exact ⟨[], decimal n, [], [], Or.inl rfl, integerPart_decimal n, .none, .none, by simp [htext]⟩
  · exact ⟨[byte '-'], decimal n, [], [], Or.inr rfl, integerPart_decimal n, .none, .none,
      by simp [htext]⟩

lemma digitsValue_decimal (n : Nat) : digitsValue (decimal n) = some n := by
  have hall : (decimal n).all isAsciiDigit = true := all_eq_true.mpr isAsciiDigit_decimal
  have hne : (decimal n).isEmpty = false := by simpa using decimal_ne_nil n
  simp [digitsValue, hall, hne, foldl_decimal]

lemma I64.ofInt?_val : I64.ofInt? value.val = some value := by
  rw [I64.ofInt?, dif_pos value.inRange]

lemma parseI64_toText : parseI64 value.toText = some value := by
  have hval := value.ofInt?_val
  rcases value.toText_eq with ⟨n, hn, htext⟩ | ⟨n, -, hn, htext⟩
  · rw [hn] at hval
    have hdigits := @isAsciiDigit_decimal n
    have hvalue := digitsValue_decimal n
    rw [htext]
    rcases hd : decimal n with _ | ⟨d, ds⟩
    · exact absurd hd (decimal_ne_nil n)
    rw [hd] at hdigits hvalue
    have hdigit := hdigits d (by simp)
    have hminus : d ≠ byte '-' := by
      rintro rfl
      exact absurd hdigit (by decide)
    have hplus : d ≠ byte '+' := by
      rintro rfl
      exact absurd hdigit (by decide)
    rw [parseI64, if_neg (by simpa using hminus), if_neg (by simpa using hplus), hvalue,
      Option.bind_some, hval]
  · rw [hn] at hval
    rw [htext, parseI64, if_pos (by simp), digitsValue_decimal, Option.bind_some, hval]

variable {raw : List UInt8}

lemma digitsValue_eq_none {b : UInt8} (hb : b ∈ raw) (hdigit : isAsciiDigit b = false) :
    digitsValue raw = none := by
  have hall : raw.all isAsciiDigit = false := all_eq_false.mpr ⟨b, hb, by simp [hdigit]⟩
  simp [digitsValue, hall]

/-- A token with a fraction or an exponent is not an integer. -/
lemma parseI64_real (h : isReal raw = true) : parseI64 raw = none := by
  rcases any_eq_true.mp h with ⟨b, hb, hmark⟩
  have hmarks : isAsciiDigit b = false ∧ b ≠ byte '-' ∧ b ≠ byte '+' := by
    simp only [Bool.or_eq_true, beq_iff_eq] at hmark
    rcases hmark with (rfl | rfl) | rfl <;> decide
  rcases raw with _ | ⟨c, raw⟩
  · rfl
  have hwhole := digitsValue_eq_none hb hmarks.1
  rw [parseI64]
  split_ifs with hminus hplus
  · have hrest : b ∈ raw := (mem_cons.mp hb).resolve_left (fun h => hmarks.2.1
      (h.trans (beq_iff_eq.mp hminus)))
    rw [digitsValue_eq_none hrest hmarks.1]
    rfl
  · have hrest : b ∈ raw := (mem_cons.mp hb).resolve_left (fun h => hmarks.2.2
      (h.trans (beq_iff_eq.mp hplus)))
    rw [digitsValue_eq_none hrest hmarks.1]
    rfl
  · rw [hwhole]
    rfl

section Library

variable {S : Serde F}

lemma parsedNumber_int (value : I64) : parsedNumber S value.toText = .int value := by
  have hfilter : (some value).filter (fun parsed => parsed.toText == value.toText) =
      some value := by
    rw [Option.filter_some, if_pos (by simp)]
  rw [parsedNumber, parseI64_toText, hfilter]

lemma parsedNumber_float (hS : S.RoundTrips) {value : F} (hfinite : S.isFinite value = true) :
    parsedNumber S (S.displayNumber (.float value)) = .float value := by
  rcases hS.back value hfinite with ⟨hreal, hparse⟩
  simp [parsedNumber, parseI64_real hreal, hreal, parsedReal, hparse, hS.asF64_float, hS.serialize]

lemma parsedNumber_number (hS : S.RoundTrips) {number : JsonNumber}
    (h : Renderable S (.number number)) : parsedNumber S number.raw = .number number := by
  rcases h with ⟨-, hint, hfloat⟩
  have hfilter : (parseI64 number.raw).filter (fun value => value.toText == number.raw) = none := by
    rw [Option.filter_eq_none_iff]
    intro value _
    simpa using hint value
  rw [parsedNumber, hfilter]
  dsimp only
  split_ifs with hreal
  · rfl
  rw [parsedReal]
  split
  · rfl
  rename_i parsed hparse
  rcases hS.real _ parsed (by simpa using hreal) hparse with ⟨value, rfl, hfinite⟩
  rw [hS.asF64_float, hS.serialize]
  dsimp only
  rw [if_neg (fun h => hfloat value hfinite (Option.some.inj h))]

/-! ## The rendered text -/

lemma text_element_of_value (h : Text S.unescape (.value d) t) :
    Text S.unescape (.element d) t := by
  have hpad := Text.element blank_nil h blank_nil
  rwa [nil_append, append_nil] at hpad

/-- A rendered key, the separator and a value form a member. -/
lemma text_member_of_value (hS : S.Writes) {key : String} (indent : Option Nat)
    (h : Text S.unescape (.value d) t) :
    Text S.unescape (.member key d)
      (renderKey S key ++ ascii (if indent.isSome then ": " else ":") ++ t) := by
  rcases hS.string key with ⟨k, hk, hkey⟩
  have hvalue := text_element_of_value h
  rw [renderKey, hk, Option.getD_some]
  cases indent with
  | none =>
    have hmember := Text.member blank_nil hkey blank_nil hvalue
    simpa [show ascii ":" = [byte ':'] from rfl] using hmember
  | some width =>
    have hblank : Blank [byte ' '] := all_eq_true.mp rfl
    have hmember := Text.member blank_nil hkey blank_nil
      (text_element_pad hblank hvalue blank_nil)
    simpa [show ascii ": " = [byte ':', byte ' '] from rfl] using hmember

mutual

/-- The rendered text is a text of the document. -/
theorem text_renderJson (hS : S.Writes) (indent : Option Nat) (depth : Nat) (j : Json F)
    (h : Writable S j) : Text S.unescape (.value (document S j)) (renderJson S indent depth j) := by
  cases j with
  | null => exact .null
  | bool b =>
    cases b with
    | true => exact .litTrue
    | false => exact .litFalse
  | int value => exact .number value.numberToken
  | float value =>
    rw [document, renderJson, Serde.numberFromF64]
    by_cases hfinite : S.isFinite value = true
    · rw [if_pos hfinite, if_pos hfinite]
      exact .number (hS.float value hfinite).token
    · rw [if_neg hfinite, if_neg hfinite]
      exact .null
  | number number => exact .number h.token
  | string s =>
    rcases hS.string s with ⟨t, ht, htext⟩
    rw [renderJson, ht]
    exact .string htext
  | array values =>
    rw [document, renderJson]
    rcases values with _ | ⟨value, values⟩
    · exact .emptyArray blank_nil
    have hitems := text_renderItems hS indent (depth + 1) (value :: values) h
    rw [documentItems] at hitems ⊢
    rcases text_renderEntries (M := fun items t => Text S.unescape (.elements items) t)
      .lastElement .moreElements text_element_pad hitems (by simp) (byte '[') (byte ']')
      indent depth with ⟨t, ht, hrender⟩
    rw [isEmpty_cons, if_neg (by simp), hrender]
    exact .array ht
  | object values => ?_
  rw [document, renderJson]
  rcases values with _ | ⟨m, values⟩
  · exact .emptyObject blank_nil
  have hmembers := text_renderMembers hS indent (depth + 1) (m :: values) h.2
  rw [documentMembers] at hmembers ⊢
  rcases text_renderEntries (M := fun members t => Text S.unescape (.members members) t)
    .lastMember .moreMembers text_member_pad hmembers (by simp) (byte '\x7b')
    (byte '\x7d') indent depth with ⟨t, ht, hrender⟩
  rw [isEmpty_cons, if_neg (by simp), hrender]
  exact .object ht

lemma text_renderItems (hS : S.Writes) (indent : Option Nat) (depth : Nat)
    (values : List (Json F)) (h : WritableItems S values) :
    List.Forall₂ (fun d t => Text S.unescape (.element d) t) (documentItems S values)
      (renderItems S indent depth values) := by
  cases values with
  | nil => exact .nil
  | cons value values =>
    exact .cons (text_element_of_value (text_renderJson hS indent depth value h.1))
      (text_renderItems hS indent depth values h.2)

lemma text_renderMembers (hS : S.Writes) (indent : Option Nat) (depth : Nat)
    (values : List (String × Json F)) (h : WritableMembers S values) :
    List.Forall₂ (fun (m : String × Doc) t => Text S.unescape (.member m.1 m.2) t)
      (documentMembers S values) (renderMembers S indent depth values) := by
  cases values with
  | nil => exact .nil
  | cons m values =>
    exact .cons (text_member_of_value hS indent (text_renderJson hS indent depth m.2 h.1))
      (text_renderMembers hS indent depth values h.2)

end

/-! ## The visitor accepts distinct keys -/

lemma visitNumber_ok (hS : S.Writes) (h : S.ValidNumber raw) : visitNumber S raw = .ok () := by
  rw [visitNumber]
  split
  · rfl
  · rfl
  · rename_i value hvisited
    rw [if_pos (hS.finite raw value h hvisited)]

lemma documentMembers_keys (values : List (String × Json F)) :
    (documentMembers S values).map Prod.fst = values.map Prod.fst := by
  induction values with
  | nil => rfl
  | cons m values ih => rw [documentMembers, map_cons, map_cons, ih]

mutual

/-- The numbers of a written document are valid, and no object repeats a key. -/
lemma document_valid (hS : S.Writes) (j : Json F) (h : Writable S j) :
    (∀ raw ∈ (document S j).numbers, S.ValidNumber raw) ∧ ¬Repeats (document S j) := by
  have hnumber : ∀ {raw}, S.ValidNumber raw →
      (∀ raw' ∈ (Doc.number raw).numbers, S.ValidNumber raw') ∧ ¬Repeats (.number raw) := by
    intro raw h
    refine ⟨fun raw' hraw => ?_, nofun⟩
    rwa [mem_singleton.mp hraw]
  cases j with
  | null | bool | string => exact ⟨nofun, nofun⟩
  | int value => exact hnumber ⟨value.numberToken, hS.int value⟩
  | float value =>
    rw [document]
    split_ifs with hfinite
    · exact hnumber (hS.float value hfinite)
    · exact ⟨nofun, nofun⟩
  | number number => exact hnumber h
  | array values =>
    rcases documentItems_valid hS values h with ⟨hnumbers, hitems⟩
    exact ⟨hnumbers, fun (.item hmem hr) => hitems _ hmem hr⟩
  | object values => ?_
  rcases documentMembers_valid hS values h.2 with ⟨hnumbers, hmembers⟩
  refine ⟨hnumbers, fun hr => ?_⟩
  cases hr with
  | here hr =>
    rw [documentMembers_keys] at hr
    exact hr h.1.nodup
  | member hmem hr => exact hmembers _ hmem hr

lemma documentItems_valid (hS : S.Writes) (values : List (Json F))
    (h : WritableItems S values) :
    (∀ raw ∈ itemNumbers (documentItems S values), S.ValidNumber raw) ∧
      ∀ d ∈ documentItems S values, ¬Repeats d := by
  rcases values with _ | ⟨value, values⟩
  · exact ⟨nofun, nofun⟩
  rcases document_valid hS value h.1 with ⟨hnumbers, hvalue⟩
  rcases documentItems_valid hS values h.2 with ⟨hrest, hvalues⟩
  exact ⟨forall_mem_append.mpr ⟨hnumbers, hrest⟩, forall_mem_cons.mpr ⟨hvalue, hvalues⟩⟩

lemma documentMembers_valid (hS : S.Writes) (values : List (String × Json F))
    (h : WritableMembers S values) :
    (∀ raw ∈ memberNumbers (documentMembers S values), S.ValidNumber raw) ∧
      ∀ m ∈ documentMembers S values, ¬Repeats m.2 := by
  rcases values with _ | ⟨m, values⟩
  · exact ⟨nofun, nofun⟩
  rcases document_valid hS m.2 h.1 with ⟨hnumbers, hvalue⟩
  rcases documentMembers_valid hS values h.2 with ⟨hrest, hvalues⟩
  exact ⟨forall_mem_append.mpr ⟨hnumbers, hrest⟩, forall_mem_cons.mpr ⟨hvalue, hvalues⟩⟩

end

mutual

lemma retained_reject (d : Doc) : retained .reject d = d := by
  cases d with
  | null => rfl
  | bool b => rfl
  | number token => rfl
  | string s => rfl
  | array items => rw [retained, retainedItems_reject items]
  | object members => rw [retained, retainedMembers_reject members, select]

lemma retainedItems_reject (items : List Doc) : retainedItems .reject items = items := by
  cases items with
  | nil => rfl
  | cons d items => rw [retainedItems, retained_reject d, retainedItems_reject items]

lemma retainedMembers_reject (members : List (String × Doc)) :
    retainedMembers .reject members = members := by
  cases members with
  | nil => rfl
  | cons m members => rw [retainedMembers, retained_reject m.2, retainedMembers_reject members]

end

/-- Parsing the text of a value gives the value of its document. -/
lemma parse_stringify_document (hS : S.Writes) (j : Json F) (h : Writable S j)
    (indent : Option Nat) (hdepth : (document S j).depth ≤ maxJsonDepth)
    (hsize : (j.stringify S indent).length ≤ maxJsonInputBytes)
    (htokens : (document S j).tokenCount ≤ maxJsonTokens) :
    Json.parse S (j.stringify S indent) = .ok (toJson S (document S j)) := by
  have hdocument : Document S.unescape (document S j) (j.stringify S indent) :=
    text_element_of_value (text_renderJson hS indent 0 j h)
  rcases document_valid hS j h with ⟨hnumbers, hkeys⟩
  have haccepts := hS.complete _ _ hdocument hdepth hnumbers
  have hlimit := enforceJsonTokenLimit_text hdocument htokens
  rcases visit_accepts (document S j) (fun token ht => visitNumber_ok hS (hnumbers token ht))
    (fun _ => hkeys) 0 with ⟨_, hvisit⟩
  rw [Json.parse, parseWithPolicy_eq hsize hlimit haccepts hdocument hvisit, retained_reject]

/-! ## Back to the value -/

mutual

/-- A renderable value is writable, its document is the one that it spells, and
classifying the rendered numbers gives the value back. -/
lemma Renderable.spec (hS : S.RoundTrips) (j : Json F) (h : Renderable S j) :
    Writable S j ∧ document S j = spelled S j ∧ toJson S (spelled S j) = j := by
  cases j with
  | null | bool | string => exact ⟨trivial, rfl, rfl⟩
  | int value => exact ⟨trivial, rfl, parsedNumber_int value⟩
  | float value =>
    have hfinite : S.isFinite value = true := h
    rw [document, spelled, renderJson, Serde.numberFromF64, if_pos hfinite, if_pos hfinite]
    exact ⟨trivial, rfl, parsedNumber_float hS hfinite⟩
  | number number => exact ⟨h.1, rfl, parsedNumber_number hS h⟩
  | array values =>
    rcases RenderableItems.spec hS values h with ⟨hwritable, hdocument, hvalues⟩
    rw [document, hdocument, spelled, toJson, hvalues]
    exact ⟨hwritable, rfl, rfl⟩
  | object values =>
    rcases RenderableMembers.spec hS values h.2 with ⟨hwritable, hdocument, hvalues⟩
    rw [document, hdocument, spelled, toJson, hvalues]
    exact ⟨⟨h.1, hwritable⟩, rfl, rfl⟩

lemma RenderableItems.spec (hS : S.RoundTrips) (values : List (Json F))
    (h : RenderableItems S values) : WritableItems S values ∧
      documentItems S values = spelledItems S values ∧
      toJsonItems S (spelledItems S values) = values := by
  rcases values with _ | ⟨value, values⟩
  · exact ⟨trivial, rfl, rfl⟩
  rcases Renderable.spec hS value h.1 with ⟨hwritable, hdocument, hvalue⟩
  rcases RenderableItems.spec hS values h.2 with ⟨hrest, hdocuments, hvalues⟩
  rw [documentItems, hdocument, hdocuments, spelledItems, toJsonItems, hvalue, hvalues]
  exact ⟨⟨hwritable, hrest⟩, rfl, rfl⟩

lemma RenderableMembers.spec (hS : S.RoundTrips) (values : List (String × Json F))
    (h : RenderableMembers S values) : WritableMembers S values ∧
      documentMembers S values = spelledMembers S values ∧
      toJsonMembers S (spelledMembers S values) = values := by
  rcases values with _ | ⟨m, values⟩
  · exact ⟨trivial, rfl, rfl⟩
  rcases Renderable.spec hS m.2 h.1 with ⟨hwritable, hdocument, hvalue⟩
  rcases RenderableMembers.spec hS values h.2 with ⟨hrest, hdocuments, hvalues⟩
  rw [documentMembers, hdocument, hdocuments, spelledMembers, toJsonMembers, hvalue, hvalues]
  exact ⟨⟨hwritable, hrest⟩, rfl, rfl⟩

end

/-- Parsing the text of a value gives the value back, with the same key order, in
every indentation, as long as the text stays within the limits. -/
theorem parse_stringify (hS : S.RoundTrips) (j : Json F) (h : Renderable S j)
    (indent : Option Nat) (hdepth : (spelled S j).depth ≤ maxJsonDepth)
    (hsize : (j.stringify S indent).length ≤ maxJsonInputBytes)
    (htokens : (spelled S j).tokenCount ≤ maxJsonTokens) :
    Json.parse S (j.stringify S indent) = .ok j := by
  rcases Renderable.spec hS j h with ⟨hwritable, hdocument, hvalue⟩
  rw [← hdocument] at hdepth htokens
  rw [parse_stringify_document hS.toWrites j hwritable indent hdepth hsize htokens, hdocument, hvalue]

end Library

/-! ## A library that satisfies the assumptions -/

/-- The lower case hexadecimal digit of a number below sixteen. -/
def hexDigit (n : UInt8) : UInt8 :=
  if n < 10 then n + byte '0' else n - 10 + byte 'a'

def hexValue (b : UInt8) : UInt8 :=
  if b ≤ byte '9' then b - byte '0' else b - byte 'a' + 10

/-- Quotes and backslashes are escaped by a backslash, control bytes by their code. -/
def escapeByte (b : UInt8) : List UInt8 :=
  if b == byte '\x22' || b == byte '\\' then [byte '\\', b]
  else if b < 0x20 then
    [byte '\\', byte 'u', byte '0', byte '0', hexDigit (b / 16), hexDigit (b % 16)]
  else [b]

/-- Undo `escapeByte`. -/
def unescapeBytes : List UInt8 → Option (List UInt8)
  | [] => some []
  | b :: rest =>
    if b == byte '\\' then
      match rest with
      | [] => none
      | c :: rest =>
        if c == byte 'u' then
          match rest with
          | _ :: _ :: high :: low :: rest =>
            (unescapeBytes rest).map (fun bytes => (hexValue high * 16 + hexValue low) :: bytes)
          | _ => none
        else (unescapeBytes rest).map (fun bytes => c :: bytes)
    else (unescapeBytes rest).map (fun bytes => b :: bytes)

lemma hexDigit_spec (b : UInt8) :
    isHexDigit (hexDigit (b / 16)) = true ∧ isHexDigit (hexDigit (b % 16)) = true ∧
      hexValue (hexDigit (b / 16)) * 16 + hexValue (hexDigit (b % 16)) = b := by
  have hall : ∀ n : Fin 256, isHexDigit (hexDigit (UInt8.ofFin n / 16)) = true ∧
      isHexDigit (hexDigit (UInt8.ofFin n % 16)) = true ∧
      hexValue (hexDigit (UInt8.ofFin n / 16)) * 16 + hexValue (hexDigit (UInt8.ofFin n % 16)) =
        UInt8.ofFin n := by
    decide +kernel
  simpa using hall b.toFin

lemma unescapeBytes_escapeByte (b : UInt8) (rest : List UInt8) :
    unescapeBytes (escapeByte b ++ rest) = (unescapeBytes rest).map (fun bytes => b :: bytes) := by
  rw [escapeByte]
  split_ifs with hmark hcontrol
  · have hb : b ≠ byte 'u' := by
      rintro rfl
      exact absurd hmark (by decide)
    rw [cons_append, unescapeBytes.eq_def]
    simp [hb]
  · simp [unescapeBytes, (hexDigit_spec b).2.2]
  · have hb : b ≠ byte '\\' := by
      rintro rfl
      exact hmark (by decide)
    rw [cons_append, unescapeBytes.eq_def]
    simp [hb]

lemma unescapeBytes_flatMap (bytes : List UInt8) :
    unescapeBytes (bytes.flatMap escapeByte) = some bytes := by
  induction bytes with
  | nil => rfl
  | cons b bytes ih =>
    rw [flatMap_cons, unescapeBytes_escapeByte, ih]
    rfl

lemma stringBody_escapeByte (b : UInt8) {rest : List UInt8} (h : StringBody rest) :
    StringBody (escapeByte b ++ rest) := by
  rw [escapeByte]
  split_ifs with hmark hcontrol
  · refine .escape ?_ h
    simp only [Bool.or_eq_true, beq_iff_eq] at hmark
    rcases hmark with rfl | rfl <;> decide
  · refine .unicode ?_ h
    simp only [forall_mem_cons]
    exact ⟨by decide, by decide, (hexDigit_spec b).1, (hexDigit_spec b).2.1, forall_mem_nil _⟩
  · simp only [Bool.or_eq_true, beq_iff_eq, not_or] at hmark
    exact .plain hmark.1 hmark.2 (UInt8.not_lt.mp hcontrol) h

lemma stringBody_flatMap (bytes : List UInt8) : StringBody (bytes.flatMap escapeByte) := by
  induction bytes with
  | nil => exact .nil
  | cons b bytes ih => exact stringBody_escapeByte b ih

/-- The string between two quotes. -/
def unescapeText (body : List UInt8) : Option String := do
  let bytes ← unescapeBytes body
  let chars ← bytes.toByteArray.utf8Decode?
  some (String.ofList chars.toList)

lemma unescapeText_escaped (s : String) :
    unescapeText ((encode s.toList).flatMap escapeByte) = some s := by
  simp only [unescapeText, unescapeBytes_flatMap, Option.bind_eq_bind, Option.bind_some]
  rw [show (encode s.toList).toByteArray = s.toList.utf8Encode from rfl,
    List.utf8Decode?_utf8Encode]
  simp

/-- Two floats: one that can be written and one that cannot. -/
inductive SampleFloat where
  | oneAndHalf
  | infinite
deriving DecidableEq

/-- A library with these two floats. -/
def sampleSerde : Serde SampleFloat where
  unescape := unescapeText
  deserialize := read unescapeText
  failure _ _ := "expected value at line 1 column 1"
  located _ message := message ++ " at line 1 column 1"
  visited raw := if isReal raw then .f64 .oneAndHalf else .i64
  isFinite value := value == .oneAndHalf
  parseNumber raw := if isReal raw then some (.float .oneAndHalf) else none
  asF64 number := match number with | .float value => some value | _ => none
  displayNumber number :=
    match number with
    | .float _ => ascii "1.5"
    | .posInt n => decimal n
    | .negInt n => ascii (toString n)
  serializeNumber number :=
    match number with
    | .float _ => some (ascii "1.5")
    | .posInt n => some (decimal n)
    | .negInt n => some (ascii (toString n))
  serializeString s := some (byte '\x22' :: ((encode s.toList).flatMap escapeByte ++ [byte '\x22']))

lemma sampleSerde_validNumber (h : NumberToken raw) : sampleSerde.ValidNumber raw where
  token := h
  accepted := read_complete (text_element_of_value (S := sampleSerde) (.number h))

lemma numberToken_oneAndHalf (zeros : List UInt8) (h : ∀ b ∈ zeros, isAsciiDigit b = true) :
    NumberToken (ascii "1.5" ++ zeros) where
  parts := ⟨[], [byte '1'], byte '.' :: byte '5' :: zeros, [], Or.inl rfl,
    .digits (by decide) (by decide) (by simp),
    .digits (forall_mem_cons.mpr ⟨by decide, h⟩), .none, by simp [ascii, encode]; rfl⟩

lemma sampleSerde_roundTrips : sampleSerde.RoundTrips where
  complete := fun text d h _ _ => read_complete h
  string := by
    intro s
    exact ⟨_, rfl, (encode s.toList).flatMap escapeByte, stringBody_flatMap _,
      unescapeText_escaped s, rfl⟩
  finite := by
    intro raw value _ hvisited
    simp only [sampleSerde] at hvisited
    split_ifs at hvisited
    cases hvisited
    rfl
  int := fun value => (sampleSerde_validNumber value.numberToken).accepted
  float := by
    intro value hfinite
    obtain rfl : value = .oneAndHalf := by simpa [sampleSerde] using hfinite
    exact sampleSerde_validNumber (numberToken_oneAndHalf [] (by simp))
  back := by
    intro value hfinite
    obtain rfl : value = .oneAndHalf := by simpa [sampleSerde] using hfinite
    exact ⟨by decide, rfl⟩
  real := by
    intro raw number hreal hparse
    simp only [sampleSerde, hreal, if_true] at hparse
    cases hparse
    exact ⟨_, rfl, rfl⟩
  asF64_float := fun _ => rfl
  serialize := by
    intro number
    cases number <;> rfl

/-- An object with nested values, a float, an exact token and a quote in a string. -/
def sampleJson : Json SampleFloat :=
  .object [("b", .array [.int ⟨-7, by decide⟩, .float .oneAndHalf, .number ⟨ascii "1.50"⟩]),
    ("a", .object []), ("say \"hi\"", .bool true)]

lemma sampleJson_renderable : Renderable sampleSerde sampleJson := by
  have hreal : isReal (ascii "1.50") = true := by decide
  have hnumber : Renderable sampleSerde (.number ⟨ascii "1.50"⟩) := by
    refine ⟨sampleSerde_validNumber (numberToken_oneAndHalf [byte '0'] (all_eq_true.mp rfl)), ?_, ?_⟩
    · intro value htext
      have hparse := parseI64_toText value
      rw [htext, parseI64_real hreal] at hparse
      cases hparse
    · intro value _
      exact (by decide : ascii "1.5" ≠ ascii "1.50")
  refine ⟨?_, ⟨trivial, rfl, hnumber, trivial⟩, ⟨List.Pairwise.nil, trivial⟩, trivial, trivial⟩
  rw [AssocList.nodupKeys_iff]
  decide

/-- The round trip of this object with an indentation of two spaces. -/
theorem parse_stringify_sampleJson :
    Json.parse sampleSerde (sampleJson.stringify sampleSerde (some 2)) = .ok sampleJson :=
  parse_stringify sampleSerde_roundTrips sampleJson sampleJson_renderable (some 2)
    (by decide +kernel) (by decide +kernel) (by decide +kernel)

end MuxRuntime
