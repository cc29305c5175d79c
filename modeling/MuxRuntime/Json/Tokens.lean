import MuxRuntime.Json.Handles

/-!
# Number tokens read from a document

A number of a document is an integer, a float or a retained token, whichever shows its text again.
Retained tokens that are not an integer text are read through a double. The standard library's
conversion between doubles and texts is a parameter.
-/

namespace MuxRuntime

open Utf8 Value
open JsonGrammar (NumberToken)

variable {env : Runtime}

/-! ## Doubles -/

/-- The standard library's conversions between doubles and texts. -/
structure FloatText where
  /-- `str::parse::<f64>`. -/
  parseF64 : List UInt8 → Option UInt64
  /-- `f64::to_string`. -/
  displayF64 : UInt64 → List UInt8

/-- The number of a finite double. -/
def doubleValue (bits : UInt64) : ℚ :=
  let exponent := ((bits >>> 52) &&& 0x7FF).toNat
  let fraction := (bits &&& 0xFFFFFFFFFFFFF).toNat
  let magnitude : ℚ :=
    if exponent = 0 then fraction * 2 ^ (-1074 : Int)
    else (2 ^ 52 + fraction : Nat) * 2 ^ ((exponent : Int) - 1075)
  if bits >>> 63 = 1 then -magnitude else magnitude

/-- The number is one of the doubles. -/
def IsDouble (q : ℚ) : Prop :=
  ∃ bits, floatIsFinite bits = true ∧ doubleValue bits = q

/-- Rounding to nearest: no double is closer, and only numbers beyond all doubles become
infinite. -/
structure Nearest (q : ℚ) (bits : UInt64) : Prop where
  closest : floatIsFinite bits = true → ∀ other, floatIsFinite other = true →
    |doubleValue bits - q| ≤ |doubleValue other - q|
  overflow : floatIsFinite bits = false → ∀ other, floatIsFinite other = true →
    |doubleValue other| < |q|

variable {bits : UInt64}

lemma Nearest.eq_of_isDouble {q : ℚ} (h : Nearest q bits) (hq : IsDouble q) :
    floatIsFinite bits = true ∧ doubleValue bits = q := by
  rcases hq with ⟨other, hother, hvalue⟩
  cases hfinite : floatIsFinite bits with
  | false =>
    have hlt := h.overflow hfinite other hother
    rw [hvalue] at hlt
    exact absurd hlt (lt_irrefl _)
  | true =>
    have hle := h.closest hfinite other hother
    rw [hvalue, sub_self, abs_zero] at hle
    exact ⟨rfl, sub_eq_zero.mp (abs_nonpos_iff.mp hle)⟩

/-- A double without a fraction part, between the bounds of the integers as doubles, the upper one
excluded. -/
def floatToI64 (bits : UInt64) : Option I64 :=
  if (doubleValue bits).den = 1 ∧ floatIsFinite bits = true ∧
      -2 ^ 63 ≤ doubleValue bits ∧ doubleValue bits < 2 ^ 63 then
    I64.ofInt? (doubleValue bits).num
  else none

lemma I64.ofInt?_eq_some_iff {n : Int} {z : I64} : I64.ofInt? n = some z ↔ n = z.val := by
  rw [I64.ofInt?]
  split_ifs with h
  · rw [Option.some.injEq]
    exact ⟨fun heq => heq ▸ rfl, fun heq => by cases z; cases heq; rfl⟩
  · refine ⟨fun hnone => (by cases hnone), fun heq => absurd ?_ h⟩
    rw [heq]
    exact z.inRange

lemma floatToI64_eq_some_iff {z : I64} :
    floatToI64 bits = some z ↔ floatIsFinite bits = true ∧ doubleValue bits = z.val := by
  unfold floatToI64
  constructor
  · intro h
    split_ifs at h with hint
    have hnum := I64.ofInt?_eq_some_iff.mp h
    refine ⟨hint.2.1, ?_⟩
    rw [← Rat.num_div_den (doubleValue bits), hint.1, hnum]
    simp
  · rintro ⟨hfinite, hvalue⟩
    have hlow : (-2 ^ 63 : ℚ) ≤ (z.val : ℚ) := by exact_mod_cast z.inRange.1
    have hhigh : (z.val : ℚ) < 2 ^ 63 := by exact_mod_cast z.inRange.2
    rw [if_pos ⟨by rw [hvalue]; rfl, hfinite, by rwa [hvalue], by rwa [hvalue]⟩, hvalue]
    exact I64.ofInt?_eq_some_iff.mpr rfl

/-! ## Accessors -/

section Accessors

variable (T : JsonNumberType env)

def jsonKind (h : JsonHeap) (value : Value) : String :=
  if (jsonNumberRaw T h value).isSome then "a number"
  else
    match value with
    | .unit => "null"
    | .bool _ => "a bool"
    | .int _ => "an int"
    | .float _ => "a float"
    | .string _ => "a string"
    | .list _ => "an array"
    | .map _ _ => "an object"
    | _ => "an unsupported value"

def jsonKindError {α : Type} (expected found : String) : Except String α :=
  .error ("expected " ++ expected ++ ", found " ++ found)

/-- Read a typed value; no value stands for a null pointer. -/
def jsonAccessor {α : Type} (h : JsonHeap) (val : Option Value) (expected : String)
    (f : Value → Option α) : Except String α :=
  match val with
  | none => jsonKindError expected "nothing"
  | some value =>
    match f value with
    | some inner => .ok inner
    | none => jsonKindError expected (jsonKind T h value)

variable (R : FloatText)

/-- A retained token read as an integer: as an integer text, or as an integral double. -/
def tokenAsInt (raw : List UInt8) : Option I64 :=
  match parseI64 raw with
  | some value => some value
  | none => (R.parseF64 raw).bind floatToI64

/-- `mux_json_as_int`. -/
def jsonAsInt (h : JsonHeap) (val : Option Value) : Except String Value :=
  jsonAccessor T h val "an int" fun
    | .int i => some (.int i)
    | .object o =>
      (jsonNumberRaw T h (.object o)).bind (fun raw =>
        (tokenAsInt R raw).map (fun z => .int z.toInt64))
    | .float f => (floatToI64 f).map (fun z => .int z.toInt64)
    | _ => none

/-- `mux_json_as_number`: a new number with the retained token, or with the text of the integer or
float. -/
def jsonAsNumber (h : JsonHeap) (val : Option Value) : Except String (Value × JsonHeap) :=
  jsonAccessor T h val "a number" fun value =>
    match jsonNumberRaw T h value with
    | some raw => some (jsonNumberValue T raw h)
    | none =>
      match value with
      | .int i => some (jsonNumberValue T (I64.ofInt64 i).toText h)
      | .float f => if floatIsFinite f then some (jsonNumberValue T (R.displayF64 f) h) else none
      | _ => none

/-- `mux_json_number_as_int`. -/
def jsonNumberAsInt (h : JsonHeap) (val : Value) : Except String Value :=
  match jsonNumberRaw T h val with
  | none => .error "expected JsonNumber value"
  | some raw =>
    match tokenAsInt R raw with
    | some value => .ok (.int value.toInt64)
    | none => .error "JSON number is not an integer in the Mux int range"

end Accessors

variable {T : JsonNumberType env} {R : FloatText} {S : Serde UInt64}

/-! ## Integer texts -/

variable {digits : List UInt8}

lemma digitsValue_eq_some {n : Nat} (h : digitsValue digits = some n) :
    (∀ b ∈ digits, isAsciiDigit b = true) ∧ n = digitsNumber digits := by
  rw [digitsValue] at h
  split_ifs at h with hdigits
  cases h
  rw [Bool.or_eq_true, not_or, Bool.not_eq_true', Bool.not_eq_false] at hdigits
  exact ⟨List.all_eq_true.mp hdigits.2, rfl⟩

section

variable (h : ∀ b ∈ digits, isAsciiDigit b = true)

include h

lemma takeWhile_digits :
    digits.takeWhile isAsciiDigit = digits ∧ digits.dropWhile isAsciiDigit = [] :=
  ⟨List.takeWhile_eq_self_iff.mpr h, List.dropWhile_eq_nil_iff.mpr h⟩

lemma numericValue_minus : numericValue (byte '-' :: digits) = -(digitsNumber digits : ℚ) := by
  simp [numericValue, takeWhile_digits h, exponentValue]

lemma numericValue_digits : numericValue digits = digitsNumber digits := by
  have hsign : (digits.head? == some (byte '-')) = false := by
    rcases digits with _ | ⟨b, digits⟩
    · rfl
    refine beq_false_of_ne ?_
    rintro heq
    rw [List.head?_cons, Option.some.injEq] at heq
    exact absurd (heq ▸ h b List.mem_cons_self) (by decide)
  simp [numericValue, hsign, takeWhile_digits h, exponentValue]

end

/-- An integer text denotes the integer that it is read as. -/
lemma numericValue_of_parseI64 {raw : List UInt8} {i : I64} (hraw : NumberToken raw)
    (h : parseI64 raw = some i) : numericValue raw = i.val := by
  rcases JsonGrammar.numberToken_head hraw with ⟨b, rest, rfl, hb⟩
  rw [parseI64] at h
  split_ifs at h with hminus hplus
  · rcases Option.bind_eq_some_iff.mp h with ⟨n, hn, hi⟩
    rcases digitsValue_eq_some hn with ⟨hdigits, rfl⟩
    rw [beq_iff_eq.mp hminus, numericValue_minus hdigits, ← I64.ofInt?_eq_some_iff.mp hi]
    rfl
  · rw [beq_iff_eq.mp hplus] at hb
    exact absurd hb (by decide)
  · rcases Option.bind_eq_some_iff.mp h with ⟨n, hn, hi⟩
    rcases digitsValue_eq_some hn with ⟨hdigits, rfl⟩
    rw [numericValue_digits hdigits, ← I64.ofInt?_eq_some_iff.mp hi]
    rfl

/-! ## Tokens as integers -/

/-- The number is a 64-bit integer. -/
def IsI64 (q : ℚ) : Prop :=
  ∃ z : I64, q = z.val

/-- The token is an integer text, denotes an integer that is a double, or denotes no integer and is
not next to one among the doubles. -/
def ReadExactly (R : FloatText) (raw : List UInt8) : Prop :=
  (parseI64 raw).isSome = true ∨ (IsI64 (numericValue raw) ∧ IsDouble (numericValue raw)) ∨
    (¬ IsI64 (numericValue raw) ∧ (R.parseF64 raw).bind floatToI64 = none)

/-- When a token is read as the integer that it denotes. -/
theorem tokenAsInt_exact_iff {raw : List UInt8} (hraw : NumberToken raw)
    (hparse : R.parseF64 raw = some bits) (hnearest : Nearest (numericValue raw) bits) :
    (∀ z : I64, tokenAsInt R raw = some z ↔ numericValue raw = z.val) ↔ ReadExactly R raw := by
  rw [tokenAsInt, ReadExactly]
  cases hint : parseI64 raw with
  | some i =>
    refine ⟨fun _ => .inl rfl, fun _ z => ?_⟩
    rw [numericValue_of_parseI64 hraw hint, Option.some.injEq, Int.cast_inj]
    exact ⟨fun heq => heq ▸ rfl, fun heq => by cases i; cases z; cases heq; rfl⟩
  | none => ?_
  simp only [hparse, Option.bind_some, Option.isSome_none, Bool.false_eq_true, false_or]
  constructor
  · intro hexact
    by_cases hq : IsI64 (numericValue raw)
    · rcases hq with ⟨z, hz⟩
      rcases floatToI64_eq_some_iff.mp ((hexact z).mpr hz) with ⟨hfinite, hvalue⟩
      exact .inl ⟨⟨z, hz⟩, bits, hfinite, hvalue.trans hz.symm⟩
    · refine .inr ⟨hq, Option.eq_none_iff_forall_ne_some.mpr ?_⟩
      intro z hz
      exact hq ⟨z, (hexact z).mp hz⟩
  · rintro (⟨hq, hdouble⟩ | ⟨hq, hnone⟩) z
    · rcases hnearest.eq_of_isDouble hdouble with ⟨hfinite, hvalue⟩
      rw [floatToI64_eq_some_iff, hvalue]
      exact ⟨And.right, fun heq => ⟨hfinite, heq⟩⟩
    · rw [hnone]
      exact ⟨nofun, fun heq => absurd ⟨z, heq⟩ hq⟩

/-! ## Kept tokens -/

/-- What is promised about a token's double and about the float whose text the token is: it is read
back, and displayed as a text of the same number. -/
structure FloatText.Follows (R : FloatText) (S : Serde UInt64) (raw : List UInt8) : Prop where
  nearest : ∃ bits, R.parseF64 raw = some bits ∧ Nearest (numericValue raw) bits
  reads : ∀ f, S.isFinite f = true → S.displayNumber (.float f) = raw → R.parseF64 raw = some f
  displays : ∀ f, S.isFinite f = true → S.displayNumber (.float f) = raw →
    NumberToken (R.displayF64 f) ∧ R.parseF64 (R.displayF64 f) = some f ∧
      numericValue (R.displayF64 f) = numericValue raw

/-- The values that numbers of a document are kept as. -/
inductive Kept (T : JsonNumberType env) (h : JsonHeap) : Json UInt64 → Value → Prop
  | int (i : Int64) : Kept T h (.int (I64.ofInt64 i)) (.int i)
  | float {f : UInt64} (hfinite : floatIsFinite f = true) : Kept T h (.float f) (.float f)
  | number {o : ObjectRef} {raw : List UInt8} (hraw : jsonNumberRaw T h (.object o) = some raw) :
      Kept T h (.number ⟨raw⟩) (.object o)

variable {h : JsonHeap} {raw : List UInt8} {j : Json UInt64} {v : Value}

lemma kept_of_valueToJson (hv : valueToJson T h v = .ok j) (hclass : Classified S raw j) :
    Kept T h j v := by
  cases v with
  | int i =>
    cases hv
    exact .int i
  | float f =>
    rw [valueToJson] at hv
    split_ifs at hv with hfinite
    cases hv
    exact .float hfinite
  | object o =>
    rw [valueToJson] at hv
    split at hv
    · rename_i hraw
      cases hv
      exact .number hraw
    · cases hv
  | unit | bool | string =>
    cases hv
    cases hclass
  | list | map =>
    rcases Loop.bind_eq_ok hv with ⟨values, -, heq⟩
    cases heq
    cases hclass
  | bytes | set | tuple | optional | result | opaqueBytes | boxedEnum => cases hv

lemma jsonNumberRaw_alloc (raw : List UInt8) (hnext : h.nextJsonNumber < 2 ^ 63) :
    jsonNumberRaw T (jsonNumberValue T raw h).2 (jsonNumberValue T raw h).1 = some raw := by
  rw [jsonNumberValue_alloc]
  exact jsonNumberRaw_object rfl rfl hnext Registry.insert_self

/-- The token of the number that is made of a kept one. -/
def numberText (R : FloatText) : Json UInt64 → List UInt8
  | .int i => i.toText
  | .float f => R.displayF64 f
  | .number number => number.raw
  | _ => []

lemma jsonAsNumber_kept (hkept : Kept T h j v) :
    jsonAsNumber T R h (some v) = .ok (jsonNumberValue T (numberText R j) h) := by
  cases hkept with
  | int i => rfl
  | float hfinite => simp [jsonAsNumber, jsonAccessor, jsonNumberRaw, jsonNumberHandle, hfinite,
      numberText]
  | number hraw => simp [jsonAsNumber, jsonAccessor, hraw, numberText]

/-! ## The token given back -/

/-- A library that reads and displays the double of one hundred. -/
def hundredText : FloatText where
  parseF64 _ := some 0x4059000000000000
  displayF64 _ := ascii "100"

/-- The result is the integer that the token denotes, and an error if it denotes none. -/
def ReadsInt (raw : List UInt8) (result : Except String Value) : Prop :=
  ∀ value, result = .ok value ↔ ∃ z : I64, numericValue raw = z.val ∧ value = .int z.toInt64

/-- What an accessor makes of an integer, or of none. -/
def intResult (message : String) : Option I64 → Except String Value
  | some z => .ok (.int z.toInt64)
  | none => .error message

lemma I64.ext {a b : I64} (h : a.val = b.val) : a = b := by
  cases b
  cases h
  rfl

lemma readsInt_intResult {message : String} {o : Option I64} :
    ReadsInt raw (intResult message o) ↔ ∀ z : I64, o = some z ↔ numericValue raw = z.val := by
  constructor
  · intro hreads z
    have hvalue : (∃ z' : I64, numericValue raw = z'.val ∧ Value.int z.toInt64 = .int z'.toInt64) ↔
        numericValue raw = z.val := by
      refine ⟨?_, fun hz => ⟨z, hz, rfl⟩⟩
      rintro ⟨z', hz', heq⟩
      rw [hz', ← I64.ofInt64_toInt64 z, Value.int.inj heq, I64.ofInt64_toInt64]
    rw [← hvalue, ← hreads]
    cases o with
    | none => exact ⟨nofun, nofun⟩
    | some z' =>
      refine ⟨fun heq => Option.some.inj heq ▸ rfl, fun heq => ?_⟩
      rw [← I64.ofInt64_toInt64 z', Value.int.inj (Except.ok.inj heq), I64.ofInt64_toInt64]
  · intro hexact value
    cases o with
    | none =>
      refine ⟨nofun, ?_⟩
      rintro ⟨z, hz, -⟩
      exact absurd ((hexact z).mpr hz) nofun
    | some z => ?_
    have hz := (hexact z).mp rfl
    constructor
    · intro heq
      exact ⟨z, hz, (Except.ok.inj heq).symm⟩
    · rintro ⟨z', hz', rfl⟩
      rw [I64.ext (Int.cast_inj.mp (hz.symm.trans hz'))]
      rfl

/-- The integer that a kept number is read as. -/
def keptInt (R : FloatText) : Json UInt64 → Option I64
  | .int i => some i
  | .float f => floatToI64 f
  | .number number => tokenAsInt R number.raw
  | _ => none

lemma jsonAsInt_kept (hkept : Kept T h j v) :
    ∃ message, jsonAsInt T R h (some v) = intResult message (keptInt R j) := by
  cases hkept with
  | int i =>
    refine ⟨"", ?_⟩
    simp only [jsonAsInt, jsonAccessor, keptInt, intResult, I64.toInt64, I64.ofInt64,
      Int64.ofInt_toInt]
  | @float f hfinite =>
    refine ⟨"expected " ++ "an int" ++ ", found " ++ jsonKind T h (.float f), ?_⟩
    simp only [jsonAsInt, jsonAccessor, jsonKindError, keptInt]
    cases floatToI64 _ <;> rfl
  | @number o raw hraw =>
    refine ⟨"expected " ++ "an int" ++ ", found " ++ jsonKind T h (.object o), ?_⟩
    simp only [jsonAsInt, jsonAccessor, jsonKindError, keptInt, hraw, Option.bind_some]
    cases tokenAsInt R raw <;> rfl

lemma jsonNumberAsInt_alloc (hnext : h.nextJsonNumber < 2 ^ 63) :
    jsonNumberAsInt T R (jsonNumberValue T raw h).2 (jsonNumberValue T raw h).1 =
      intResult "JSON number is not an integer in the Mux int range" (tokenAsInt R raw) := by
  simp only [jsonNumberAsInt, jsonNumberRaw_alloc raw hnext]
  cases tokenAsInt R raw <;> rfl

/-- However a token is kept, it is read as an integer in the same way. -/
lemma keptInt_eq (hfollows : R.Follows S raw) (hclass : Classified S raw j) :
    keptInt R j = tokenAsInt R raw := by
  cases hclass with
  | int hparse htext => rw [keptInt, tokenAsInt, hparse]
  | float hreal hfinite htext =>
    rw [keptInt, tokenAsInt, parseI64_real hreal, hfollows.reads _ hfinite htext]
    rfl
  | number => rfl

/-- The text that a float is displayed as is read as the token is, or as the integer that both
denote. -/
lemma numberText_exact (hfollows : R.Follows S raw) (hclass : Classified S raw j)
    (hexact : ∀ z : I64, tokenAsInt R raw = some z ↔ numericValue raw = z.val) (z : I64) :
    tokenAsInt R (numberText R j) = some z ↔ numericValue raw = z.val := by
  cases hclass with
  | int hparse htext =>
    rw [numberText, htext]
    exact hexact z
  | number => exact hexact z
  | @float f hreal hfinite htext => ?_
  rcases hfollows.displays f hfinite htext with ⟨htoken, hread, hvalue⟩
  rw [numberText, tokenAsInt]
  cases hint : parseI64 (R.displayF64 f) with
  | some i =>
    rw [← hvalue, numericValue_of_parseI64 htoken hint, Option.some.injEq, Int.cast_inj]
    exact ⟨congrArg I64.val, I64.ext⟩
  | none =>
    rw [← hexact z, ← keptInt_eq hfollows (.float hreal hfinite htext), hread]
    rfl

/-- A kept token is read as the integer that it denotes, from the document and from the number made
of it, if and only if it is an integer text, or its double is as good as the number itself. -/
theorem as_int_exact_iff (hS : S.Documented) (hraw : NumberToken raw)
    (hfollows : R.Follows S raw) (hnext : h.nextJsonNumber < 2 ^ 63)
    (hv : valueToJson T h v = .ok (parsedNumber S raw)) : (ReadsInt raw (jsonAsInt T R h (some v)) ∧
        ∃ number, jsonAsNumber T R h (some v) = .ok number ∧
          ReadsInt raw (jsonNumberAsInt T R number.2 number.1)) ↔
      ReadExactly R raw := by
  have hclass := classified_parsedNumber hS.real hS.asF64_float hS.serialize raw
  have hkept := kept_of_valueToJson hv hclass
  rcases hfollows.nearest with ⟨bits, hparse, hnearest⟩
  have hexact := tokenAsInt_exact_iff hraw hparse hnearest
  rcases jsonAsInt_kept (R := R) hkept with ⟨message, hresult⟩
  rw [hresult, readsInt_intResult, keptInt_eq hfollows hclass, hexact]
  refine ⟨And.left, fun hread => ⟨hread, _, jsonAsNumber_kept hkept, ?_⟩⟩
  rw [jsonNumberAsInt_alloc hnext, readsInt_intResult]
  exact numberText_exact hfollows hclass (hexact.mpr hread)

/-- The token `1e2` is read as one hundred. -/
theorem hundred_is_read :
    let v := jsonToValue sampleNumberType (.number ⟨ascii "1e2"⟩) .initial
    numericValue (ascii "1e2") = 100 ∧
      ReadsInt (ascii "1e2") (jsonAsInt sampleNumberType hundredText v.2 (some v.1)) := by
  intro v
  have hvalue : numericValue (ascii "1e2") = 100 := by
    change ((1 : Nat) : ℚ) * 10 ^ ((2 : Int) - (0 : Nat)) = 100
    norm_num
  have hdouble : doubleValue 0x4059000000000000 = 100 := by
    have hexponent : (((0x4059000000000000 : UInt64) >>> 52) &&& 0x7FF).toNat = 1029 := by decide
    have hfraction : ((0x4059000000000000 : UInt64) &&& 0xFFFFFFFFFFFFF).toNat = 9 * 2 ^ 48 := by
      decide
    rw [doubleValue, hexponent, hfraction, if_neg (by decide), if_neg (by decide)]
    norm_num
  have hfollows : hundredText.Follows hundredSerde (ascii "1e2") := by
    refine ⟨⟨_, rfl, ?_, ?_⟩, ?_, ?_⟩
    · intro _ other _
      rw [hvalue, hdouble, sub_self, abs_zero]
      exact abs_nonneg _
    · intro hinfinite
      exact absurd hinfinite (by decide)
    · intro f _ htext
      exact absurd htext (by decide : ascii "100.0" ≠ ascii "1e2")
    · intro f _ htext
      exact absurd htext (by decide : ascii "100.0" ≠ ascii "1e2")
  refine ⟨hvalue, ((as_int_exact_iff hundredSerde_documented numberToken_hundred hfollows
    (by decide) rfl).mpr ?_).1⟩
  exact .inr (.inl ⟨⟨⟨100, by decide⟩, by rw [hvalue]; rfl⟩, 0x4059000000000000, by decide,
    hdouble.trans hvalue.symm⟩)

/-- The token of the integer below the least one is read as the least one. -/
theorem integer_below_range_is_read :
    let raw := ascii "-9223372036854775809"
    let R := { hundredText with parseF64 := fun _ => some 0xC3E0000000000000 }
    let v := jsonToValue sampleNumberType (parsedNumber hundredSerde raw) .initial
    jsonAsInt sampleNumberType R v.2 (some v.1) = .ok (.int Int64.minValue) ∧
      numericValue raw = -9223372036854775809 := by
  intro raw R v
  have hclass : parsedNumber hundredSerde raw = .number ⟨raw⟩ := rfl
  have hdouble : doubleValue 0xC3E0000000000000 = -2 ^ 63 := by
    have hexponent : (((0xC3E0000000000000 : UInt64) >>> 52) &&& 0x7FF).toNat = 1086 := by decide
    have hfraction : ((0xC3E0000000000000 : UInt64) &&& 0xFFFFFFFFFFFFF).toNat = 0 := by decide
    rw [doubleValue, hexponent, hfraction, if_pos (by decide), if_neg (by decide)]
    norm_num
  have hread : tokenAsInt R raw = some ⟨-2 ^ 63, by decide⟩ := by
    have hint : parseI64 raw = none := rfl
    rw [tokenAsInt, hint]
    refine floatToI64_eq_some_iff.mpr ⟨by decide, ?_⟩
    rw [hdouble]
    norm_num
  have hdigits : ∀ b ∈ ascii "9223372036854775809", isAsciiDigit b = true :=
    List.all_eq_true.mp rfl
  refine ⟨?_, ?_⟩
  · have hback : valueToJson sampleNumberType v.2 v.1 = .ok (.number ⟨raw⟩) := by
      simp only [v, hclass]
      exact valueToJson_jsonToValue (.number _) ⟨by decide, by decide⟩ (by decide)
    have hkept := kept_of_valueToJson (S := hundredSerde) hback .number
    rcases jsonAsInt_kept (R := R) hkept with ⟨message, hresult⟩
    rw [hresult, keptInt, hread]
    rfl
  · change numericValue (byte '-' :: ascii "9223372036854775809") = _
    rw [numericValue_minus hdigits]
    norm_num [show digitsNumber (ascii "9223372036854775809") = 9223372036854775809 from rfl]

end MuxRuntime
