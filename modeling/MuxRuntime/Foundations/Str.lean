import Mathlib
import MuxRuntime.Foundations.Utf8

/-!
# Text operations of a standard library

Trimming, case-insensitive comparison and number parsing on the characters of a
text. The integer parser accepts one leading plus sign before the digits.
-/

namespace Str

open List

/-! ## Bytes and characters -/

/-- Decode a text. -/
def fromUtf8 (bytes : List UInt8) : Option (List Char) :=
  bytes.toByteArray.utf8Decode?.map Array.toList

lemma fromUtf8_encode (s : List Char) : fromUtf8 (Utf8.encode s) = some s := by
  have hdecode : (Utf8.encode s).toByteArray.utf8Decode? = some s.toArray :=
    List.utf8Decode?_utf8Encode
  rw [fromUtf8, hdecode]
  rfl

variable {s : List Char}

/-- A text is decoded from exactly its own bytes. -/
theorem fromUtf8_eq_some_iff {bytes : List UInt8} :
    fromUtf8 bytes = some s ↔ bytes = Utf8.encode s := by
  constructor
  · intro h
    obtain ⟨chars, hchars, rfl⟩ := Option.map_eq_some_iff.mp h
    have hsome : bytes.toByteArray.utf8Decode?.isSome = true := by
      rw [hchars]
      rfl
    have hencode : (bytes.toByteArray.utf8Decode?.get hsome).toList.utf8Encode =
        bytes.toByteArray := ByteArray.utf8Encode_get_utf8Decode?
    simp only [hchars, Option.get_some] at hencode
    have hlists := congrArg (fun b : ByteArray => b.data.toList) hencode
    simpa [List.utf8Encode, Utf8.encode] using hlists.symm
  · rintro rfl
    exact fromUtf8_encode s

/-! ## Trimming -/

/-- Characters with the Unicode property `White_Space`. -/
def isWhitespace (c : Char) : Bool :=
  (0x9 ≤ c.toNat && c.toNat ≤ 0xd) || c.toNat == 0x20 || c.toNat == 0x85 || c.toNat == 0xa0 ||
    c.toNat == 0x1680 || (0x2000 ≤ c.toNat && c.toNat ≤ 0x200a) || c.toNat == 0x2028 ||
    c.toNat == 0x2029 || c.toNat == 0x202f || c.toNat == 0x205f || c.toNat == 0x3000

/-- The text without white space at its ends. -/
def trim (s : List Char) : List Char :=
  ((s.dropWhile isWhitespace).reverse.dropWhile isWhitespace).reverse

/-- Nothing is trimmed from a text without white space. -/
lemma trim_eq_self (h : ∀ c ∈ s, isWhitespace c = false) : trim s = s := by
  have hdrop : ∀ t : List Char, (∀ c ∈ t, isWhitespace c = false) →
      t.dropWhile isWhitespace = t := by
    intro t ht
    cases t with
    | nil => rfl
    | cons c t => simp [ht c (by simp)]
  have hreverse : ∀ c ∈ s.reverse, isWhitespace c = false := by
    intro c hc
    exact h c (mem_reverse.mp hc)
  rw [trim, hdrop s h, hdrop _ hreverse, reverse_reverse]

lemma trim_eq_rdropWhile (s : List Char) :
    trim s = (s.dropWhile isWhitespace).rdropWhile isWhitespace := rfl

/-- Trimming twice is trimming once. -/
lemma trim_trim (s : List Char) : trim (trim s) = trim s := by
  have hhead : (trim s).dropWhile isWhitespace = trim s := by
    rw [dropWhile_eq_self_iff]
    intro hpos
    have hinit : trim s <+: s.dropWhile isWhitespace := rdropWhile_prefix _ _
    have hpos' : 0 < (s.dropWhile isWhitespace).length := lt_of_lt_of_le hpos hinit.length_le
    rw [hinit.getElem hpos]
    exact dropWhile_get_zero_not isWhitespace s hpos'
  rw [trim_eq_rdropWhile (trim s), hhead, trim_eq_rdropWhile s]
  exact rdropWhile_idempotent _ _

/-- What trimming removes at the end is white space. -/
lemma dropWhile_eq_trim_append (s : List Char) :
    ∃ w, s.dropWhile isWhitespace = trim s ++ w ∧ ∀ c ∈ w, isWhitespace c = true := by
  refine ⟨(s.dropWhile isWhitespace).rtakeWhile isWhitespace, ?_,
    fun c hc => mem_rtakeWhile_imp hc⟩
  rw [trim_eq_rdropWhile, rdropWhile_append_rtakeWhile]

lemma trim_append_left {w : List Char} (hw : ∀ c ∈ w, isWhitespace c = true) (s : List Char) :
    trim (w ++ s) = trim s := by
  rw [trim, trim, dropWhile_append_of_pos hw]

lemma trim_append_right {w : List Char} (hw : ∀ c ∈ w, isWhitespace c = true) (s : List Char) :
    trim (s ++ w) = trim s := by
  rw [trim, trim, dropWhile_append]
  split_ifs with hblank
  · rw [List.isEmpty_iff.mp hblank, dropWhile_eq_nil_iff.mpr hw]
  · rw [reverse_append, dropWhile_append_of_pos]
    intro c hc
    exact hw c (mem_reverse.mp hc)

/-! ## Comparison without regard to ASCII case -/

def toAsciiLowercase (s : List Char) : List Char :=
  s.map Char.toLower

def toAsciiUppercase (s : List Char) : List Char :=
  s.map Char.toUpper

def eqIgnoreAsciiCase (s t : List Char) : Bool :=
  toAsciiLowercase s == toAsciiLowercase t

lemma toAsciiLowercase_idem (s : List Char) :
    toAsciiLowercase (toAsciiLowercase s) = toAsciiLowercase s := by
  simp [toAsciiLowercase, Function.comp_def, Char.toLower_toLower_eq_toLower]

lemma toAsciiLowercase_toAsciiUppercase (s : List Char) :
    toAsciiLowercase (toAsciiUppercase s) = toAsciiLowercase s := by
  simp [toAsciiLowercase, toAsciiUppercase, Function.comp_def, Char.toLower_toUpper_eq_toLower]

/-! ## Numbers -/

/-- The value of a digit in a radix of at most 36. -/
def digit (radix : Nat) (c : Char) : Option Nat :=
  let value :=
    if '0' ≤ c ∧ c ≤ '9' then c.toNat - '0'.toNat
    else if 'a' ≤ c ∧ c ≤ 'z' then c.toNat - 'a'.toNat + 10
    else if 'A' ≤ c ∧ c ≤ 'Z' then c.toNat - 'A'.toNat + 10
    else radix
  if value < radix then some value else none

def isDigit (radix : Nat) (c : Char) : Bool :=
  (digit radix c).isSome

/-- The number that digits stand for, after a number that precedes them. -/
def valueFrom (radix : Nat) (acc : Nat) (digits : List Char) : Nat :=
  digits.foldl (fun acc c => acc * radix + (digit radix c).getD 0) acc

def value (radix : Nat) (digits : List Char) : Nat :=
  valueFrom radix 0 digits

/-- The checked accumulation of digits: every step must stay within `max`. -/
def digitsFrom (max radix : Nat) : Nat → List Char → Option Nat
  | acc, [] => some acc
  | acc, c :: digits =>
    match digit radix c with
    | none => none
    | some d => if acc * radix + d ≤ max then digitsFrom max radix (acc * radix + d) digits else none

/-- Parse an unsigned number of at most `max`. One plus sign is skipped, and a
sign alone is no number. -/
def fromStrRadix (max radix : Nat) (src : List Char) : Option Nat :=
  match src with
  | [] => none
  | ['+'] => none
  | ['-'] => none
  | '+' :: digits => digitsFrom max radix 0 digits
  | digits => digitsFrom max radix 0 digits

variable {radix : Nat}

lemma le_valueFrom (hradix : 0 < radix) (acc : Nat) (digits : List Char) :
    acc ≤ valueFrom radix acc digits := by
  induction digits generalizing acc with
  | nil => exact le_refl acc
  | cons c digits ih =>
    have hstep : acc ≤ acc * radix := Nat.le_mul_of_pos_right acc hradix
    have hlater := ih (acc * radix + (digit radix c).getD 0)
    change acc ≤ valueFrom radix (acc * radix + (digit radix c).getD 0) digits
    omega

variable {max n : Nat} {digits : List Char}

lemma digitsFrom_eq_some_iff (hradix : 0 < radix) {acc : Nat} (hacc : acc ≤ max) :
    digitsFrom max radix acc digits = some n ↔
      (∀ c ∈ digits, isDigit radix c = true) ∧ valueFrom radix acc digits = n ∧ n ≤ max := by
  induction digits generalizing acc with
  | nil =>
    simp only [digitsFrom, Option.some.injEq, not_mem_nil, false_imp_iff, implies_true, true_and]
    constructor
    · rintro rfl
      exact ⟨rfl, hacc⟩
    · exact fun h => h.1
  | cons c digits ih => ?_
  unfold digitsFrom
  rcases hdigit : digit radix c with _ | d
  · simp [isDigit, hdigit]
  have hvalue : valueFrom radix acc (c :: digits) = valueFrom radix (acc * radix + d) digits := by
    simp [valueFrom, hdigit]
  rw [hvalue]
  simp only [mem_cons, forall_eq_or_imp, isDigit, hdigit, Option.isSome_some, true_and]
  split_ifs with hfits
  · exact ih hfits
  have hgrows := le_valueFrom hradix (acc * radix + d) digits
  simp only [false_iff]
  rintro ⟨-, rfl, hmax⟩
  omega

variable {c : Char}

/-- Digits are ASCII digits or letters. -/
lemma isDigit_range (h : isDigit radix c = true) :
    (48 ≤ c.toNat ∧ c.toNat ≤ 57) ∨ (97 ≤ c.toNat ∧ c.toNat ≤ 122) ∨
      (65 ≤ c.toNat ∧ c.toNat ≤ 90) := by
  by_contra hother
  push Not at hother
  obtain ⟨hdecimal, hlower, hupper⟩ := hother
  have hdecimal' : ¬ ('0' ≤ c ∧ c ≤ '9') := fun hc => absurd hc.2 (not_le.mpr (hdecimal hc.1))
  have hlower' : ¬ ('a' ≤ c ∧ c ≤ 'z') := fun hc => absurd hc.2 (not_le.mpr (hlower hc.1))
  have hupper' : ¬ ('A' ≤ c ∧ c ≤ 'Z') := fun hc => absurd hc.2 (not_le.mpr (hupper hc.1))
  simp [isDigit, digit, hdecimal', hlower', hupper'] at h

lemma isWhitespace_of_isDigit (h : isDigit radix c = true) : isWhitespace c = false := by
  have hrange := isDigit_range h
  simp only [isWhitespace, Bool.or_eq_false_iff, Bool.and_eq_false_iff, decide_eq_false_iff_not,
    beq_eq_false_iff_ne]
  omega

/-- No sign is a digit. -/
lemma digit_sign (h : c = '+' ∨ c = '-') : digit radix c = none := by
  rcases h with rfl | rfl
  · have hvalue : digit radix '+' = if radix < radix then some radix else none := rfl
    simp [hvalue]
  · have hvalue : digit radix '-' = if radix < radix then some radix else none := rfl
    simp [hvalue]

lemma fromStrRadix_digits (hdigits : ∀ c ∈ digits, isDigit radix c = true) (hne : digits ≠ []) :
    fromStrRadix max radix digits = digitsFrom max radix 0 digits := by
  rcases digits with _ | ⟨c, digits⟩
  · exact absurd rfl hne
  have hc : isDigit radix c = true := hdigits c (by simp)
  have hplus : c ≠ '+' := by
    rintro rfl
    simp [isDigit, digit_sign] at hc
  have hminus : c ≠ '-' := by
    rintro rfl
    simp [isDigit, digit_sign] at hc
  unfold fromStrRadix
  split <;> simp_all

/-- The parser accepts digits, and digits after a plus sign. -/
theorem fromStrRadix_eq_some_iff (hradix : 0 < radix) {src : List Char} :
    fromStrRadix max radix src = some n ↔
      ∃ digits, (src = digits ∨ src = '+' :: digits) ∧ digits ≠ [] ∧
        (∀ c ∈ digits, isDigit radix c = true) ∧ value radix digits = n ∧ n ≤ max := by
  constructor
  · intro h
    unfold fromStrRadix at h
    split at h
    · cases h
    · cases h
    · cases h
    · rename_i digits hsign
      have hne : digits ≠ [] := by
        rintro rfl
        exact hsign rfl
      exact ⟨digits, .inr rfl, hne, (digitsFrom_eq_some_iff hradix (Nat.zero_le _)).mp h⟩
    · rename_i hne _ _ _
      exact ⟨src, .inl rfl, fun hnil => hne hnil,
        (digitsFrom_eq_some_iff hradix (Nat.zero_le _)).mp h⟩
  · rintro ⟨digits, hsrc, hne, hdigits, hvalue⟩
    have hparsed : digitsFrom max radix 0 digits = some n :=
      (digitsFrom_eq_some_iff hradix (Nat.zero_le _)).mpr ⟨hdigits, hvalue⟩
    rcases hsrc with rfl | rfl
    · rw [fromStrRadix_digits hdigits hne, hparsed]
    cases digits with
    | nil => exact absurd rfl hne
    | cons c digits =>
      rw [← hparsed]
      rfl

/-! ## Decimal numerals -/

lemma isDigit_ten (c : Char) : isDigit 10 c = c.isDigit := by
  rw [Bool.eq_iff_iff, Char.isDigit, Bool.and_eq_true, decide_eq_true_eq, decide_eq_true_eq]
  constructor
  · intro h
    by_contra hdecimal
    have hnot : ¬ ('0' ≤ c ∧ c ≤ '9') := hdecimal
    simp only [isDigit, digit, hnot, if_false] at h
    split_ifs at h <;> simp_all
  intro h
  have hdecimal : '0' ≤ c ∧ c ≤ '9' := h
  have hupper : c.toNat ≤ 57 := h.2
  simp only [isDigit, digit, hdecimal, and_self, if_true]
  rw [if_pos (by simp only [Char.reduceToNat]; omega)]
  rfl

/-- A digit is the character its value is printed as. -/
lemma eq_digitChar {d : Nat} (h : digit 10 c = some d) : d < 10 ∧ c = d.digitChar := by
  have hdigit : c.isDigit = true := by
    rw [← isDigit_ten, isDigit, h]
    rfl
  rw [Char.isDigit, Bool.and_eq_true, decide_eq_true_eq, decide_eq_true_eq] at hdigit
  have hdecimal : '0' ≤ c ∧ c ≤ '9' := hdigit
  have hlower : 48 ≤ c.toNat := hdigit.1
  have hupper : c.toNat ≤ 57 := hdigit.2
  have hvalue : c.toNat - 48 = d := by
    simp only [digit, hdecimal, and_self, if_true, Char.reduceToNat] at h
    rw [if_pos (by omega)] at h
    exact Option.some.inj h
  have hchars : ∀ m : Fin 10, (Nat.digitChar m.val).toNat = 48 + m.val := by decide
  have hd : d < 10 := by omega
  refine ⟨hd, Char.toNat_inj.mp ?_⟩
  rw [hchars ⟨d, hd⟩]
  simp only
  omega

lemma value_concat (radix : Nat) (digits : List Char) (c : Char) :
    value radix (digits ++ [c]) = value radix digits * radix + (digit radix c).getD 0 := by
  simp [value, valueFrom]

/-- A numeral without a leading zero is the one that its value is printed as. -/
theorem toDigits_value (hne : digits ≠ []) (hdigits : ∀ c ∈ digits, isDigit 10 c = true)
    (hzero : digits.head? = some '0' → digits = ['0']) :
    Nat.toDigits 10 (value 10 digits) = digits := by
  induction digits using List.reverseRecOn with
  | nil => exact absurd rfl hne
  | append_singleton digits c ih => ?_
  obtain ⟨d, hd⟩ := Option.isSome_iff_exists.mp (hdigits c (by simp))
  obtain ⟨hlt, hc⟩ := eq_digitChar hd
  rw [value_concat, hd, Option.getD_some]
  cases digits with
  | nil =>
    have hvalue : value 10 [] * 10 + d = d := by simp [value, valueFrom]
    rw [hvalue, Nat.toDigits_of_lt_base hlt, hc]
    rfl
  | cons first rest => ?_
  have hfirst : first ≠ '0' := by
    rintro rfl
    simpa using hzero rfl
  have hinit := ih (by simp) (fun c hc => hdigits c (mem_append_left _ hc))
    (fun h => absurd (Option.some.inj h) hfirst)
  have hpos : 0 < value 10 (first :: rest) := by
    by_contra hvalue
    rw [Nat.eq_zero_of_not_pos hvalue] at hinit
    exact hfirst (List.cons.inj hinit).1.symm
  rw [Nat.toDigits_of_base_le (by omega) (by omega)]
  have hdiv : (value 10 (first :: rest) * 10 + d) / 10 = value 10 (first :: rest) := by omega
  have hmod : (value 10 (first :: rest) * 10 + d) % 10 = d := by omega
  rw [hdiv, hmod, hinit, hc]

lemma digit_digitChar {d : Nat} (h : d < 10) : digit 10 d.digitChar = some d := by
  have hall : ∀ d : Fin 10, digit 10 d.val.digitChar = some d.val := by decide
  exact hall ⟨d, h⟩

/-- The numeral of a number has digits only, and stands for the number. -/
lemma value_toDigits (n : Nat) :
    (∀ c ∈ Nat.toDigits 10 n, isDigit 10 c = true) ∧ value 10 (Nat.toDigits 10 n) = n := by
  induction n using Nat.strongRecOn with
  | ind n ih => ?_
  by_cases hsmall : n < 10
  · rw [Nat.toDigits_of_lt_base hsmall, forall_mem_singleton, isDigit]
    simp [digit_digitChar hsmall, value, valueFrom]
  · have hdigit := digit_digitChar (Nat.mod_lt n (by omega : 0 < 10))
    rcases ih (n / 10) (by omega) with ⟨hdigits, hvalue⟩
    rw [Nat.toDigits_of_base_le (by omega) (by omega), forall_mem_append, value_concat,
      hvalue, hdigit, forall_mem_singleton, isDigit, hdigit]
    exact ⟨⟨hdigits, rfl⟩, Nat.div_add_mod' n 10⟩

lemma fromStrRadix_toDigits (h : n ≤ max) : fromStrRadix max 10 (Nat.toDigits 10 n) = some n := by
  rcases value_toDigits n with ⟨hdigits, hvalue⟩
  exact (fromStrRadix_eq_some_iff (by omega)).mpr
    ⟨_, .inl rfl, Nat.toDigits_ne_nil, hdigits, hvalue, h⟩

/-! ## Splitting -/

/-- The parts before and after the first occurrence of a character. -/
def splitOnce (c : Char) : List Char → Option (List Char × List Char)
  | [] => none
  | d :: s => if d = c then some ([], s) else (splitOnce c s).map (fun p => (d :: p.1, p.2))

lemma splitOnce_append (h : c ∉ s) (t : List Char) : splitOnce c (s ++ c :: t) = some (s, t) := by
  induction s with
  | nil => simp [splitOnce]
  | cons d s ih =>
    rw [mem_cons, not_or] at h
    rw [cons_append, splitOnce, if_neg (Ne.symm h.1), ih h.2]
    rfl

end Str
