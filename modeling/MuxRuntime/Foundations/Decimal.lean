import MuxRuntime.Foundations.Utf8

/-!
# Decimal numerals

The bytes of the decimal numeral of a natural number: digits only, no leading
zero, and the number can be read back.
-/

namespace Utf8

open List

lemma encode_eq_map {s : List Char} (h : ∀ c ∈ s, c.toNat < 128) : encode s = s.map byte := by
  induction s with
  | nil => rfl
  | cons c s ih =>
    rw [forall_mem_cons] at h
    rw [encode_cons, encodeChar_ascii h.1, ih h.2, singleton_append, map_cons]

/-- The decimal numeral of a number. -/
def decimal (n : Nat) : List UInt8 :=
  (Nat.toDigits 10 n).map byte

variable {n : Nat}

lemma isDigit_of_mem_toDigits {c : Char} (h : c ∈ Nat.toDigits 10 n) :
    48 ≤ c.toNat ∧ c.toNat ≤ 57 := by
  have hdigit := Nat.isDigit_of_mem_toDigits (by omega) (by omega) h
  simp only [Char.isDigit, Bool.and_eq_true, decide_eq_true_eq] at hdigit
  exact ⟨hdigit.1, hdigit.2⟩

lemma ascii_toString (n : Nat) : ascii (toString n) = decimal n := by
  rw [ascii, decimal, ← Nat.toList_repr]
  apply encode_eq_map
  intro c hc
  rw [show toString n = n.repr from rfl, Nat.toList_repr] at hc
  have := isDigit_of_mem_toDigits hc
  omega

lemma isAsciiDigit_decimal : ∀ b ∈ decimal n, isAsciiDigit b = true := by
  intro b hb
  rcases mem_map.mp hb with ⟨c, hc, rfl⟩
  have hdigit := isDigit_of_mem_toDigits hc
  have hnat : (byte c).toNat = c.toNat := by
    simp only [byte, UInt8.toNat_ofNat']
    omega
  simp only [isAsciiDigit, Bool.and_eq_true, decide_eq_true_eq, UInt8.le_iff_toNat_le, hnat]
  exact hdigit

lemma decimal_ne_nil (n : Nat) : decimal n ≠ [] := by simp [decimal, Nat.toDigits_ne_nil]

/-- A numeral is read back digit by digit. -/
lemma foldl_decimal (n : Nat) :
    (decimal n).foldl (fun value b => value * 10 + (b.toNat - 48)) 0 = n := by
  have hchars : ∀ (s : List Char) (value : Nat), (∀ c ∈ s, c.toNat < 256) →
      (s.map byte).foldl (fun value b => value * 10 + (b.toNat - 48)) value =
        Nat.ofDigitChars 10 s value := by
    intro s
    induction s with
    | nil => simp
    | cons c s ih => ?_
    intro value hs
    rw [forall_mem_cons] at hs
    have hnat : (byte c).toNat = c.toNat := by
      simp only [byte, UInt8.toNat_ofNat']
      omega
    rw [map_cons, foldl_cons, ih _ hs.2, Nat.ofDigitChars_cons, hnat, Nat.mul_comm]
    rfl
  rw [decimal, hchars _ _ (fun c hc => by have := isDigit_of_mem_toDigits hc; omega),
    Nat.ofDigitChars_ten_toDigits]

/-- No numeral but that of zero starts with a zero. -/
lemma decimal_head (hn : 0 < n) : ∃ d ds, decimal n = d :: ds ∧ d ≠ byte '0' := by
  induction n using Nat.strongRecOn with
  | ind n ih => ?_
  by_cases hsmall : n < 10
  · have hall : ∀ m : Fin 10, 0 < m.val → byte (Nat.digitChar m.val) ≠ byte '0' := by decide
    refine ⟨byte n.digitChar, [], ?_, hall ⟨n, hsmall⟩ hn⟩
    rw [decimal, Nat.toDigits_of_lt_base hsmall]
    rfl
  rcases ih (n / 10) (by omega) (by omega) with ⟨d, ds, hds, hd⟩
  refine ⟨d, ds ++ [byte (n % 10).digitChar], ?_, hd⟩
  rw [decimal, Nat.toDigits_of_base_le (by omega) (by omega), map_append]
  rw [decimal] at hds
  rw [hds]
  rfl

end Utf8
