import Mathlib

/-!
# Masks of leading bits

A mask clears the low `k` bits of a word. The words that agree with a masked word above the mask
are the interval from that word to the word with all low bits set.
-/

namespace Masks

variable {w k : Nat}

/-- All bits but the low `k` ones. -/
def mask (w k : Nat) : BitVec w :=
  BitVec.allOnes w <<< k

lemma and_mask (x : BitVec w) : x &&& mask w k = (x >>> k) <<< k := by
  ext i hi
  simp only [mask, BitVec.getElem_and, BitVec.getElem_shiftLeft, BitVec.getElem_allOnes]
  by_cases hlow : i < k
  · simp [hlow]
  · simp [hlow, BitVec.getLsbD_eq_getElem hi, Nat.add_sub_cancel' (not_lt.mp hlow)]

lemma toNat_and_mask (x : BitVec w) : (x &&& mask w k).toNat = x.toNat / 2 ^ k * 2 ^ k := by
  have hle : x.toNat / 2 ^ k * 2 ^ k ≤ x.toNat := Nat.div_mul_le_self _ _
  rw [and_mask, BitVec.toNat_shiftLeft, BitVec.toNat_ushiftRight, Nat.shiftRight_eq_div_pow,
    Nat.shiftLeft_eq, Nat.mod_eq_of_lt (lt_of_le_of_lt hle x.isLt)]

lemma toNat_not_mask (hk : k ≤ w) : (~~~ mask w k).toNat = 2 ^ k - 1 := by
  have hmask : (mask w k).toNat = (2 ^ w - 1) / 2 ^ k * 2 ^ k := by
    rw [← BitVec.toNat_allOnes, ← toNat_and_mask, BitVec.allOnes_and]
  have hsplit : 2 ^ w = 2 ^ (w - k) * 2 ^ k := by rw [← Nat.pow_add, Nat.sub_add_cancel hk]
  have hlow : 0 < 2 ^ k := Nat.two_pow_pos k
  have hhigh : 0 < 2 ^ (w - k) := Nat.two_pow_pos (w - k)
  have hquotient : (2 ^ w - 1) / 2 ^ k = 2 ^ (w - k) - 1 := by
    apply Nat.div_eq_of_lt_le
    · rw [Nat.sub_mul]
      omega
    · rw [Nat.sub_add_cancel hhigh]
      omega
  have hle : 2 ^ k ≤ 2 ^ (w - k) * 2 ^ k := Nat.le_mul_of_pos_left _ hhigh
  rw [BitVec.toNat_not, hmask, hquotient, Nat.sub_mul, ← hsplit]
  omega

/-- Words agree above the mask exactly when they have the same quotient. -/
theorem and_mask_eq_iff (x y : BitVec w) :
    x &&& mask w k = y &&& mask w k ↔ x.toNat / 2 ^ k = y.toNat / 2 ^ k := by
  rw [← BitVec.toNat_inj, toNat_and_mask, toNat_and_mask, Nat.mul_left_inj (Nat.two_pow_pos k).ne']

/-- Words that agree above a mask agree above one that keeps less. -/
lemma and_mask_eq_of_le {l : Nat} (h : k ≤ l) {x y : BitVec w}
    (hxy : x &&& mask w k = y &&& mask w k) : x &&& mask w l = y &&& mask w l := by
  have hsplit : 2 ^ l = 2 ^ k * 2 ^ (l - k) := by rw [← Nat.pow_add, Nat.add_sub_cancel' h]
  rw [and_mask_eq_iff] at hxy ⊢
  rw [hsplit, ← Nat.div_div_eq_div_mul, ← Nat.div_div_eq_div_mul, hxy]

/-- The last word that agrees with a masked word. -/
lemma toNat_or_not_mask (hk : k ≤ w) {x : BitVec w} (hx : x &&& mask w k = x) :
    (x ||| ~~~ mask w k).toNat = x.toNat + (2 ^ k - 1) := by
  have hmultiple : x.toNat = 2 ^ k * (x.toNat / 2 ^ k) := by rw [Nat.mul_comm, ← toNat_and_mask, hx]
  have hlt : 2 ^ k - 1 < 2 ^ k := Nat.sub_one_lt_of_lt (Nat.two_pow_pos k)
  rw [BitVec.toNat_or, toNat_not_mask hk, hmultiple, ← Nat.two_pow_add_eq_or_of_lt hlt]

/-- The words that agree with a masked word are those between it and the word with the low bits
set. -/
theorem and_mask_eq_iff_between (hk : k ≤ w) {x : BitVec w} (hx : x &&& mask w k = x)
    (y : BitVec w) : x &&& mask w k = y &&& mask w k ↔ x ≤ y ∧ y ≤ x ||| ~~~ mask w k := by
  have hmultiple : x.toNat = x.toNat / 2 ^ k * 2 ^ k := by rw [← toNat_and_mask, hx]
  have hdiv := Nat.div_add_mod y.toNat (2 ^ k)
  rw [and_mask_eq_iff, BitVec.le_def, BitVec.le_def, toNat_or_not_mask hk hx]
  constructor
  · intro hquotient
    rw [hquotient, Nat.mul_comm] at hmultiple
    omega
  rintro ⟨hlow, hhigh⟩
  symm
  apply Nat.div_eq_of_lt_le
  · omega
  · rw [Nat.succ_mul]
    omega

end Masks
