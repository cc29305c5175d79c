import Mathlib

/-!
# Numbers as bytes

A number below `256 ^ w` is written in `w` bytes, with the lowest byte first or with
the highest byte first.
-/

namespace Bytes

/-- The lowest `w` bytes of a number, the lowest one first. -/
def le : Nat → Nat → List UInt8
  | 0, _ => []
  | w + 1, n => UInt8.ofNat n :: le w (n / 256)

/-- The number that bytes stand for when the lowest one comes first. -/
def ofLe : List UInt8 → Nat
  | [] => 0
  | b :: bytes => b.toNat + 256 * ofLe bytes

/-- The lowest `w` bytes of a number, the highest one first. -/
def be (w n : Nat) : List UInt8 :=
  (le w n).reverse

/-- The number that bytes stand for when the highest one comes first. -/
def ofBe (bytes : List UInt8) : Nat :=
  ofLe bytes.reverse

variable {w n : Nat} {bytes : List UInt8}

@[simp]
lemma length_le : (le w n).length = w := by
  induction w generalizing n with
  | zero => rfl
  | succ w ih => simp [le, ih]

@[simp]
lemma length_be : (be w n).length = w := by simp [be]

theorem ofLe_le (h : n < 256 ^ w) : ofLe (le w n) = n := by
  induction w generalizing n with
  | zero =>
    have hzero : n = 0 := by simpa using h
    rw [hzero]
    rfl
  | succ w ih => ?_
  have hhigh : n / 256 < 256 ^ w := by
    apply Nat.div_lt_of_lt_mul
    rwa [pow_succ'] at h
  rw [le, ofLe, ih hhigh, UInt8.toNat_ofNat']
  omega

theorem le_ofLe (h : bytes.length = w) : le w (ofLe bytes) = bytes := by
  subst h
  induction bytes with
  | nil => rfl
  | cons b bytes ih => ?_
  have hb : b.toNat < 256 := b.toNat_lt
  have hlow : UInt8.ofNat (b.toNat + 256 * ofLe bytes) = b := by
    apply UInt8.toNat_inj.mp
    rw [UInt8.toNat_ofNat']
    omega
  have hhigh : (b.toNat + 256 * ofLe bytes) / 256 = ofLe bytes := by omega
  rw [ofLe, List.length_cons, le, hlow, hhigh, ih]

lemma ofLe_lt (h : bytes.length = w) : ofLe bytes < 256 ^ w := by
  subst h
  induction bytes with
  | nil => simp [ofLe]
  | cons b bytes ih =>
    have hb : b.toNat < 256 := b.toNat_lt
    rw [ofLe, List.length_cons, pow_succ']
    omega

theorem ofBe_be (h : n < 256 ^ w) : ofBe (be w n) = n := by
  rw [ofBe, be, List.reverse_reverse, ofLe_le h]

theorem be_ofBe (h : bytes.length = w) : be w (ofBe bytes) = bytes := by
  rw [ofBe, be, le_ofLe (by rwa [List.length_reverse]), List.reverse_reverse]

/-- Different numbers have different bytes. -/
lemma le_inj {m : Nat} (hm : m < 256 ^ w) (hn : n < 256 ^ w) (h : le w m = le w n) : m = n := by
  rw [← ofLe_le hm, h, ofLe_le hn]

end Bytes
