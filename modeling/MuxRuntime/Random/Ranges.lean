import Mathlib

/-!
# Random integers of a range

The module generator is a linear congruential one whose 31 output bits are scaled to the
range. A `Random` value steps SplitMix64 and rejects the draws of the last, incomplete
cycle of residues.
-/

namespace MuxRuntime.Random

/-! ## Steps that lose nothing -/

def randMax : UInt64 := 2147483647

/-- `RAND_MAX.count_ones()` -/
def randBits : Nat :=
  (List.range 64).countP randMax.toNat.testBit

/-- The linear generator. -/
def lcgNext (state : UInt64) : UInt64 :=
  state * 6364136223846793005 + 1442695040888963407

/-- The thread's generator. -/
structure Module where
  initialized : Bool
  state : UInt64

/-- The first use takes a seed from the system. -/
def ensureInitialized (seed : UInt64) (m : Module) : Module :=
  if m.initialized then m else ⟨true, seed⟩

/-- The mask clears the sign bit, so the signed result has the value of these bits. -/
def muxRandInt (seed : UInt64) (m : Module) : UInt64 × Module :=
  let m := ensureInitialized seed m
  let state := lcgNext m.state
  ((state >>> 33) &&& randMax, { m with state })

/-- The number of integers of the range, in 128 bits. -/
def rangeSize (min max : Int64) : Nat :=
  (max.toInt - min.toInt).toNat

/-- The sum in 128 bits, or `min` where it is no `i64`. -/
def offsetFrom (min : Int64) (scaled : Nat) : Int64 :=
  let value := min.toInt + scaled
  if -2 ^ 63 ≤ value ∧ value < 2 ^ 63 then Int64.ofInt value else min

def muxRandRange (seed : UInt64) (min max : Int64) (m : Module) : Int64 × Module :=
  if max ≤ min then (min, m)
  else
    let (draw, m) := muxRandInt seed m
    (offsetFrom min ((draw.toNat * rangeSize min max) >>> randBits), m)

/-- Values of the range, without overflow, and every one of them for some state. -/
structure RangeLaw (seed : UInt64) (min max : Int64) : Prop where
  within (m : Module) :
    min ≤ (muxRandRange seed min max m).1 ∧ (muxRandRange seed min max m).1 < max
  exact (m : Module) : ((muxRandRange seed min max m).1.toInt : ℤ) = min.toInt +
    ((muxRandInt seed m).1.toNat * rangeSize min max) / 2 ^ 31
  covers (v : Int64) : min ≤ v → v < max → ∃ m, (muxRandRange seed min max m).1 = v

variable {seed : UInt64} {min max : Int64} {m : Module}

lemma randBits_eq : randBits = 31 := by decide

lemma muxRandInt_lt : (muxRandInt seed m).1.toNat < 2 ^ 31 := by
  have hle : (muxRandInt seed m).1.toNat ≤ randMax.toNat := by exact Nat.and_le_right
  exact Nat.lt_succ_of_le hle

/-- Every output has a state that steps to it. -/
lemma exists_muxRandInt {r : Nat} (hr : r < 2 ^ 31) (seed : UInt64) :
    ∃ m, (muxRandInt seed m).1.toNat = r := by
  have hsize : r * 2 ^ 33 < UInt64.size := by
    norm_num [UInt64.size]
    omega
  let next := UInt64.ofNat (r * 2 ^ 33)
  refine ⟨⟨true, (next - 1442695040888963407) * 13877824140714322085⟩, ?_⟩
  have hstep : lcgNext ((next - 1442695040888963407) * 13877824140714322085) = next := by
    have hinverse : (13877824140714322085 : UInt64) * 6364136223846793005 = 1 := by decide
    rw [lcgNext, UInt64.mul_assoc, hinverse, UInt64.mul_one, UInt64.sub_add_cancel]
  have hshift : (next >>> 33).toNat = r := by
    rw [UInt64.toNat_shiftRight, UInt64.toNat_ofNat_of_lt' hsize, Nat.shiftRight_eq_div_pow]
    exact Nat.mul_div_cancel r (by norm_num)
  rw [muxRandInt, ensureInitialized, if_pos rfl, hstep, UInt64.toNat_and, hshift,
    show randMax.toNat = 2 ^ 31 - 1 from rfl, Nat.and_two_pow_sub_one_eq_mod, Nat.mod_eq_of_lt hr]

section Scaling

variable {k : Nat} (hk : k < rangeSize min max)

include hk

lemma toInt_offsetFrom : (offsetFrom min k).toInt = min.toInt + k := by
  have hlow := min.le_toInt
  have hhigh := max.toInt_lt
  unfold rangeSize at hk
  have hfits : -2 ^ 63 ≤ min.toInt + k ∧ min.toInt + k < 2 ^ 63 := by omega
  rw [offsetFrom, if_pos hfits, Int64.toInt_ofInt_of_le hfits.1 hfits.2]

lemma offsetFrom_mem : min ≤ offsetFrom min k ∧ offsetFrom min k < max := by
  rw [Int64.le_iff_toInt_le, Int64.lt_iff_toInt_lt, toInt_offsetFrom hk]
  unfold rangeSize at hk
  omega

/-- A value of the range is its distance from the start. -/
lemma offsetFrom_eq_iff {v : Int64} : offsetFrom min k = v ↔ (k : Int) = v.toInt - min.toInt := by
  rw [← Int64.toInt_inj, toInt_offsetFrom hk]
  omega

end Scaling

lemma rangeSize_pos (h : min < max) : 0 < rangeSize min max := by
  have hlt := Int64.lt_iff_toInt_lt.mp h
  unfold rangeSize
  omega

lemma exists_offsetFrom {v : Int64} (hlow : min ≤ v) (hhigh : v < max) :
    ∃ k < rangeSize min max, offsetFrom min k = v := by
  have hlow' := Int64.le_iff_toInt_le.mp hlow
  have hhigh' := Int64.lt_iff_toInt_lt.mp hhigh
  have hk : (v.toInt - min.toInt).toNat < rangeSize min max := by
    unfold rangeSize
    omega
  exact ⟨_, hk, (offsetFrom_eq_iff hk).mpr (by omega)⟩

lemma muxRandRange_eq (h : min < max) : (muxRandRange seed min max m).1 =
    offsetFrom min ((muxRandInt seed m).1.toNat * rangeSize min max / 2 ^ 31) := by
  rw [muxRandRange, if_neg (Int64.not_le.mpr h), randBits_eq, ← Nat.shiftRight_eq_div_pow]

lemma scaled_lt (h : min < max) (seed : UInt64) (m : Module) :
    (muxRandInt seed m).1.toNat * rangeSize min max / 2 ^ 31 < rangeSize min max := by
  apply Nat.div_lt_of_lt_mul
  exact Nat.mul_lt_mul_of_pos_right muxRandInt_lt (rangeSize_pos h)

/-- The draw that is scaled to `k`. -/
lemma exists_scaled {k span : Nat} (hk : k < span) (hspan : span ≤ 2 ^ 31) :
    ∃ r < 2 ^ 31, r * span / 2 ^ 31 = k := by
  have hpos : 0 < span := by omega
  have hdiv := Nat.div_add_mod (k * 2 ^ 31 + (span - 1)) span
  have hmod := Nat.mod_lt (k * 2 ^ 31 + (span - 1)) hpos
  rw [Nat.mul_comm span] at hdiv
  refine ⟨(k * 2 ^ 31 + (span - 1)) / span, ?_, Nat.div_eq_of_lt_le (by omega) (by omega)⟩
  apply Nat.div_lt_of_lt_mul
  omega

/-- The range law holds of exactly the ranges that the generator's width can fill. -/
theorem muxRandRange_lawful_iff (seed : UInt64) (h : min < max) :
    RangeLaw seed min max ↔ max.toInt - min.toInt ≤ 2 ^ 31 := by
  have hsize : max.toInt - min.toInt ≤ 2 ^ 31 ↔ rangeSize min max ≤ 2 ^ 31 := by
    unfold rangeSize
    omega
  rw [hsize]
  constructor
  · -- the results are images of the draws
    intro hlaw
    have hsubset : Finset.range (rangeSize min max) ⊆
        (Finset.range (2 ^ 31)).image (fun r => r * rangeSize min max / 2 ^ 31) := by
      intro k hk
      rw [Finset.mem_range] at hk
      rcases hlaw.covers (offsetFrom min k) (offsetFrom_mem hk).1 (offsetFrom_mem hk).2 with ⟨m, hm⟩
      rw [muxRandRange_eq h, offsetFrom_eq_iff (scaled_lt h seed m), toInt_offsetFrom hk] at hm
      rw [Finset.mem_image]
      exact ⟨(muxRandInt seed m).1.toNat, Finset.mem_range.mpr muxRandInt_lt, by omega⟩
    have hcard := (Finset.card_le_card hsubset).trans Finset.card_image_le
    rwa [Finset.card_range, Finset.card_range] at hcard
  · intro hspan
    constructor
    · intro m
      rw [muxRandRange_eq h]
      exact offsetFrom_mem (scaled_lt h seed m)
    · intro m
      rw [muxRandRange_eq h, toInt_offsetFrom (scaled_lt h seed m)]
      norm_cast
    · intro v hlow hhigh
      rcases exists_offsetFrom hlow hhigh with ⟨k, hk, rfl⟩
      rcases exists_scaled hk hspan with ⟨r, hr, hscaled⟩
      rcases exists_muxRandInt hr seed with ⟨m, hm⟩
      exact ⟨m, by rw [muxRandRange_eq h, hm, hscaled]⟩

theorem muxRandRange_lawful_dice : RangeLaw 0 1 7 :=
  (muxRandRange_lawful_iff 0 (by decide)).mpr (by decide)

/-- In a range of `2 ^ 32` integers the odd ones are never returned. -/
theorem muxRandRange_misses_one : ¬ RangeLaw 0 0 4294967296 := by
  intro hlaw
  rcases hlaw.covers 1 (by decide) (by decide) with ⟨m, hone⟩
  rw [muxRandRange_eq (by decide), offsetFrom_eq_iff (scaled_lt (by decide) 0 m)] at hone
  have hspan : rangeSize 0 4294967296 = 2 ^ 32 := by decide
  have hvalue : Int64.toInt 1 - Int64.toInt 0 = 1 := by decide
  rw [hspan, hvalue] at hone
  omega

/-! ## The generators of `Random` values -/

def splitmixMix (state : UInt64) : UInt64 :=
  let value := (state ^^^ (state >>> 30)) * 0xbf58476d1ce4e5b9
  let value := (value ^^^ (value >>> 27)) * 0x94d049bb133111eb
  value ^^^ (value >>> 31)

/-- The draw number `i` of a generator, from one on. -/
def draw (state : UInt64) (i : Nat) : UInt64 :=
  splitmixMix (state + UInt64.ofNat i * 0x9e3779b97f4a7c15)

variable {handle : Int64} {span fuel : Nat} {entries : Randoms} {state : UInt64}

end MuxRuntime.Random
