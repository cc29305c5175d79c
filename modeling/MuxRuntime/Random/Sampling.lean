import MuxRuntime.Random.Ranges

/-!
# Shuffling and sampling
-/

namespace MuxRuntime.Random

open List

variable {α : Type}

/-- `Vec::swap`; `none` is an abort. -/
def swap (items : Array α) (i j : Nat) : Option (Array α) :=
  if h : i < items.size ∧ j < items.size then some (items.swap i j h.1 h.2) else none

/-- `mux_rand_range(0, n as i64) as usize` -/
def drawIndex (seed : UInt64) (n : Nat) (m : Module) : Nat × Module :=
  let (value, m) := muxRandRange seed 0 (Int64.ofNat n) m
  ((value.toInt % 2 ^ 64).toNat, m)

/-- The loop of both functions: while more than `target` remain, one of them is drawn and
swapped with the last of them. Shuffling counts from the index of that last one. -/
def swapLoop (seed : UInt64) (target : Nat) : Nat → Array α → Module → Option (Array α × Module)
  | 0, items, m => some (items, m)
  | remaining + 1, items, m =>
    if remaining + 1 ≤ target then some (items, m)
    else do
      let (choice, m) := drawIndex seed (remaining + 1) m
      let items ← swap items choice remaining
      swapLoop seed target remaining items m

/-- The loop runs while `index > 1`. -/
def muxRandomShuffle (seed : UInt64) (items : Array α) (m : Module) : Option (Array α × Module) :=
  swapLoop seed 1 items.size items m

def muxRandomSample (seed : UInt64) (items : Array α) (count : Int64) (m : Module) :
    Option (Except String (List α) × Module) :=
  if count < 0 ∨ (items.size : Int) < count.toInt then
    some (.error "sample count must be between 0 and the list length", m)
  else do
    let target := count.toInt.toNat
    let (indexes, m) ← swapLoop seed target items.size (Array.range items.size) m
    some (.ok ((indexes.toList.take target).filterMap (items[·]?)), m)

variable {seed : UInt64}

lemma drawIndex_lt {n : Nat} (hpos : 0 < n) (hn : n < 2 ^ 63) (m : Module) :
    (drawIndex seed n m).1 < n := by
  have hmax : (Int64.ofNat n).toInt = n := Int64.toInt_ofNat_of_lt hn
  have hlt : 0 < Int64.ofNat n := by
    rw [Int64.lt_iff_toInt_lt, hmax, Int64.toInt_zero]
    omega
  have hmem := offsetFrom_mem (scaled_lt hlt seed m)
  rw [← muxRandRange_eq hlt, Int64.le_iff_toInt_le, Int64.lt_iff_toInt_lt, hmax,
    Int64.toInt_zero] at hmem
  unfold drawIndex
  dsimp only
  omega

/-- The loop returns, with the elements it was given. -/
lemma swapLoop_perm {s : UInt64} (target remaining : Nat) (items : Array α) (m : Module)
    (hremaining : remaining ≤ items.size) (hsize : items.size < 2 ^ 63) :
    ∃ after m', swapLoop s target remaining items m = some (after, m') ∧ after.Perm items := by
  induction remaining generalizing items m with
  | zero => exact ⟨items, m, rfl, .refl _⟩
  | succ remaining ih => ?_
  unfold swapLoop
  by_cases htarget : remaining + 1 ≤ target
  · exact ⟨items, m, if_pos htarget, .refl _⟩
  have hchoice : (drawIndex s (remaining + 1) m).1 < remaining + 1 :=
    drawIndex_lt (Nat.succ_pos remaining) (by omega) m
  have hbounds : (drawIndex s (remaining + 1) m).1 < items.size ∧ remaining < items.size := by omega
  have hperm := Array.swap_perm hbounds.1 hbounds.2
  rcases ih (items.swap _ _ hbounds.1 hbounds.2) (drawIndex s (remaining + 1) m).2
    (by rw [Array.size_swap]; omega) (by rwa [Array.size_swap]) with ⟨after, m', hloop, hafter⟩
  refine ⟨after, m', ?_, hafter.trans hperm⟩
  rw [if_neg htarget]
  simp only [swap, dif_pos hbounds, Option.bind_eq_bind, Option.bind_some]
  exact hloop

/-- As many elements as asked for, from positions that differ. -/
structure IsSample (items : Array α) (count : Int64) (sampled : List α) : Prop where
  length : (sampled.length : Int) = count.toInt
  positions : ∃ positions : List Nat, positions.Nodup ∧ sampled.map some = positions.map (items[·]?)

lemma map_some_filterMap {f : Nat → Option α} {l : List Nat} (h : ∀ i ∈ l, (f i).isSome) :
    (l.filterMap f).map some = l.map f := by
  induction l with
  | nil => rfl
  | cons i l ih =>
    rw [forall_mem_cons] at h
    rcases Option.isSome_iff_exists.mp h.1 with ⟨item, hitem⟩
    rw [filterMap_cons_some hitem, map_cons, map_cons, ih h.2, hitem]

/-- A `Vec` never has `2 ^ 63` elements: its capacity in bytes is an `isize`. -/
theorem shuffle_sample_lawful {items : Array α} (hsize : items.size < 2 ^ 63) (seed : UInt64)
    (m : Module) :
    (∃ after m', muxRandomShuffle seed items m = some (after, m') ∧
      after.toList.Perm items.toList) ∧
    ∀ count : Int64, 0 ≤ count ∧ count.toInt ≤ items.size →
      ∃ sampled m', muxRandomSample seed items count m = some (.ok sampled, m') ∧
        IsSample items count sampled := by
  constructor
  · rcases swapLoop_perm 1 items.size items m le_rfl hsize with ⟨after, m', hloop, hperm⟩
    exact ⟨after, m', hloop, Array.perm_iff_toList_perm.mp hperm⟩
  intro count hcount
  have hlow : 0 ≤ count.toInt := Int64.le_iff_toInt_le.mp hcount.1
  have hguard : ¬ (count < 0 ∨ (items.size : Int) < count.toInt) := by
    rw [Int64.lt_iff_toInt_lt, Int64.toInt_zero]
    omega
  rcases swapLoop_perm (s := seed) count.toInt.toNat items.size (Array.range items.size) m
    (by simp) (by simpa) with ⟨indexes, m', hloop, hperm⟩
  rw [Array.perm_iff_toList_perm, Array.toList_range] at hperm
  have hsome : ∀ i ∈ indexes.toList.take count.toInt.toNat, (items[i]?).isSome := by
    intro i hi
    have hrange := mem_range.mp (hperm.mem_iff.mp (mem_of_mem_take hi))
    simpa using hrange
  have hmap := map_some_filterMap hsome
  refine ⟨_, m', ?_, ?_, _, (hperm.nodup_iff.mpr nodup_range).sublist (take_sublist _ _), hmap⟩
  · unfold muxRandomSample
    rw [if_neg hguard]
    dsimp only
    rw [hloop]
    rfl
  · have hlength := congrArg List.length hmap
    rw [length_map, length_map, length_take, hperm.length_eq, length_range] at hlength
    omega

/-- Three items are shuffled, and two of them are sampled. -/
theorem shuffle_pair :
    (∃ after m', muxRandomShuffle 7 #[5, 6, 8] ⟨true, 1⟩ = some (after, m') ∧
      after.toList.Perm [5, 6, 8]) ∧
    ∃ sampled m', muxRandomSample 7 #[5, 6, 8] 2 ⟨true, 1⟩ = some (.ok sampled, m') ∧
      IsSample #[5, 6, 8] 2 sampled := by
  have hsize : #[5, 6, 8].size < 2 ^ 63 := by decide
  have h := shuffle_sample_lawful hsize 7 ⟨true, 1⟩
  exact ⟨h.1, h.2 2 (by decide)⟩

end MuxRuntime.Random
