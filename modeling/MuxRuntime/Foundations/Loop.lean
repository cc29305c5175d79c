import Mathlib

/-!
# Loops that may fail

A `while` loop whose body can return an error, run with a bound on the number
of iterations. A loop whose body always makes progress never needs more
iterations than there is work left, so a run is determined by the states that
the body reaches.
-/

namespace Loop

variable {α β : Type}

lemma bind_eq_ok {ε : Type} {x : Except ε α} {f : α → Except ε β} {b : β}
    (h : (x >>= f) = .ok b) : ∃ a, x = .ok a ∧ f a = .ok b := by
  cases x with
  | error e => cases h
  | ok a => exact ⟨a, rfl, h⟩

lemma map_eq_ok {ε : Type} {x : Except ε α} {f : α → β} {b : β} (h : x.map f = .ok b) :
    ∃ a, x = .ok a ∧ f a = b := by
  cases x with
  | error e => cases h
  | ok a => exact ⟨a, rfl, Except.ok.inj h⟩

/-- A loop of checks passes when every check does. -/
lemma forM_eq_ok {ε : Type} {f : α → Except ε Unit} {l : List α} :
    l.forM f = .ok () ↔ ∀ x ∈ l, f x = .ok () := by
  induction l with
  | nil => exact ⟨fun _ => nofun, fun _ => rfl⟩
  | cons x l ih => ?_
  have hcons : (x :: l).forM f = (f x >>= fun _ => l.forM f) := rfl
  rw [hcons, List.forall_mem_cons, ← ih]
  constructor
  · intro h
    rcases bind_eq_ok h with ⟨_, hx, hl⟩
    exact ⟨hx, hl⟩
  · rintro ⟨hx, hl⟩
    rw [hx]
    exact hl

lemma toOption_eq_some_iff {ε : Type} {x : Except ε α} {a : α} :
    x.toOption = some a ↔ x = .ok a := by
  cases x with
  | error e | ok b => simp [Except.toOption]

/-- A first step with one possible answer, given under a condition. -/
lemma bind_eq_ok_iff_of {ε : Type} {x : Except ε α} {f : α → Except ε β} {b : β} {a₀ : α}
    {A : Prop} (hx : ∀ a, x = .ok a ↔ a = a₀ ∧ A) : (x >>= f) = .ok b ↔ A ∧ f a₀ = .ok b := by
  constructor
  · intro h
    obtain ⟨a, ha, hb⟩ := bind_eq_ok h
    obtain ⟨rfl, hA⟩ := (hx a).mp ha
    exact ⟨hA, hb⟩
  · rintro ⟨hA, hb⟩
    rw [(hx a₀).mpr ⟨rfl, hA⟩]
    exact hb

variable {σ ε : Type}

/-- Run the body while the loop is not done, at most `n` times. -/
def run (done : σ → Bool) (body : σ → Except ε σ) : Nat → σ → Except ε σ
  | 0, s => .ok s
  | n + 1, s =>
    if done s then .ok s
    else
      match body s with
      | .ok s' => run done body n s'
      | .error e => .error e

/-- Iterations of the loop lead from one state to another. -/
inductive Reaches (done : σ → Bool) (body : σ → Except ε σ) : σ → σ → Prop
  | refl (s : σ) : Reaches done body s s
  | head {s s' s'' : σ} (hdone : done s = false) (hbody : body s = .ok s')
      (h : Reaches done body s' s'') : Reaches done body s s''

variable {done : σ → Bool} {body : σ → Except ε σ}

variable {s s' : σ}

lemma Reaches.trans {s'' : σ} (h : Reaches done body s s') (h' : Reaches done body s' s'') :
    Reaches done body s s'' := by
  induction h with
  | refl => exact h'
  | head hdone hbody _ ih => exact .head hdone hbody (ih h')

lemma Reaches.single (hdone : done s = false) (hbody : body s = .ok s') : Reaches done body s s' :=
  .head hdone hbody (.refl s')

/-- Every iteration leaves less work. -/
def Progress (work : σ → Nat) (done : σ → Bool) (body : σ → Except ε σ) : Prop :=
  ∀ s s', done s = false → body s = .ok s' → work s' < work s

variable {work : σ → Nat}

variable {n : Nat}

section

variable (hprogress : Progress work done body)

include hprogress

/-- What was reached can be taken as the new start of the run. -/
lemma run_of_reaches (h : Reaches done body s s') (hn : work s ≤ n) :
    ∃ m, work s' + n ≤ work s + m ∧ run done body n s = run done body m s' := by
  induction h generalizing n with
  | refl s => exact ⟨n, le_refl _, rfl⟩
  | head hnot hbody _ ih => ?_
  have hless := hprogress _ _ hnot hbody
  rcases n with _ | n
  · omega
  rcases ih (by omega : _ ≤ n) with ⟨m, hm, hrun⟩
  refine ⟨m, by omega, ?_⟩
  simp only [run, hnot, Bool.false_eq_true, if_false, hbody]
  exact hrun

/-- Reaching a state in which the loop is done determines the result. -/
theorem run_eq_ok (h : Reaches done body s s') (hdone : done s' = true) (hn : work s ≤ n) :
    run done body n s = .ok s' := by
  rcases run_of_reaches hprogress h hn with ⟨m, -, hrun⟩
  rw [hrun]
  cases m with
  | zero => rfl
  | succ m => simp [run, hdone]

/-- With enough iterations a run ends because the loop is done. -/
lemma done_of_run (hzero : ∀ s, work s = 0 → done s = true) (hn : work s ≤ n)
    (hrun : run done body n s = .ok s') : done s' = true := by
  induction n generalizing s with
  | zero =>
    cases hrun
    exact hzero _ (Nat.le_zero.mp hn)
  | succ n ih => ?_
  unfold run at hrun
  split at hrun
  · rename_i hdone
    cases hrun
    exact hdone
  rename_i hdone
  split at hrun
  · rename_i next hbody
    have hless := hprogress s next (Bool.not_eq_true _ ▸ hdone) hbody
    exact ih (by omega) hrun
  · cases hrun

end

/-- What the body preserves holds at the end. -/
theorem run_invariant {P : σ → Prop} (hstep : ∀ s s', body s = .ok s' → P s → P s')
    (hrun : run done body n s = .ok s') (hs : P s) : P s' := by
  induction n generalizing s with
  | zero =>
    cases hrun
    exact hs
  | succ n ih => ?_
  unfold run at hrun
  split at hrun
  · cases hrun
    exact hs
  · split at hrun
    · exact ih hrun (hstep _ _ (by assumption) hs)
    · cases hrun

variable (done body) in
/-- The rule for loops over an index: iterations keep the invariant and advance, or fail
with an error of the given kind. -/
theorem run_scan {P : σ → Prop} {Q : ε → Prop} {index : σ → Nat} {length : Nat}
    (hdone : ∀ s, done s = decide (length ≤ index s)) (hstep : ∀ s, P s → done s = false →
      (∃ s', body s = .ok s' ∧ P s' ∧ index s < index s') ∨ ∃ e, body s = .error e ∧ Q e)
    (hs : P s) (hn : length ≤ index s + n) :
    (∃ s', run done body n s = .ok s' ∧ P s' ∧ length ≤ index s') ∨
      ∃ e, run done body n s = .error e ∧ Q e := by
  induction n generalizing s with
  | zero => exact .inl ⟨s, rfl, hs, hn⟩
  | succ n ih => ?_
  by_cases hend : length ≤ index s
  · exact .inl ⟨s, by simp [run, hdone, hend], hs, hend⟩
  have hnot : done s = false := by simp [hdone, hend]
  rcases hstep s hs hnot with ⟨next, hbody, hnext, hless⟩ | ⟨e, hbody, he⟩
  · have hrun : run done body (n + 1) s = run done body n next := by simp [run, hnot, hbody]
    rw [hrun]
    exact ih hnext (by omega)
  · exact .inr ⟨e, by simp [run, hnot, hbody], he⟩

end Loop
