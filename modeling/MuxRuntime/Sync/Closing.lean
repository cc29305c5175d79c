import MuxRuntime.Sync.Ledger

/-!
# Closing a pool

A close call sets the flag without the lock. When it also cancels the pending tasks it
then goes through a section of the queue: every thread that has seen the flag unset has
parked by then, and is notified. A close call that leaves the pending tasks alone does
neither.
-/

namespace MuxRuntime.Sync

open Interleaving

variable {pool : Pool}

/-! ## What may go wrong -/

/-- The close call has notified the workers. -/
def CloserPhase.hasNotified : CloserPhase → Bool
  | .notified _ | .joining _ _ | .returned _ => true
  | _ => false

/-- A worker is parked with nothing to do, behind the notification of a close call. -/
def LostWake (c : Config (poolProgram pool)) : Prop :=
  c.shared.closed = true ∧ c.shared.queue = [] ∧ (∃ k, (closerPhase c k).hasNotified = true) ∧
    ∃ w, workerPhase c w = .waiting ∧ w ∈ c.shared.wake

/-- A submitter without a timeout is parked although the pool is closed for good. -/
def Stranded (c : Config (poolProgram pool)) : Prop :=
  (∃ k cancelled, closerPhase c k = .returned cancelled) ∧
    (∀ w < pool.workers, w ∈ c.shared.exited) ∧
    ∃ x timedOut, submitterPhase c x = .waiting none timedOut ∧ x ∈ c.shared.space

/-- Close calls of the run are made with these values of `cancel_pending` only. -/
def ClosesWith (P : Bool → Prop) (e : PoolEvent pool) : Prop :=
  ∀ k cancelPending, e = .close k cancelPending → P cancelPending

/-! ## Close calls that cancel -/

variable {p : SubmitterPhase} {k : Nat}

/-- Nobody may park once the queue was drained behind the flag. -/
lemma PoolPhase.Swept.not_mayPark {t : PoolThread} {q : PoolPhase t} {s : PoolState}
    (hq : PoolPhase.Swept t q s) (hswept : s.swept = true) : ¬ PoolPhase.mayPark t q := by
  intro hpark
  cases t with
  | worker w | submitter x => simp [hq hpark] at hswept
  | closer k | canceller k => exact hpark

/-- What a closing thread knows is not disturbed by others. -/
lemma SweepStep.closer {t : PoolThread} {q : PoolPhase t} {s s' : PoolState}
    (h : SweepStep t q s s') (hq : PoolPhase.Swept t q s) {p : CloserPhase} (hp : p.Swept s) :
    p.Swept s' := by
  have hspace : s.swept = true → s.space = [] → s'.space = [] := by
    intro hswept hnil
    exact List.subset_nil.mp (hnil ▸ h.space.resolve_right (hq.not_mayPark hswept))
  have hwake : s.swept = true → s.wake = [] → s'.wake = [] := by
    intro hswept hnil
    exact List.subset_nil.mp (hnil ▸ h.wake.resolve_right (fun hpark => hq.not_mayPark hswept hpark.1))
  cases p with
  | idle => trivial
  | called cancelPending => exact hp
  | draining phase =>
    cases phase with
    | outside | inside => exact h.closed hp
    | drained tasks => exact ⟨h.closed hp.1, h.swept hp.2⟩
    | told tasks | releasing tasks | finished count =>
      exact ⟨h.closed hp.1, h.swept hp.2.1, hspace hp.2.1 hp.2.2⟩
  | notifying cancelled => exact ⟨h.swept hp.1, hspace hp.1 hp.2⟩
  | notified cancelled | joining workers cancelled | returned cancelled =>
    exact ⟨h.swept hp.1, hspace hp.1 hp.2.1, hwake hp.1 hp.2.2⟩

lemma SubmitterPhase.holdsLock_of_mayPark (h : p.mayPark = true) : p.holdsLock = true := by
  cases p <;> first | rfl | cases h

/-- The queue is not drained while another thread holds the lock. -/
lemma SweepStep.unswept {t u : PoolThread} {q : PoolPhase t} {s s' : PoolState}
    (h : SweepStep t q s s') (hne : u ≠ t)
    (hheld : s.holder = some u) (hswept : s.swept = false) : s'.swept = false := by
  rcases h.locked with heq | ht
  · exact heq.trans hswept
  · rw [ht] at hheld
    exact absurd (Option.some.inj hheld).symm hne

lemma SweepStep.other {t u : PoolThread} {p : PoolPhase t} {s s' : PoolState}
    (h : SweepStep t p s s') (hp : PoolPhase.Swept t p s) (hne : u ≠ t) {q : PoolPhase u}
    (hlock : PoolPhase.holdsLock u q = true → s.holder = some u)
    (hq : PoolPhase.Swept u q s) : PoolPhase.Swept u q s' := by
  cases u with
  | worker w =>
    intro hopen
    refine h.unswept hne (hlock ?_) (hq hopen)
    rw [hopen]
    rfl
  | submitter x =>
    intro hpark
    exact h.unswept hne (hlock (SubmitterPhase.holdsLock_of_mayPark hpark)) (hq hpark)
  | closer k => exact h.closer hp hq
  | canceller k => trivial

section Own

variable {s : PoolState}

section

variable (hs : s.swept = true → s.closed = true)

include hs

/-- The flag that is not set was never swept behind. -/
lemma unswept_of_open (hopen : ¬ s.closed = true) : s.swept = false := by
  by_contra hswept
  exact hopen (hs (Bool.eq_true_of_not_eq_false hswept))

lemma poolWorker_swept {w : Nat} {input : WorkerInput} {p : WorkerPhase}
    (hp : p = .sawOpen → s.swept = false) :
    (poolWorker w input s p).2 = .sawOpen → (poolWorker w input s p).1.swept = false := by
  cases input with
  | spurious =>
    cases p with
    | sawOpen => exact fun _ => hp rfl
    | _ => rintro ⟨⟩
  | go pick => ?_
  cases p with
  | sawEmpty =>
    unfold poolWorker
    dsimp only
    split
    · rintro ⟨⟩
    · next hopen => exact fun _ => unswept_of_open hs hopen
  | outside =>
    unfold poolWorker PoolState.acquire
    dsimp only
    split <;> rintro ⟨⟩
  | inside =>
    unfold poolWorker
    dsimp only
    split <;> rintro ⟨⟩
  | waiting =>
    unfold poolWorker PoolState.acquire
    dsimp only
    split
    · rintro ⟨⟩
    · split <;> rintro ⟨⟩
  | _ => rintro ⟨⟩

lemma poolEnqueue_swept {x : Nat} {input : SubmitterInput}
    (hp : p.mayPark = true → s.swept = false) :
    (poolEnqueue pool x input s p).2.mayPark = true →
      (poolEnqueue pool x input s p).1.swept = false := by
  unfold poolEnqueue PoolState.acquire
  split
  · split <;> rintro ⟨⟩
  · split <;> rintro ⟨⟩
  · split
    · rintro ⟨⟩
    · next hopen => exact fun _ => unswept_of_open hs hopen
  · split
    · rintro ⟨⟩
    · exact fun _ => hp rfl
  · split <;> rintro ⟨⟩
  · split
    · rintro ⟨⟩
    · split <;> rintro ⟨⟩
  · rintro ⟨⟩
  · split <;> rintro ⟨⟩
  · split <;> rintro ⟨⟩
  · rintro ⟨⟩
  · rintro ⟨⟩
  · exact hp

end

lemma drainPending_swept {t : PoolThread} {p : DrainPhase} (hp : p.Swept s) :
    (drainPending t s p).2.Swept (drainPending t s p).1 := by
  cases p with
  | outside =>
    unfold drainPending PoolState.acquire
    dsimp only
    split <;> exact hp
  | inside =>
    refine ⟨hp, ?_⟩
    have hclosed : s.closed = true := hp
    simp [drainPending, hclosed]
  | drained tasks => exact ⟨hp.1, hp.2, rfl⟩
  | told tasks | releasing tasks | finished count => exact hp

lemma closePool_swept {input : CloserInput} {p : CloserPhase}
    (hcancels : ∀ cancelPending, input = .close cancelPending → cancelPending = true)
    (hp : p.Swept s) : (closePool k input s p).2.Swept (closePool k input s p).1 := by
  unfold closePool
  split
  · next cancelPending => exact hcancels cancelPending rfl
  · next cancelPending =>
      have hcancel : cancelPending = true := hp
      rw [hcancel]
      rfl
  · exact ⟨hp.2.1, hp.2.2⟩
  · exact drainPending_swept hp
  · exact ⟨hp.1, hp.2, rfl⟩
  · exact hp
  · exact hp
  · split <;> exact hp
  · exact hp

lemma poolMove_swept {t : PoolThread} {input : PoolInput t} {p : PoolPhase t}
    (hcancels : ClosesWith (· = true) (⟨t, input⟩ : PoolEvent pool))
    (hs : s.swept = true → s.closed = true) (hp : PoolPhase.Swept t p s) :
    PoolPhase.Swept t (poolMove pool t input s p).2 (poolMove pool t input s p).1 := by
  cases t with
  | worker w =>
    rw [poolMove_worker]
    split
    · exact poolWorker_swept hs hp
    · exact hp
  | submitter x => exact poolEnqueue_swept hs hp
  | closer k =>
    apply closePool_swept _ hp
    rintro cancelPending rfl
    exact hcancels k cancelPending rfl
  | canceller k => trivial

end Own

/-- Close calls that cancel go through the queue before they notify. -/
def sweepOutline (pool : Pool) : Outline (poolProgram pool) where
  shared := fun s => s.swept = true → s.closed = true
  here := PoolPhase.Swept

/-- After a draining close call nobody parks any more. -/
theorem sweepOutline_valid (pool : Pool) :
    Outline.Valid (ClosesWith (· = true)) (lockOutline pool) (sweepOutline pool) where
  own := by
    intro t i s p hcancels _ hlock hs hp
    exact ⟨(poolMove_steps hlock).sweeps.behind hs, poolMove_swept hcancels hs hp⟩
  other := by
    intro t u i s p q _ hne _ hlock hlock' _ hp hq
    exact (poolMove_steps hlock).sweeps.other hp hne hlock' hq

lemma start_swept (pool : Pool) : (sweepOutline pool).Holds pool.start := by
  refine ⟨by rintro ⟨⟩, fun t => ?_⟩
  cases t with
  | worker w | submitter x => rintro ⟨⟩
  | closer k | canceller k => trivial

variable {events : List (PoolEvent pool)}

section

variable (hcancels : ∀ e ∈ events, ClosesWith (· = true) e)

include hcancels

lemma pool_swept : (sweepOutline pool).Holds (pool.run events) := by
  have hvalid : Outline.Valid (ClosesWith (· = true)) .top
      ((lockOutline pool).and (sweepOutline pool)) :=
    (lockOutline_valid pool _).and (sweepOutline_valid pool)
  exact (Outline.and_holds.mp
    (hvalid.run (Outline.and_holds.mpr ⟨start_locks pool, start_swept pool⟩) hcancels)).2

lemma not_lostWake_of_cancels : ¬ LostWake (pool.run events) := by
  rintro ⟨-, -, ⟨k, hnotified⟩, w, -, hw⟩
  have hswept : (closerPhase (pool.run events) k).Swept (pool.run events).shared :=
    (pool_swept hcancels).2 (.closer k)
  have hwake : (pool.run events).shared.wake = [] := by
    revert hnotified hswept
    cases closerPhase (pool.run events) k with
    | notified cancelled | joining workers cancelled | returned cancelled => exact fun _ h => h.2.2
    | _ => rintro ⟨⟩
  rw [hwake] at hw
  cases hw

lemma not_stranded_of_cancels : ¬ Stranded (pool.run events) := by
  rintro ⟨⟨k, cancelled, hreturned⟩, -, x, timedOut, -, hx⟩
  have hswept : (closerPhase (pool.run events) k).Swept (pool.run events).shared :=
    (pool_swept hcancels).2 (.closer k)
  rw [hreturned] at hswept
  have hspace : (pool.run events).shared.space = [] := hswept.2.1
  rw [hspace] at hx
  cases hx

end

end MuxRuntime.Sync
