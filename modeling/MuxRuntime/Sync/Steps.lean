import MuxRuntime.Sync.Pool

/-!
# The steps of a pool

`MoveStep` says for one step what it does to the lock, to the tasks and to those who wait, and is
shown for every step of every thread. What a step does to the tasks is put in terms of a ledger:
seen from outside a pool is a bounded queue that can be closed, where tasks are accepted and leave
the queue in their order, to a worker or because they are cancelled.
-/

namespace MuxRuntime.Sync

open Interleaving

/-! ## The lock -/

def WorkerPhase.holdsLock : WorkerPhase → Bool
  | .inside | .sawEmpty | .sawOpen | .sawClosed | .took _ | .told _ => true
  | .outside | .waiting | .running _ | .exited => false

def SubmitterPhase.holdsLock : SubmitterPhase → Bool
  | .inside _ | .sawOpen _ | .sawFull _ | .resumed _ _ | .pushed | .leaving _ => true
  | .idle | .outside _ | .waiting _ _ | .returned _ => false

def DrainPhase.holdsLock : DrainPhase → Bool
  | .inside | .drained _ | .told _ => true
  | .outside | .releasing _ | .finished _ => false

def CloserPhase.holdsLock : CloserPhase → Bool
  | .draining phase => phase.holdsLock
  | _ => false

def CancellerPhase.holdsLock : CancellerPhase → Bool
  | .draining phase => phase.holdsLock
  | .idle => false

/-- The thread is in a section of the queue. -/
def PoolPhase.holdsLock : (t : PoolThread) → PoolPhase t → Bool
  | .worker _, p => WorkerPhase.holdsLock p
  | .submitter _, p => SubmitterPhase.holdsLock p
  | .closer _, p => CloserPhase.holdsLock p
  | .canceller _, p => CancellerPhase.holdsLock p

/-- What a thread may do to the lock. -/
inductive LockStep (t : PoolThread) : Option PoolThread → Option PoolThread → Prop where
  | same (holder : Option PoolThread) : LockStep t holder holder
  | acquire : LockStep t none (some t)
  | release : LockStep t (some t) none

variable {u : PoolThread}

/-- A thread that holds the lock keeps it when another one moves. -/
lemma LockStep.keeps {t : PoolThread} {holder holder' : Option PoolThread}
    (h : LockStep t holder holder') (hu : u ≠ t) (hholder : holder = some u) :
    holder' = some u := by
  cases h with
  | same => exact hholder
  | acquire => cases hholder
  | release => exact absurd (Option.some.inj hholder).symm hu

/-- A step uses the lock as it may, and the thread has it in its sections. -/
structure Locks (t : PoolThread) (s s' : PoolState) (inside : Bool) : Prop where
  step : LockStep t s.holder s'.holder
  held : inside = true → s'.holder = some t

variable {π : Type} {t : PoolThread} {s : PoolState}

lemma Locks.acquire {blocked entered : π} {inside : π → Bool}
    (hblocked : inside blocked = false) :
    Locks t s (s.acquire t blocked entered).1 (inside (s.acquire t blocked entered).2) := by
  unfold PoolState.acquire
  split
  · next hfree =>
      refine ⟨?_, fun _ => rfl⟩
      rw [hfree]
      exact .acquire
  · refine ⟨.same _, fun h => ?_⟩
    rw [hblocked] at h
    cases h

/-- Nothing happens to the lock. -/
lemma Locks.same {s' : PoolState} {inside : Bool} (hholder : s'.holder = s.holder)
    (hheld : inside = true → s.holder = some t) : Locks t s s' inside := by
  refine ⟨?_, fun h => hholder.trans (hheld h)⟩
  rw [hholder]
  exact .same _

lemma Locks.release {s' : PoolState} (hheld : s.holder = some t) (hfree : s'.holder = none) :
    Locks t s s' false := by
  refine ⟨?_, fun h => by cases h⟩
  rw [hheld, hfree]
  exact .release

/-! ## Ledgers -/

/-- What a pool is for: which tasks it has accepted and what became of them. -/
structure Ledger where
  queue : List Nat
  holder : Option PoolThread
  closed : Bool
  exited : List Nat
  accepted : List Nat
  departed : List (Nat × Departure)
  executed : List Nat
  sealed : Bool

def PoolState.ledger (s : PoolState) : Ledger where
  queue := s.queue
  holder := s.holder
  closed := s.closed
  exited := s.exited
  accepted := s.accepted
  departed := s.departed
  executed := s.executed
  sealed := s.sealed

/-- What the step of a thread may do to the ledger, and when. -/
inductive LedgerStep (pool : Pool) : PoolThread → Ledger → Ledger → Prop where
  | quiet {t l} : LedgerStep pool t l l
  | acquire {t l} (hfree : l.holder = none) : LedgerStep pool t l { l with holder := some t }
  | release {t l} (hheld : l.holder = some t) : LedgerStep pool t l { l with holder := none }
  | close {t l} : LedgerStep pool t l { l with closed := true }
  | push {x l} (hheld : l.holder = some (.submitter x)) (hopen : l.sealed = false)
      (hspace : l.queue.length < pool.queueCapacity) (hnew : x ∉ l.accepted) :
      LedgerStep pool (.submitter x) l
        { l with queue := l.queue ++ [x], accepted := l.accepted ++ [x] }
  | take {w task rest l} (hheld : l.holder = some (.worker w)) (hw : w < pool.workers)
      (hqueue : l.queue = task :: rest) :
      LedgerStep pool (.worker w) l
        { l with queue := rest, departed := l.departed ++ [(task, .taken w)] }
  | drain {t l} (hheld : l.holder = some t) : LedgerStep pool t l
        { l with
          queue := []
          departed := l.departed ++ l.queue.map fun task => (task, .cancelled) }
  | execute {w task l} (htaken : (task, .taken w) ∈ l.departed) (hnew : task ∉ l.executed) :
      LedgerStep pool (.worker w) l { l with executed := l.executed ++ [task] }
  | shut {w l} (hheld : l.holder = some (.worker w)) (hclosed : l.closed = true)
      (hempty : l.queue = []) : LedgerStep pool (.worker w) l { l with sealed := true }
  | exit {w l} (hheld : l.holder = some (.worker w)) (hsealed : l.sealed = true) :
      LedgerStep pool (.worker w) l { l with holder := none, exited := w :: l.exited }

/-! ## What threads know -/

/-- The task that a worker has in its hands. -/
def WorkerPhase.task? : WorkerPhase → Option Nat
  | .took task | .told task | .running task => some task
  | _ => none

def WorkerPhase.foundNothing : WorkerPhase → Bool
  | .sawEmpty | .sawOpen => true
  | _ => false

structure WorkerAt (w : Nat) (p : WorkerPhase) (l : Ledger) : Prop where
  empty : p.foundNothing = true → l.queue = []
  sealed : p = .sawClosed → l.sealed = true
  holds : ∀ task, p.task? = some task → (task, .taken w) ∈ l.departed ∧ task ∉ l.executed
  ran : ∀ task, (task, .taken w) ∈ l.departed → task ∈ l.executed ∨ p.task? = some task
  ended : w ∈ l.exited → p = .exited

def SubmitterPhase.foundOpen : SubmitterPhase → Bool
  | .sawOpen _ => true
  | _ => false

/-- The submission put its task into the queue. -/
def SubmitterPhase.accepted : SubmitterPhase → Bool
  | .pushed | .leaving (.ok true) | .returned (.ok true) => true
  | _ => false

structure SubmitterAt (x : Nat) (p : SubmitterPhase) (l : Ledger) : Prop where
  unsealed : p.foundOpen = true → l.sealed = false
  accepted : x ∈ l.accepted ↔ p.accepted = true

/-- What a thread knows of the ledger. -/
def PoolPhase.At : (t : PoolThread) → PoolPhase t → Ledger → Prop
  | .worker w, p, l => WorkerAt w p l
  | .submitter x, p, l => SubmitterAt x p l
  | .closer _, _, _ => True
  | .canceller _, _, _ => True

/-! ## Those who wait -/

/-- What a close call that cancels knows while it drains the queue. -/
def DrainPhase.Swept (p : DrainPhase) (s : PoolState) : Prop :=
  match p with
  | .outside | .inside => s.closed = true
  | .drained _ => s.closed = true ∧ s.swept = true
  | .told _ | .releasing _ | .finished _ => s.closed = true ∧ s.swept = true ∧ s.space = []

def CloserPhase.Swept (p : CloserPhase) (s : PoolState) : Prop :=
  match p with
  | .idle => True
  | .called cancelPending => cancelPending = true
  | .draining phase => phase.Swept s
  | .notifying _ => s.swept = true ∧ s.space = []
  | .notified _ | .joining _ _ | .returned _ => s.swept = true ∧ s.space = [] ∧ s.wake = []

def SubmitterPhase.mayPark : SubmitterPhase → Bool
  | .sawOpen _ | .sawFull _ => true
  | _ => false

/-- The thread has seen the flag unset and may park. -/
def PoolPhase.mayPark : (t : PoolThread) → PoolPhase t → Prop
  | .worker _, p => p = WorkerPhase.sawOpen
  | .submitter _, p => SubmitterPhase.mayPark p = true
  | .closer _, _ | .canceller _, _ => False

def PoolPhase.Swept : (t : PoolThread) → PoolPhase t → PoolState → Prop
  | .worker _, p, s => p = WorkerPhase.sawOpen → s.swept = false
  | .submitter _, p, s => SubmitterPhase.mayPark p = true → s.swept = false
  | .closer _, p, s => CloserPhase.Swept p s
  | .canceller _, _, _ => True

/-- What a step does to those who wait: nobody parks but a thread that may. -/
structure SweepStep (t : PoolThread) (p : PoolPhase t) (s s' : PoolState) : Prop where
  closed : s.closed = true → s'.closed = true
  swept : s.swept = true → s'.swept = true
  locked : s'.swept = s.swept ∨ s.holder = some t
  behind : (s.swept = true → s.closed = true) → s'.swept = true → s'.closed = true
  wake : s'.wake ⊆ s.wake ∨ PoolPhase.mayPark t p ∧ ∃ w, t = .worker w
  space : s'.space ⊆ s.space ∨ PoolPhase.mayPark t p

namespace SweepStep

variable {s' : PoolState} {p : PoolPhase t}

lemma fewer (hclosed : s.closed = true → s'.closed = true) (hswept : s'.swept = s.swept)
    (hwake : s'.wake ⊆ s.wake ∨ PoolPhase.mayPark t p ∧ ∃ w, t = .worker w)
    (hspace : s'.space ⊆ s.space ∨ PoolPhase.mayPark t p) : SweepStep t p s s' where
  closed := hclosed
  swept := fun h => hswept.trans h
  locked := .inl hswept
  behind := fun hs h => hclosed (hs (hswept.symm.trans h))
  wake := hwake
  space := hspace

lemma quiet (hclosed : s'.closed = s.closed) (hswept : s'.swept = s.swept)
    (hwake : s'.wake = s.wake) (hspace : s'.space = s.space) : SweepStep t p s s' := by
  apply fewer _ hswept
  · exact .inl (by rw [hwake]; exact List.Subset.refl _)
  · exact .inl (by rw [hspace]; exact List.Subset.refl _)
  · rw [hclosed]
    exact id

lemma acquire {blocked entered : π} : SweepStep t p s (s.acquire t blocked entered).1 := by
  unfold PoolState.acquire
  split <;> exact .quiet rfl rfl rfl rfl

end SweepStep

/-! ## Moves -/

/-- What a step from a point may do, with the thread in a section of the queue afterwards
or not. -/
structure MoveStep (pool : Pool) (t : PoolThread) (p : PoolPhase t) (s s' : PoolState)
    (inside : Bool) : Prop where
  locks : Locks t s s' inside
  ledger : PoolPhase.At t p s.ledger → LedgerStep pool t s.ledger s'.ledger
  sweeps : SweepStep t p s s'

variable {pool : Pool} {w x k : Nat}

namespace MoveStep

variable {p : PoolPhase t} {inside : Bool}

lemma quiet (h : inside = true → s.holder = some t) : MoveStep pool t p s s inside :=
  ⟨.same rfl h, fun _ => .quiet, .quiet rfl rfl rfl rfl⟩

lemma acquire {blocked entered : π} {inside : π → Bool} (hblocked : inside blocked = false) :
    MoveStep pool t p s (s.acquire t blocked entered).1 (inside (s.acquire t blocked entered).2) := by
  refine ⟨.acquire hblocked, fun _ => ?_, .acquire⟩
  unfold PoolState.acquire
  split
  · next hfree => exact .acquire hfree
  · exact .quiet

lemma release (h : s.holder = some t) : MoveStep pool t p s { s with holder := none } false :=
  ⟨.release h rfl, fun _ => .release h, .quiet rfl rfl rfl rfl⟩

/-- Some of those who wait are notified. -/
lemma notify {wake space : List Nat} (h : inside = true → s.holder = some t)
    (hwake : wake ⊆ s.wake) (hspace : space ⊆ s.space) :
    MoveStep pool t p s { s with wake := wake, space := space } inside :=
  ⟨.same rfl h, fun _ => .quiet, .fewer id rfl (.inl hwake) (.inl hspace)⟩

end MoveStep

lemma poolWorker_steps {input : WorkerInput} {p : WorkerPhase} (hw : w < pool.workers)
    (h : p.holdsLock = true → s.holder = some (.worker w)) :
    MoveStep pool (.worker w) p s (poolWorker w input s p).1
      (poolWorker w input s p).2.holdsLock := by
  cases input with
  | spurious =>
    cases p with
    | waiting => exact .notify h rouse_subset (List.Subset.refl _)
    | _ => exact .quiet h
  | go pick => ?_
  cases p with
  | outside => exact .acquire rfl
  | inside =>
    unfold poolWorker
    dsimp only
    split
    · exact .quiet h
    · next hqueue => exact ⟨.same rfl h, fun _ => .take (h rfl) hw hqueue, .quiet rfl rfl rfl rfl⟩
  | sawEmpty =>
    unfold poolWorker
    dsimp only
    split
    · next hclosed =>
        exact ⟨.same rfl h, fun hp => .shut (h rfl) hclosed (hp.empty rfl), .quiet rfl rfl rfl rfl⟩
    · exact .quiet h
  | waiting =>
    unfold poolWorker
    dsimp only
    split
    · exact .quiet h
    · exact .acquire rfl
  | sawOpen =>
    exact ⟨.release (h rfl) rfl, fun _ => .release (h rfl),
      .fewer id rfl (.inr ⟨rfl, w, rfl⟩) (.inl (List.Subset.refl _))⟩
  | sawClosed =>
    exact ⟨.release (h rfl) rfl, fun hp => .exit (h rfl) (hp.sealed rfl), .quiet rfl rfl rfl rfl⟩
  | told task => exact .release (h rfl)
  | took task => exact .notify h (List.Subset.refl _) notifyOne_subset
  | running task =>
    exact ⟨.same rfl h, fun hp => .execute (hp.holds task rfl).1 (hp.holds task rfl).2,
      .quiet rfl rfl rfl rfl⟩
  | exited => exact .quiet h

lemma poolEnqueue_steps {input : SubmitterInput} {p : SubmitterPhase}
    (h : p.holdsLock = true → s.holder = some (.submitter x)) :
    MoveStep pool (.submitter x) p s (poolEnqueue pool x input s p).1
      (poolEnqueue pool x input s p).2.holdsLock := by
  unfold poolEnqueue
  split
  · split <;> exact .quiet h
  · exact .acquire rfl
  · split <;> exact .quiet h
  · split
    · next hspace =>
        refine ⟨.same rfl h, fun hp => .push (h rfl) (hp.unsealed rfl) hspace fun hin => ?_,
          .quiet rfl rfl rfl rfl⟩
        cases hp.accepted.mp hin
    · exact .quiet h
  · split
    · exact .quiet h
    · exact ⟨.release (h rfl) rfl, fun _ => .release (h rfl),
        .fewer id rfl (.inl (List.Subset.refl _)) (.inr rfl)⟩
  · split
    · exact .quiet h
    · exact .acquire rfl
  · exact .notify h (List.Subset.refl _) rouse_subset
  · split
    · exact .notify h (List.Subset.refl _) rouse_subset
    · exact .quiet h
  · split <;> exact .quiet h
  · exact .notify h notifyOne_subset (List.Subset.refl _)
  · exact .release (h rfl)
  · exact .quiet h

/-- A drain, by a thread that is not asked for more than the lock. -/
lemma drainPending_steps {q : PoolPhase t} {p : DrainPhase}
    (h : p.holdsLock = true → s.holder = some t) :
    MoveStep pool t q s (drainPending t s p).1 (drainPending t s p).2.holdsLock := by
  cases p with
  | outside => exact .acquire rfl
  | inside =>
    refine ⟨.same rfl h, fun _ => .drain (h rfl), ⟨id, fun hswept => ?_, .inr (h rfl),
      fun hs hswept => ?_, .inl (List.Subset.refl _), .inl (List.Subset.refl _)⟩⟩
    · simp [drainPending, hswept]
    · rcases Bool.or_eq_true _ _ |>.mp hswept with hswept | hclosed
      · exact hs hswept
      · exact hclosed
  | drained tasks => exact .notify h (List.Subset.refl _) (List.nil_subset _)
  | told tasks => exact .release (h rfl)
  | releasing tasks | finished count => exact .quiet h

lemma closePool_steps {input : CloserInput} {p : CloserPhase}
    (h : p.holdsLock = true → s.holder = some (.closer k)) :
    MoveStep pool (.closer k) p s (closePool k input s p).1
      (closePool k input s p).2.holdsLock := by
  unfold closePool
  split
  · exact .quiet h
  · refine ⟨.same rfl fun hinside => ?_, fun _ => .close,
      .fewer (fun _ => rfl) rfl (.inl (List.Subset.refl _)) (.inl (List.Subset.refl _))⟩
    split at hinside <;> cases hinside
  · exact .quiet h
  · exact drainPending_steps h
  · exact .notify h (List.nil_subset _) (List.Subset.refl _)
  · exact ⟨.same rfl h, fun _ => .quiet, .quiet rfl rfl rfl rfl⟩
  · exact .quiet h
  · split <;> exact .quiet h
  · exact .quiet h

lemma muxPoolCancelPending_steps {input : CancellerInput} {p : CancellerPhase}
    (h : p.holdsLock = true → s.holder = some (.canceller k)) :
    MoveStep pool (.canceller k) p s (muxPoolCancelPending k input s p).1
      (muxPoolCancelPending k input s p).2.holdsLock := by
  unfold muxPoolCancelPending
  split
  · exact .quiet h
  · exact drainPending_steps h
  · exact .quiet h

/-- Every step of every thread. -/
theorem poolMove_steps {input : PoolInput t} {p : PoolPhase t}
    (h : PoolPhase.holdsLock t p = true → s.holder = some t) :
    MoveStep pool t p s (poolMove pool t input s p).1
      (PoolPhase.holdsLock t (poolMove pool t input s p).2) := by
  cases t with
  | worker w =>
    rw [poolMove_worker]
    split
    · next hw => exact poolWorker_steps hw h
    · exact .quiet h
  | submitter x => exact poolEnqueue_steps h
  | closer k => exact closePool_steps h
  | canceller k => exact muxPoolCancelPending_steps h

end MuxRuntime.Sync
