import MuxRuntime.Foundations.Interleaving

/-!
# Worker pools

A pool has worker threads and a bounded queue behind a lock. Workers wait on one
condition for tasks, submitters on another one for space. The flag that closes the pool
is not protected by the lock. A step is an access to what the threads share: a section
of the queue under the lock, a load or store of the flag, a wait, which releases the
lock and parks in one go, or a notification.

The pools of `sync_primitives.rs` and `process.rs` take the same steps.
-/

namespace MuxRuntime.Sync

open Interleaving

/-! ## Pools -/

/-- The two pools. -/
inductive PoolKind where
  | worker
  | process
deriving DecidableEq, Repr

namespace PoolKind

/-- The name of the operation in errors. -/
def operation : PoolKind → String
  | worker => "pool"
  | process => "ProcessPool"

end PoolKind

def maxPoolWorkers : Nat := 256

def maxPoolQueueCapacity : Nat := 65536

def maxSyncTimeoutMs : Int := 2 ^ 32 - 1

/-- A pool that was created. -/
structure Pool where
  kind : PoolKind
  workers : Nat
  queueCapacity : Nat
  workers_range : 1 ≤ workers ∧ workers ≤ maxPoolWorkers
  queueCapacity_range : 1 ≤ queueCapacity ∧ queueCapacity ≤ maxPoolQueueCapacity

/-! ## What threads share -/

/-- The threads of a pool, and calls of its operations. A submission is known by the
number of its task. -/
inductive PoolThread where
  | worker (w : Nat)
  | submitter (x : Nat)
  | closer (k : Nat)
  | canceller (k : Nat)
deriving DecidableEq, Repr

/-- How a task left the queue. -/
inductive Departure where
  | taken (w : Nat)
  | cancelled
deriving DecidableEq, Repr

/-- What the threads share. -/
structure PoolState where
  queue : List Nat
  holder : Option PoolThread
  closed : Bool
  wake : List Nat
  space : List Nat
  handles : List Nat
  /-- The worker threads that have ended. -/
  exited : List Nat
  /-- History: tasks in the order in which they were accepted. -/
  accepted : List Nat
  /-- History: tasks in the order in which they left the queue. -/
  departed : List (Nat × Departure)
  /-- History: tasks that were run. -/
  executed : List Nat
  /-- History: a worker has seen the flag set, with nothing in the queue. -/
  sealed : Bool
  /-- History: the queue was drained after the flag was set. -/
  swept : Bool
deriving DecidableEq, Repr

/-! ## Workers -/

inductive WorkerPhase where
  /-- Before it locks the queue. -/
  | outside
  /-- Before it looks at the queue. -/
  | inside
  /-- The queue was empty: before it loads the flag. -/
  | sawEmpty
  /-- The flag was not set: before it waits. -/
  | sawOpen
  /-- The flag was set: before it returns. -/
  | sawClosed
  | waiting
  /-- Before it notifies a submitter. -/
  | took (task : Nat)
  /-- Before it unlocks the queue. -/
  | told (task : Nat)
  | running (task : Nat)
  | exited
deriving DecidableEq, Repr

inductive WorkerInput where
  /-- The next step; `pick` chooses whom it notifies. -/
  | go (pick : Nat)
  /-- Waiting ends without notification. -/
  | spurious
deriving DecidableEq, Repr

/-- Lock the queue when it is free. -/
def PoolState.acquire {π : Type} (s : PoolState) (t : PoolThread) (blocked entered : π) :
    PoolState × π :=
  if s.holder = none then ({ s with holder := some t }, entered) else (s, blocked)

def poolWorker (w : Nat) (input : WorkerInput) (s : PoolState) (p : WorkerPhase) :
    PoolState × WorkerPhase :=
  match input, p with
  | .go _, .outside => s.acquire (.worker w) .outside .inside
  | .go _, .inside =>
    match s.queue with
    | [] => (s, .sawEmpty)
    | task :: rest =>
      ({ s with queue := rest, departed := s.departed ++ [(task, .taken w)] }, .took task)
  | .go _, .sawEmpty => if s.closed then ({ s with sealed := true }, .sawClosed) else (s, .sawOpen)
  | .go _, .sawOpen => ({ s with holder := none, wake := s.wake ++ [w] }, .waiting)
  | .go _, .waiting => if w ∈ s.wake then (s, .waiting) else s.acquire (.worker w) .waiting .inside
  | .spurious, .waiting => ({ s with wake := rouse s.wake w }, .waiting)
  | .go pick, .took task => ({ s with space := notifyOne s.space pick }, .told task)
  | .go _, .told task => ({ s with holder := none }, .running task)
  | .go _, .running task => ({ s with executed := s.executed ++ [task] }, .outside)
  | .go _, .sawClosed => ({ s with holder := none, exited := w :: s.exited }, .exited)
  | _, p => (s, p)

/-! ## Submitters -/

abbrev EnqueueResult := Except String Bool

inductive SubmitterPhase where
  | idle
  /-- Before it locks the queue. -/
  | outside (timeoutMs : Option Int)
  /-- Before it loads the flag. -/
  | inside (timeoutMs : Option Int)
  /-- The flag was not set: before it looks at the queue. -/
  | sawOpen (timeoutMs : Option Int)
  /-- The queue was full: before it waits or gives up. -/
  | sawFull (timeoutMs : Option Int)
  | waiting (timeoutMs : Option Int) (timedOut : Bool)
  /-- Waiting has ended and the queue is locked again. -/
  | resumed (timeoutMs : Option Int) (timedOut : Bool)
  /-- Before it notifies a worker. -/
  | pushed
  /-- Before it unlocks the queue. -/
  | leaving (result : EnqueueResult)
  | returned (result : EnqueueResult)

inductive SubmitterInput where
  /-- The call; `deadline` says whether the clock can express the deadline. -/
  | submit (timeoutMs : Option Int) (deadline : Bool)
  /-- The next step; `pick` chooses whom it notifies and `expired` says whether the
  deadline has passed. -/
  | go (pick : Nat) (expired : Bool)
  | timeout
  | spurious
deriving DecidableEq, Repr

def checkTimeout (pool : Pool) (timeoutMs : Option Int) (deadline : Bool) : Except String Unit :=
  match timeoutMs with
  | none => .ok ()
  | some timeout =>
    if timeout < 0 then .error (pool.kind.operation ++ " timeout must not be negative")
    else if timeout > maxSyncTimeoutMs || !deadline then
      .error (pool.kind.operation ++ " timeout is too large")
    else .ok ()

def poolEnqueue (pool : Pool) (x : Nat) (input : SubmitterInput) (s : PoolState)
    (p : SubmitterPhase) : PoolState × SubmitterPhase :=
  match input, p with
  | .submit timeoutMs deadline, .idle =>
    match checkTimeout pool timeoutMs deadline with
    | .error e => (s, .returned (.error e))
    | .ok _ => (s, .outside timeoutMs)
  | .go _ _, .outside timeoutMs => s.acquire (.submitter x) (.outside timeoutMs) (.inside timeoutMs)
  | .go _ _, .inside timeoutMs =>
    if s.closed then (s, .leaving (.error (pool.kind.operation ++ " is closed")))
    else (s, .sawOpen timeoutMs)
  | .go _ _, .sawOpen timeoutMs =>
    if s.queue.length < pool.queueCapacity then
      ({ s with queue := s.queue ++ [x], accepted := s.accepted ++ [x] }, .pushed)
    else (s, .sawFull timeoutMs)
  | .go _ expired, .sawFull timeoutMs =>
    if timeoutMs = some 0 ∨ (timeoutMs.isSome ∧ expired) then (s, .leaving (.ok false))
    else ({ s with holder := none, space := s.space ++ [x] }, .waiting timeoutMs false)
  | .go _ _, .waiting timeoutMs timedOut =>
    if x ∈ s.space then (s, .waiting timeoutMs timedOut)
    else s.acquire (.submitter x) (.waiting timeoutMs timedOut) (.resumed timeoutMs timedOut)
  | .spurious, .waiting timeoutMs timedOut =>
    ({ s with space := rouse s.space x }, .waiting timeoutMs timedOut)
  | .timeout, .waiting (some timeout) timedOut =>
    if x ∈ s.space then ({ s with space := rouse s.space x }, .waiting (some timeout) true)
    else (s, .waiting (some timeout) timedOut)
  | .go _ _, .resumed timeoutMs timedOut =>
    if timedOut ∧ s.queue.length ≥ pool.queueCapacity then (s, .leaving (.ok false))
    else (s, .inside timeoutMs)
  | .go pick _, .pushed => ({ s with wake := notifyOne s.wake pick }, .leaving (.ok true))
  | .go _ _, .leaving result => ({ s with holder := none }, .returned result)
  | _, p => (s, p)

/-! ## Cancelling and closing -/

/-- The part that `close_pool` and `mux_pool_cancel_pending` have in common. -/
inductive DrainPhase where
  /-- Before it locks the queue. -/
  | outside
  | inside
  /-- Before it notifies the submitters. -/
  | drained (tasks : List Nat)
  /-- Before it unlocks the queue. -/
  | told (tasks : List Nat)
  /-- Before it releases the tasks. -/
  | releasing (tasks : List Nat)
  | finished (count : Nat)
deriving DecidableEq, Repr

def drainPending (t : PoolThread) (s : PoolState) (p : DrainPhase) : PoolState × DrainPhase :=
  match p with
  | .outside => s.acquire t .outside .inside
  | .inside =>
    ({ s with
        queue := []
        departed := s.departed ++ s.queue.map fun task => (task, .cancelled)
        swept := s.swept || s.closed },
      .drained s.queue)
  | .drained tasks => ({ s with space := [] }, .told tasks)
  | .told tasks => ({ s with holder := none }, .releasing tasks)
  | .releasing tasks => (s, .finished tasks.length)
  | .finished count => (s, .finished count)

inductive CloserPhase where
  | idle
  /-- Before it stores the flag. -/
  | called (cancelPending : Bool)
  | draining (phase : DrainPhase)
  /-- Before it notifies the workers. -/
  | notifying (cancelled : Nat)
  /-- Before it takes the handles of the workers. -/
  | notified (cancelled : Nat)
  | joining (workers : List Nat) (cancelled : Nat)
  | returned (cancelled : Nat)
deriving DecidableEq, Repr

inductive CloserInput where
  | close (cancelPending : Bool)
  | go
deriving DecidableEq, Repr

def closePool (k : Nat) (input : CloserInput) (s : PoolState) (p : CloserPhase) :
    PoolState × CloserPhase :=
  match input, p with
  | .close cancelPending, .idle => (s, .called cancelPending)
  | .go, .called cancelPending =>
    ({ s with closed := true }, if cancelPending then .draining .outside else .notifying 0)
  | .go, .draining (.finished count) => (s, .notifying count)
  | .go, .draining phase =>
    let (s, phase) := drainPending (.closer k) s phase
    (s, .draining phase)
  | .go, .notifying cancelled => ({ s with wake := [] }, .notified cancelled)
  | .go, .notified cancelled => ({ s with handles := [] }, .joining s.handles cancelled)
  | .go, .joining [] cancelled => (s, .returned cancelled)
  | .go, .joining (w :: workers) cancelled =>
    -- Joining a thread waits until it has ended.
    if w ∈ s.exited then (s, .joining workers cancelled) else (s, .joining (w :: workers) cancelled)
  | _, p => (s, p)

inductive CancellerPhase where
  | idle
  | draining (phase : DrainPhase)
deriving DecidableEq, Repr

inductive CancellerInput where
  | cancelPending
  | go
deriving DecidableEq, Repr

def muxPoolCancelPending (k : Nat) (input : CancellerInput) (s : PoolState) (p : CancellerPhase) :
    PoolState × CancellerPhase :=
  match input, p with
  | .cancelPending, .idle => (s, .draining .outside)
  | .go, .draining phase =>
    let (s, phase) := drainPending (.canceller k) s phase
    (s, .draining phase)
  | _, p => (s, p)

/-! ## The pool as a program -/

@[reducible]
def PoolPhase : PoolThread → Type
  | .worker _ => WorkerPhase
  | .submitter _ => SubmitterPhase
  | .closer _ => CloserPhase
  | .canceller _ => CancellerPhase

def PoolInput : PoolThread → Type
  | .worker _ => WorkerInput
  | .submitter _ => SubmitterInput
  | .closer _ => CloserInput
  | .canceller _ => CancellerInput

def poolMove (pool : Pool) :
    (t : PoolThread) → PoolInput t → PoolState → PoolPhase t → PoolState × PoolPhase t
  | .worker w, input, s, p => if w < pool.workers then poolWorker w input s p else (s, p)
  | .submitter x, input, s, p => poolEnqueue pool x input s p
  | .closer k, input, s, p => closePool k input s p
  | .canceller k, input, s, p => muxPoolCancelPending k input s p

lemma poolMove_worker {pool : Pool} {w : Nat} {input : PoolInput (.worker w)} {s : PoolState}
    {p : PoolPhase (.worker w)} :
    poolMove pool (.worker w) input s p =
      if w < pool.workers then poolWorker w input s p else (s, p) :=
  rfl

lemma poolMove_eq_poolWorker {pool : Pool} {w : Nat} (hw : w < pool.workers) :
    poolMove pool (.worker w) = poolWorker w := by
  funext input s p
  rw [poolMove_worker, if_pos hw]

def poolProgram (pool : Pool) : Program PoolThread PoolState where
  Phase := PoolPhase
  Input := PoolInput
  move := poolMove pool

def PoolPhase.initial : (t : PoolThread) → PoolPhase t
  | .worker _ => WorkerPhase.outside
  | .submitter _ => SubmitterPhase.idle
  | .closer _ => CloserPhase.idle
  | .canceller _ => CancellerPhase.idle

/-- The pool when it has been created. -/
def Pool.start (pool : Pool) : Config (poolProgram pool) where
  shared :=
    { queue := [], holder := none, closed := false, wake := [], space := []
      handles := List.range pool.workers, exited := [], accepted := [], departed := []
      executed := [], sealed := false, swept := false }
  phase := PoolPhase.initial

/-- A thread takes a step. -/
abbrev PoolEvent (pool : Pool) := Event (poolProgram pool)

namespace PoolEvent

variable {pool : Pool}

def worker (w : Nat) (pick : Nat) : PoolEvent pool := ⟨.worker w, WorkerInput.go pick⟩

def submit (x : Nat) (timeoutMs : Option Int) : PoolEvent pool :=
  ⟨.submitter x, SubmitterInput.submit timeoutMs true⟩

def submitter (x : Nat) : PoolEvent pool := ⟨.submitter x, SubmitterInput.go 0 false⟩

def close (k : Nat) (cancelPending : Bool) : PoolEvent pool :=
  ⟨.closer k, CloserInput.close cancelPending⟩

def closer (k : Nat) : PoolEvent pool := ⟨.closer k, CloserInput.go⟩

end PoolEvent

/-- Where a worker of the pool is. -/
def workerPhase {pool : Pool} (c : Config (poolProgram pool)) (w : Nat) : WorkerPhase :=
  c.phase (.worker w)

def submitterPhase {pool : Pool} (c : Config (poolProgram pool)) (x : Nat) : SubmitterPhase :=
  c.phase (.submitter x)

def closerPhase {pool : Pool} (c : Config (poolProgram pool)) (k : Nat) : CloserPhase :=
  c.phase (.closer k)

/-- The pool after any interleaving of steps. -/
def Pool.run (pool : Pool) (events : List (PoolEvent pool)) : Config (poolProgram pool) :=
  Machine.run (step (poolProgram pool)) pool.start events

end MuxRuntime.Sync
