import MuxRuntime.Sync.Closing

/-!
# Schedules that block

A close call that leaves the pending tasks alone can block a thread for good. It can
notify the workers between a worker's test of the flag and its wait. And when more
submitters wait for space than there are tasks in the queue, the tasks run out before the
submitters have been notified.
-/

namespace MuxRuntime.Sync

open List Interleaving Function

variable {pool : Pool}

/-! ## Schedules -/

/-- There is a schedule, with close calls as `P` says. -/
def Reaches (P : Bool → Prop) (c c' : Config (poolProgram pool)) : Prop :=
  ∃ events, (∀ e ∈ events, ClosesWith P e) ∧ Machine.run (step (poolProgram pool)) c events = c'

lemma Reaches.refl {P : Bool → Prop} {c : Config (poolProgram pool)} : Reaches P c c :=
  ⟨[], by simp, rfl⟩

lemma Reaches.trans {P : Bool → Prop} {c c' c'' : Config (poolProgram pool)}
    (h : Reaches P c c') (h' : Reaches P c' c'') : Reaches P c c'' := by
  rcases h with ⟨events, hevents, rfl⟩
  rcases h' with ⟨events', hevents', rfl⟩
  refine ⟨events ++ events', fun e he => ?_, foldl_append⟩
  rcases mem_append.mp he with he | he
  · exact hevents e he
  · exact hevents' e he

/-- A thread moves on alone. -/
lemma Reaches.alone {P : Bool → Prop} {c : Config (poolProgram pool)} (t : PoolThread)
    (inputs : List (PoolInput t)) {s : PoolState} {p : PoolPhase t}
    (hP : ∀ i ∈ inputs, ClosesWith P (⟨t, i⟩ : PoolEvent pool))
    (h : chain (poolMove pool t) inputs c.shared (c.phase t) = (s, p)) :
    Reaches P c { shared := s, phase := Function.update c.phase t p } := by
  refine ⟨inputs.map fun i => (⟨t, i⟩ : PoolEvent pool), fun e he => ?_, ?_⟩
  · rcases mem_map.mp he with ⟨i, hi, rfl⟩
    exact hP i hi
  · have hrun := run_chain (P := poolProgram pool) t inputs c
    have hchain : chain ((poolProgram pool).move t) inputs c.shared (c.phase t) = (s, p) := h
    rw [hchain] at hrun
    exact hrun

variable {p : CloserPhase}

section Phases

variable (c : Config (poolProgram pool)) (s : PoolState)

/-- One thread has moved on. -/
def withThread (t : PoolThread) (p : PoolPhase t) : Config (poolProgram pool) where
  shared := s
  phase := Function.update c.phase t p

variable {c s} {t : PoolThread} {w x k : Nat}

@[simp]
lemma withThread_shared {p : PoolPhase t} : (withThread c s t p).shared = s := (rfl)

@[simp]
lemma workerPhase_self {p : WorkerPhase} : workerPhase (withThread c s (.worker w) p) w = p :=
  update_self _ _ _

@[simp]
lemma submitterPhase_self {p : SubmitterPhase} :
    submitterPhase (withThread c s (.submitter x) p) x = p :=
  update_self _ _ _

@[simp]
lemma closerPhase_self : closerPhase (withThread c s (.closer k) p) k = p := update_self _ _ _

@[simp]
lemma workerPhase_of_ne {p : PoolPhase t} (h : PoolThread.worker w ≠ t) :
    workerPhase (withThread c s t p) w = workerPhase c w :=
  update_of_ne h _ _

@[simp]
lemma submitterPhase_of_ne {p : PoolPhase t} (h : PoolThread.submitter x ≠ t) :
    submitterPhase (withThread c s t p) x = submitterPhase c x :=
  update_of_ne h _ _

@[simp]
lemma closerPhase_of_ne {p : PoolPhase t} (h : PoolThread.closer k ≠ t) :
    closerPhase (withThread c s t p) k = closerPhase c k :=
  update_of_ne h _ _

variable {P : Bool → Prop}

lemma reaches_worker (inputs : List WorkerInput) {p : WorkerPhase} (hw : w < pool.workers)
    (h : chain (poolWorker w) inputs c.shared (workerPhase c w) = (s, p)) :
    Reaches P c (withThread c s (.worker w) p) := by
  apply Reaches.alone (.worker w) inputs
  · intro i _ k b he
    cases he
  · rw [poolMove_eq_poolWorker hw]
    exact h

lemma reaches_submitter (inputs : List SubmitterInput) {p : SubmitterPhase}
    (h : chain (poolEnqueue pool x) inputs c.shared (submitterPhase c x) = (s, p)) :
    Reaches P c (withThread c s (.submitter x) p) := by
  apply Reaches.alone (.submitter x) inputs
  · intro i _ k b he
    cases he
  · exact h

lemma reaches_closer (inputs : List CloserInput) (hP : ∀ b, CloserInput.close b ∈ inputs → P b)
    (h : chain (closePool k) inputs c.shared (closerPhase c k) = (s, p)) :
    Reaches P c (withThread c s (.closer k) p) := by
  apply Reaches.alone (.closer k) inputs
  · intro i hi k b he
    cases he
    exact hP b hi
  · exact h

end Phases

section Routines

variable {P : Bool → Prop} {c : Config (poolProgram pool)} {w x k : Nat}

/-- A worker finds nothing to do and the flag unset. -/
lemma reaches_sawOpen (hw : w < pool.workers) (hphase : workerPhase c w = .outside)
    (hfree : c.shared.holder = none) (hqueue : c.shared.queue = []) (hopen : c.shared.closed = false) :
    Reaches P c (withThread c { c.shared with holder := some (.worker w) } (.worker w)
      WorkerPhase.sawOpen) := by
  apply reaches_worker [.go 0, .go 0, .go 0] hw
  simp [chain, poolWorker, PoolState.acquire, hphase, hfree, hqueue, hopen]

lemma reaches_waiting (hw : w < pool.workers) (hphase : workerPhase c w = .sawOpen) : Reaches P c
      (withThread c { c.shared with holder := none, wake := c.shared.wake ++ [w] } (.worker w)
        WorkerPhase.waiting) := by
  apply reaches_worker [.go 0] hw
  simp [chain, poolWorker, hphase]

/-- A worker runs the first task of the queue. -/
lemma reaches_executed {task : Nat} {rest : List Nat} (hw : w < pool.workers)
    (hphase : workerPhase c w = .outside) (hfree : c.shared.holder = none)
    (hqueue : c.shared.queue = task :: rest) :
    Reaches P c
      (withThread c { c.shared with
          queue := rest
          departed := c.shared.departed ++ [(task, .taken w)]
          space := notifyOne c.shared.space 0
          executed := c.shared.executed ++ [task] } (.worker w) WorkerPhase.outside) := by
  apply reaches_worker [.go 0, .go 0, .go 0, .go 0, .go 0] hw
  simp [chain, poolWorker, PoolState.acquire, hphase, hfree, hqueue]

/-- A worker finds nothing to do and the flag set. -/
lemma reaches_exited (hw : w < pool.workers) (hphase : workerPhase c w = .outside)
    (hfree : c.shared.holder = none) (hqueue : c.shared.queue = []) (hclosed : c.shared.closed = true) :
    Reaches P c
      (withThread c { c.shared with sealed := true, exited := w :: c.shared.exited } (.worker w)
        WorkerPhase.exited) := by
  apply reaches_worker [.go 0, .go 0, .go 0, .go 0] hw
  simp [chain, poolWorker, PoolState.acquire, hphase, hfree, hqueue, hclosed]

section

variable (hphase : submitterPhase c x = .idle) (hfree : c.shared.holder = none)
    (hopen : c.shared.closed = false)

include hphase hfree hopen

/-- A submission is accepted. -/
lemma reaches_accepted (hspace : c.shared.queue.length < pool.queueCapacity) :
    Reaches P c
      (withThread c { c.shared with
          queue := c.shared.queue ++ [x]
          accepted := c.shared.accepted ++ [x]
          wake := notifyOne c.shared.wake 0 } (.submitter x)
        (SubmitterPhase.returned (.ok true))) := by
  apply reaches_submitter
    [.submit none true, .go 0 false, .go 0 false, .go 0 false, .go 0 false, .go 0 false]
  simp [chain, poolEnqueue, checkTimeout, PoolState.acquire, hphase, hfree, hopen, hspace]

/-- A submission finds the queue full and waits for space. -/
lemma reaches_parked (hfull : c.shared.queue.length = pool.queueCapacity) :
    Reaches P c (withThread c { c.shared with space := c.shared.space ++ [x] } (.submitter x)
        (SubmitterPhase.waiting none false)) := by
  apply reaches_submitter [.submit none true, .go 0 false, .go 0 false, .go 0 false, .go 0 false]
  simp [chain, poolEnqueue, checkTimeout, PoolState.acquire, hphase, hfree, hopen, hfull]

end

/-- A close call that leaves the pending tasks alone joins the workers. -/
lemma reaches_joining (hP : P false) (hphase : closerPhase c k = .idle) : Reaches P c
      (withThread c { c.shared with closed := true, wake := [], handles := [] } (.closer k)
        (CloserPhase.joining c.shared.handles 0)) := by
  apply reaches_closer [.close false, .go, .go, .go]
  · simpa using hP
  · simp [chain, closePool, hphase]

/-- All workers that a close call joins have ended. -/
lemma reaches_returned {workers : List Nat} {cancelled : Nat}
    (hphase : closerPhase c k = .joining workers cancelled)
    (hexited : ∀ w ∈ workers, w ∈ c.shared.exited) :
    Reaches P c (withThread c c.shared (.closer k) (CloserPhase.returned cancelled)) := by
  apply reaches_closer (List.replicate (workers.length + 1) .go)
  · intro b hb
    cases eq_of_mem_replicate hb
  rw [hphase]
  clear hphase
  induction workers with
  | nil => rfl
  | cons w workers ih =>
    have hw : w ∈ c.shared.exited := hexited w mem_cons_self
    have hrest := ih fun w' hw' => hexited w' (mem_cons_of_mem w hw')
    rw [length_cons, replicate_succ]
    simpa [chain, closePool, hw] using hrest

end Routines

/-! ## A lost wake-up -/

/-- A worker tests the flag, the pool is closed and the workers are notified, the worker
waits. -/
lemma reaches_lostWake (pool : Pool) {P : Bool → Prop} (hP : P false) :
    ∃ c, Reaches P pool.start c ∧ LostWake c := by
  have hw : 0 < pool.workers := pool.workers_range.1
  have htest := reaches_sawOpen (P := P) (c := pool.start) hw rfl rfl rfl rfl
  have hclose := htest.trans (reaches_joining (k := 0) hP (by simp; rfl))
  have hwait := hclose.trans (reaches_waiting hw (by simp))
  refine ⟨_, hwait, rfl, rfl, ⟨0, ?_⟩, 0, ?_, ?_⟩
  · simp [CloserPhase.hasNotified]
  · simp
  · simp

/-! ## A stranded submitter -/

/-- The first `n` submissions were accepted, and no worker has started. -/
structure Filled (n : Nat) (c : Config (poolProgram pool)) : Prop where
  free : c.shared.holder = none
  isOpen : c.shared.closed = false
  length : c.shared.queue.length = n
  space : c.shared.space = []
  handles : c.shared.handles = List.range pool.workers
  workers : ∀ w, workerPhase c w = .outside
  fresh : ∀ x, n ≤ x → submitterPhase c x = .idle
  closer : closerPhase c 0 = .idle

/-- The queue is full and the next `n` submissions wait for space. -/
structure Crowded (n : Nat) (c : Config (poolProgram pool)) : Prop where
  free : c.shared.holder = none
  isOpen : c.shared.closed = false
  length : c.shared.queue.length = pool.queueCapacity
  space : c.shared.space = List.range' pool.queueCapacity n
  handles : c.shared.handles = List.range pool.workers
  workers : ∀ w, workerPhase c w = .outside
  parked : ∀ x, pool.queueCapacity ≤ x → x < pool.queueCapacity + n →
    submitterPhase c x = .waiting none false
  fresh : ∀ x, pool.queueCapacity + n ≤ x → submitterPhase c x = .idle
  closer : closerPhase c 0 = .idle

/-- The pool is closed, `n` tasks are left, and one submission more than that waits. -/
structure Draining (n : Nat) (c : Config (poolProgram pool)) : Prop where
  free : c.shared.holder = none
  closed : c.shared.closed = true
  length : c.shared.queue.length = n
  space : c.shared.space = List.range' (2 * pool.queueCapacity - n) (n + 1)
  workers : ∀ w, workerPhase c w = .outside
  parked : submitterPhase c (2 * pool.queueCapacity) = .waiting none false
  closer : closerPhase c 0 = .joining (List.range pool.workers) 0

/-- Nothing is left, the first `n` workers have ended, and a submission waits. -/
structure Emptied (n : Nat) (c : Config (poolProgram pool)) : Prop where
  free : c.shared.holder = none
  closed : c.shared.closed = true
  queue : c.shared.queue = []
  space : 2 * pool.queueCapacity ∈ c.shared.space
  exited : ∀ w < n, w ∈ c.shared.exited
  workers : ∀ w, n ≤ w → workerPhase c w = .outside
  parked : submitterPhase c (2 * pool.queueCapacity) = .waiting none false
  closer : closerPhase c 0 = .joining (List.range pool.workers) 0

section Stages

variable {P : Bool → Prop}

variable {n : Nat}

lemma reaches_filled (h : n ≤ pool.queueCapacity) : ∃ c, Reaches P pool.start c ∧ Filled n c := by
  induction n with
  | zero => exact ⟨pool.start, .refl, rfl, rfl, rfl, rfl, rfl, fun _ => rfl, fun _ _ => rfl, rfl⟩
  | succ n ih => ?_
  rcases ih (by omega) with ⟨c, hreach, hc⟩
  have hnext := reaches_accepted (P := P) (hc.fresh n (le_refl n)) hc.free hc.isOpen
    (by rw [hc.length]; omega)
  refine ⟨_, hreach.trans hnext, hc.free, hc.isOpen, ?_, hc.space, hc.handles, ?_, ?_, ?_⟩
  · simp [hc.length]
  · simpa using hc.workers
  · intro x hx
    rw [submitterPhase_of_ne (by simp; omega)]
    exact hc.fresh x (by omega)
  · simpa using hc.closer

lemma reaches_crowded (pool : Pool) (n : Nat) : ∃ c, Reaches P pool.start c ∧ Crowded n c := by
  induction n with
  | zero =>
    rcases reaches_filled (P := P) (le_refl pool.queueCapacity) with ⟨c, hreach, hc⟩
    exact ⟨c, hreach, hc.free, hc.isOpen, hc.length, hc.space, hc.handles, hc.workers,
      fun x hle hlt => by omega, hc.fresh, hc.closer⟩
  | succ n ih => ?_
  rcases ih with ⟨c, hreach, hc⟩
  have hnext := reaches_parked (P := P) (hc.fresh _ (le_refl _)) hc.free hc.isOpen hc.length
  refine ⟨_, hreach.trans hnext, hc.free, hc.isOpen, hc.length, ?_, hc.handles, ?_, ?_, ?_, ?_⟩
  · simp [hc.space, List.range'_concat]
  · simpa using hc.workers
  · intro x hle hlt
    by_cases heq : x = pool.queueCapacity + n
    · rw [heq, submitterPhase_self]
    · rw [submitterPhase_of_ne (by simpa using heq)]
      exact hc.parked x hle (by omega)
  · intro x hx
    rw [submitterPhase_of_ne (by simp; omega)]
    exact hc.fresh x (by omega)
  · simpa using hc.closer

/-- The first who waits is notified. -/
lemma notifyOne_range' {a : Nat} : notifyOne (List.range' a (n + 1)) 0 = List.range' (a + 1) n := by
  have hfirst : (List.range' a (n + 1))[0 % (List.range' a (n + 1)).length]? = some a := by
    simp [List.range'_succ]
  unfold notifyOne
  simp [rouse, List.range'_succ]
  omega

lemma reaches_draining (hP : P false) (h : n ≤ pool.queueCapacity) :
    ∃ c, Reaches P pool.start c ∧ Draining (pool.queueCapacity - n) c := by
  have hw : 0 < pool.workers := pool.workers_range.1
  induction n with
  | zero =>
    rcases reaches_crowded (P := P) pool (pool.queueCapacity + 1) with ⟨c, hreach, hc⟩
    have hnext := reaches_joining (k := 0) hP hc.closer
    refine ⟨_, hreach.trans hnext, hc.free, rfl, hc.length, ?_, ?_, ?_, ?_⟩
    · simp [hc.space, Nat.two_mul]
    · simpa using hc.workers
    · simpa using hc.parked (2 * pool.queueCapacity) (by omega) (by omega)
    · simp [hc.handles]
  | succ n ih => ?_
  rcases ih (by omega) with ⟨c, hreach, hc⟩
  have hlength := hc.length
  rcases hqueue : c.shared.queue with _ | ⟨task, rest⟩
  · rw [hqueue, length_nil] at hlength
    omega
  have hnext := reaches_executed (P := P) hw (hc.workers 0) hc.free hqueue
  rw [hqueue, length_cons] at hlength
  refine ⟨_, hreach.trans hnext, hc.free, hc.closed, ?_, ?_, ?_, ?_, ?_⟩
  · simp
    omega
  · have hsplit : pool.queueCapacity - n + 1 = (pool.queueCapacity - (n + 1) + 1) + 1 := by omega
    simp only [withThread_shared]
    rw [hc.space, hsplit, notifyOne_range']
    congr 1
    omega
  · intro w
    by_cases heq : w = 0
    · rw [heq, workerPhase_self]
    · rw [workerPhase_of_ne (by simpa using heq)]
      exact hc.workers w
  · simpa using hc.parked
  · simpa using hc.closer

lemma reaches_emptied (hP : P false) (h : n ≤ pool.workers) :
    ∃ c, Reaches P pool.start c ∧ Emptied n c := by
  induction n with
  | zero =>
    rcases reaches_draining hP (le_refl pool.queueCapacity) with ⟨c, hreach, hc⟩
    rw [Nat.sub_self] at hc
    refine ⟨c, hreach, hc.free, hc.closed, length_eq_zero_iff.mp hc.length, ?_, ?_,
      fun w _ => hc.workers w, hc.parked, hc.closer⟩
    · rw [hc.space]
      simp
    · intro w hw
      omega
  | succ n ih => ?_
  rcases ih (by omega) with ⟨c, hreach, hc⟩
  have hnext := reaches_exited (P := P) (w := n) (by omega) (hc.workers n (le_refl n)) hc.free
    hc.queue hc.closed
  refine ⟨_, hreach.trans hnext, hc.free, hc.closed, hc.queue, hc.space, ?_, ?_, ?_, ?_⟩
  · intro w hw
    by_cases heq : w = n
    · rw [heq]
      exact mem_cons_self
    · exact mem_cons_of_mem n (hc.exited w (by omega))
  · intro w hw
    rw [workerPhase_of_ne (by simp; omega)]
    exact hc.workers w (by omega)
  · simpa using hc.parked
  · simpa using hc.closer

/-- More submitters wait than there are tasks; the pool is closed; the workers run the
tasks, each of which notifies one of the submitters, and end. -/
lemma reaches_stranded (pool : Pool) (hP : P false) : ∃ c, Reaches P pool.start c ∧ Stranded c := by
  rcases reaches_emptied hP (le_refl pool.workers) with ⟨c, hreach, hc⟩
  have hnext := reaches_returned (P := P) hc.closer fun w hw => hc.exited w (mem_range.mp hw)
  refine ⟨_, hreach.trans hnext, ⟨0, 0, ?_⟩, hc.exited, 2 * pool.queueCapacity, false, ?_, hc.space⟩
  · simp
  · simpa using hc.parked

end Stages

/-! ## Late waits -/

/-- No worker parks behind the notification of a close call. -/
def NoLateWait (c : Config (poolProgram pool)) (e : PoolEvent pool) : Prop :=
  ∀ w pick, w < pool.workers → e = .worker w pick → workerPhase c w = .sawOpen →
    ∀ k, (closerPhase c k).hasNotified = false

/-- The close call has stored the flag. -/
def CloserPhase.hasStored : CloserPhase → Bool
  | .idle | .called _ => false
  | _ => true

/-- The flag is set behind close calls that have stored it, and nobody waits behind those
that have notified. -/
structure NobodyWaits (c : Config (poolProgram pool)) : Prop where
  stored : ∀ k, (closerPhase c k).hasStored = true → c.shared.closed = true
  notified : ∀ k, (closerPhase c k).hasNotified = true → c.shared.wake = []

variable {t : PoolThread}

lemma CloserPhase.hasStored_of_hasNotified (h : p.hasNotified = true) : p.hasStored = true := by
  cases p <;> first | rfl | cases h

section Moves

variable {s : PoolState}

/-- The worker of the event is about to park. -/
def Parks (pool : Pool) (t : PoolThread) (input : PoolInput t) (p : PoolPhase t) : Prop :=
  match t with
  | .worker w => w < pool.workers ∧ p = WorkerPhase.sawOpen ∧ ∃ pick, input = WorkerInput.go pick
  | _ => False

/-- Only a worker that has seen the flag unset parks. -/
lemma poolMove_wake {input : PoolInput t} {p : PoolPhase t}
    (hlock : PoolPhase.holdsLock t p = true → s.holder = some t) (h : ¬ Parks pool t input p) :
    (poolMove pool t input s p).1.wake ⊆ s.wake := by
  have hstep : MoveStep pool t p s (poolMove pool t input s p).1 _ := poolMove_steps hlock
  rcases hstep.sweeps.wake with hsub | ⟨hpark, w, rfl⟩
  · exact hsub
  cases hpark
  rw [poolMove_worker]
  split
  · next hw =>
      cases input with
      | go pick => exact absurd ⟨hw, rfl, pick, rfl⟩ h
      | spurious => exact List.Subset.refl _
  · exact List.Subset.refl _

lemma drainPending_closed {p : DrainPhase} : (drainPending t s p).1.closed = s.closed := by
  cases p with
  | outside =>
    unfold drainPending PoolState.acquire
    dsimp only
    split <;> rfl
  | inside | drained | told | releasing | finished => rfl

/-- A close call sets the flag when it stores it, and leaves nobody waiting when it
notifies. -/
lemma closePool_marks {k : Nat} {input : CloserInput}
    (hstored : p.hasStored = true → s.closed = true)
    (hnotified : p.hasNotified = true → s.wake = []) :
    ((closePool k input s p).2.hasStored = true → (closePool k input s p).1.closed = true) ∧
      ((closePool k input s p).2.hasNotified = true → (closePool k input s p).1.wake = []) := by
  unfold closePool
  split
  · exact ⟨by rintro ⟨⟩, by rintro ⟨⟩⟩
  · refine ⟨fun _ => rfl, ?_⟩
    split <;> rintro ⟨⟩
  · exact ⟨fun _ => hstored rfl, by rintro ⟨⟩⟩
  · rw [drainPending_closed]
    exact ⟨fun _ => hstored rfl, by rintro ⟨⟩⟩
  · exact ⟨fun _ => hstored rfl, fun _ => rfl⟩
  · exact ⟨fun _ => hstored rfl, fun _ => hnotified rfl⟩
  · exact ⟨fun _ => hstored rfl, fun _ => hnotified rfl⟩
  · split <;> exact ⟨fun _ => hstored rfl, fun _ => hnotified rfl⟩
  · exact ⟨hstored, hnotified⟩

end Moves

variable {e : PoolEvent pool}

section Runs

variable {c : Config (poolProgram pool)}

lemma not_parks_of_hasNotified (hlate : NoLateWait c e) {k : Nat}
    (hk : (closerPhase c k).hasNotified = true) : ¬ Parks pool e.1 e.2 (c.phase e.1) := by
  rcases e with ⟨t, i⟩
  cases t with
  | worker w =>
    rintro ⟨hw, hphase, pick, rfl⟩
    rw [hlate w pick hw rfl hphase k] at hk
    cases hk
  | submitter x => exact id
  | closer k => exact id
  | canceller k => exact id

lemma NobodyWaits.after (h : NobodyWaits c) (hlocks : (lockOutline pool).Holds c)
    (hlate : NoLateWait c e) : NobodyWaits (step (poolProgram pool) c e) := by
  have hclosed : c.shared.closed = true → (step (poolProgram pool) c e).shared.closed = true :=
    (poolMove_steps (hlocks.2 e.1)).sweeps.closed
  have hwake : ∀ k, (closerPhase c k).hasNotified = true →
      (step (poolProgram pool) c e).shared.wake = [] := by
    intro k hk
    have hsub := poolMove_wake (hlocks.2 e.1) (not_parks_of_hasNotified hlate hk)
    rw [h.notified k hk] at hsub
    exact subset_nil.mp hsub
  rcases e with ⟨t, i⟩
  have hmarks : ∀ k, ((closerPhase (step (poolProgram pool) c ⟨t, i⟩) k).hasStored = true →
        (step (poolProgram pool) c ⟨t, i⟩).shared.closed = true) ∧
      ((closerPhase (step (poolProgram pool) c ⟨t, i⟩) k).hasNotified = true →
        (step (poolProgram pool) c ⟨t, i⟩).shared.wake = []) := by
    intro k
    by_cases hne : PoolThread.closer k = t
    · subst hne
      have hself : closerPhase (step (poolProgram pool) c ⟨.closer k, i⟩) k =
          (closePool k i c.shared (closerPhase c k)).2 := update_self _ _ _
      rw [hself]
      exact closePool_marks (h.stored k) (h.notified k)
    · have hsame : closerPhase (step (poolProgram pool) c ⟨t, i⟩) k = closerPhase c k :=
        update_of_ne hne _ c.phase
      rw [hsame]
      exact ⟨fun hk => hclosed (h.stored k hk), hwake k⟩
  exact ⟨fun k => (hmarks k).1, fun k => (hmarks k).2⟩

lemma NobodyWaits.not_lostWake (h : NobodyWaits c) : ¬ LostWake c := by
  rintro ⟨-, -, ⟨k, hk⟩, w, -, hw⟩
  rw [h.notified k hk] at hw
  cases hw

/-- A worker that parks behind the notification is not woken by it. -/
lemma lostWake_of_lateWait (h : NobodyWaits c) (hledger : (ledgerOutline pool).Holds c)
    (hlate : ¬ NoLateWait c e) : LostWake (step (poolProgram pool) c e) := by
  simp only [NoLateWait, not_forall, Bool.not_eq_false] at hlate
  rcases hlate with ⟨w, pick, hw, rfl, hphase, k, hk⟩
  have hat : WorkerAt w (workerPhase c w) c.shared.ledger := hledger.2 (.worker w)
  have hmove : poolWorker w (.go pick) c.shared (workerPhase c w) =
      ({ c.shared with holder := none, wake := c.shared.wake ++ [w] }, .waiting) := by
    rw [hphase]
    rfl
  have hstep : step (poolProgram pool) c (PoolEvent.worker w pick) =
      withThread c { c.shared with holder := none, wake := c.shared.wake ++ [w] } (.worker w)
        WorkerPhase.waiting := by
    apply step_eq
    exact (congrFun (congrFun (congrFun (poolMove_eq_poolWorker hw) _) _) _).trans hmove
  rw [hstep]
  refine ⟨h.stored k (CloserPhase.hasStored_of_hasNotified hk), ?_, ⟨k, ?_⟩, w, ?_, ?_⟩
  · apply hat.empty
    rw [hphase]
    rfl
  · simpa using hk
  · simp
  · simp

/-- From a state in which nobody waits behind a notification. -/
lemma lateWait_iff_of {events : List (PoolEvent pool)} (h : NobodyWaits c)
    (hlocks : (lockOutline pool).Holds c) (hledger : (ledgerOutline pool).Holds c) :
    (∀ before, before <+: events → ¬ LostWake (Machine.run (step (poolProgram pool)) c before)) ↔
      Machine.Always (step (poolProgram pool)) NoLateWait c events := by
  induction events generalizing c with
  | nil =>
    refine iff_of_true (fun before hbefore => ?_) trivial
    rw [prefix_nil.mp hbefore]
    exact h.not_lostWake
  | cons e events ih => ?_
  rcases ledger_run hlocks hledger [e] with ⟨hlocks', hledger'⟩
  constructor
  · intro hall
    have hlate : NoLateWait c e := by
      by_contra hlate
      exact hall [e] (prefix_append [e] events) (lostWake_of_lateWait h hledger hlate)
    refine ⟨hlate, (ih (h.after hlocks hlate) hlocks' hledger').mp fun before hbefore => ?_⟩
    exact hall (e :: before) ((prefix_cons_inj e).mpr hbefore)
  · rintro ⟨hlate, halways⟩ before hbefore
    rcases before with _ | ⟨e', before⟩
    · exact h.not_lostWake
    · rcases cons_prefix_cons.mp hbefore with ⟨rfl, htail⟩
      exact (ih (h.after hlocks hlate) hlocks' hledger').mpr halways before htail

end Runs

lemma start_nobodyWaits (pool : Pool) : NobodyWaits pool.start := ⟨by rintro k ⟨⟩, by rintro k ⟨⟩⟩

/-- A run loses a wake-up exactly when a worker parks behind the notification. -/
theorem lateWait_iff (pool : Pool) (events : List (PoolEvent pool)) :
    (∀ before, before <+: events → ¬ LostWake (pool.run before)) ↔
      Machine.Always (step (poolProgram pool)) NoLateWait pool.start events :=
  lateWait_iff_of (start_nobodyWaits pool) (start_locks pool) (start_ledger pool)

/-! ## Which close calls block -/

lemma cancels_of_not {P : Bool → Prop} (hP : ¬ P false) (h : ClosesWith P e) :
    ClosesWith (· = true) e := by
  intro k b he
  cases b with
  | true => rfl
  | false => exact absurd (h k false he) hP

/-- No schedule loses a wake-up exactly when every close call cancels the pending tasks;
and a run loses one exactly when a worker parks behind the notification of a close call. -/
theorem close_wakes_workers (pool : Pool) :
    (∀ P : Bool → Prop, (∀ events : List (PoolEvent pool), (∀ e ∈ events, ClosesWith P e) →
      ¬ LostWake (pool.run events)) ↔ ¬ P false) ∧
    ∀ events : List (PoolEvent pool), (∀ before, before <+: events → ¬ LostWake (pool.run before)) ↔
        Machine.Always (step (poolProgram pool)) NoLateWait pool.start events := by
  refine ⟨fun P => ⟨fun h hP => ?_, fun hP events hevents => ?_⟩, lateWait_iff pool⟩
  · rcases reaches_lostWake pool hP with ⟨c, ⟨events, hevents, rfl⟩, hlost⟩
    exact h events hevents hlost
  · exact not_lostWake_of_cancels fun e he => cancels_of_not hP (hevents e he)

/-- A worker tests the flag, the pool is closed and the workers are notified, the worker
waits. -/
def lostWakeSchedule : List (PoolEvent smallPool) :=
  [.worker 0 0, .worker 0 0, .worker 0 0, .close 0 false, .closer 0, .closer 0, .closer 0,
    .worker 0 0]

/-- The close call joins a worker that nobody wakes. -/
theorem close_loses_wake : LostWake (smallPool.run lostWakeSchedule) ∧
      closerPhase (smallPool.run lostWakeSchedule) 0 = .joining [0] 0 := by
  refine ⟨⟨rfl, rfl, ⟨0, rfl⟩, 0, rfl, ?_⟩, rfl⟩
  exact mem_cons_self

/-- No schedule strands a submitter exactly when every close call cancels the pending
tasks. -/
theorem close_frees_submitters (pool : Pool) (P : Bool → Prop) :
    (∀ events : List (PoolEvent pool), (∀ e ∈ events, ClosesWith P e) →
      ¬ Stranded (pool.run events)) ↔ ¬ P false := by
  constructor
  · intro h hP
    rcases reaches_stranded pool hP with ⟨c, ⟨events, hevents, rfl⟩, hstranded⟩
    exact h events hevents hstranded
  · intro hP events hevents
    exact not_stranded_of_cancels fun e he => cancels_of_not hP (hevents e he)

/-- One task is in the queue and two submitters wait for space. The pool is closed, the
worker runs the task, notifies one of them and ends. -/
def strandingSchedule : List (PoolEvent smallPool) :=
  [.submit 0 none, .submitter 0, .submitter 0, .submitter 0, .submitter 0, .submitter 0,
    .submit 1 none, .submitter 1, .submitter 1, .submitter 1, .submitter 1,
    .submit 2 none, .submitter 2, .submitter 2, .submitter 2, .submitter 2,
    .close 0 false, .closer 0, .closer 0, .closer 0,
    .worker 0 0, .worker 0 0, .worker 0 0, .worker 0 0, .worker 0 0,
    .submitter 1, .submitter 1, .submitter 1, .submitter 1,
    .worker 0 0, .worker 0 0, .worker 0 0, .worker 0 0, .closer 0, .closer 0]

/-- The other submitter waits for ever. -/
theorem close_strands_submitter : Stranded (smallPool.run strandingSchedule) ∧
      submitterPhase (smallPool.run strandingSchedule) 1 = .returned (.error "pool is closed") := by
  refine ⟨⟨⟨0, 0, rfl⟩, ?_, 2, false, rfl, ?_⟩, rfl⟩
  · intro w hw
    cases Nat.lt_one_iff.mp hw
    exact mem_cons_self
  · exact mem_cons_self

end MuxRuntime.Sync
