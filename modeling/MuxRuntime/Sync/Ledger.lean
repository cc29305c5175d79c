import MuxRuntime.Sync.Steps

/-!
# The ledger of a pool

The steps of a ledger say what may happen to the tasks of a pool and when. Every step of
every thread is a step of the ledger, because threads touch the queue only while they hold
its lock.
-/

namespace MuxRuntime.Sync

open List Interleaving

variable {π : Type} {w : Nat} {u : PoolThread} {input : SubmitterInput} {p : SubmitterPhase}

/-! ## The lock -/

/-- A thread in a section of the queue holds the lock. -/
def lockOutline (pool : Pool) : Outline (poolProgram pool) where
  shared := fun _ => True
  here := fun t p s => PoolPhase.holdsLock t p = true → s.holder = some t

/-- At most one thread is in a section of the queue. -/
theorem lockOutline_valid (pool : Pool) (Allowed : PoolEvent pool → Prop) :
    Outline.Valid Allowed .top (lockOutline pool) where
  own := by
    intro t i s p _ _ _ _ hp
    exact ⟨trivial, (poolMove_steps hp).locks.held⟩
  other := by
    intro t u i s p q _ hne _ _ _ _ hp hq hlock
    exact (poolMove_steps hp).locks.step.keeps hne (hq hlock)

/-! ## Ledgers -/

structure Ledger.Sound (pool : Pool) (l : Ledger) : Prop where
  within : l.queue.length ≤ pool.queueCapacity
  fifo : l.accepted = l.departed.map Prod.fst ++ l.queue
  distinct : l.accepted.Nodup
  sealed_empty : l.sealed = true → l.closed = true ∧ l.queue = []
  executed_distinct : l.executed.Nodup
  executed_taken : ∀ task ∈ l.executed, ∃ w, (task, .taken w) ∈ l.departed
  taken_worker : ∀ task w, (task, .taken w) ∈ l.departed → w < pool.workers
  exited_sealed : ∀ w ∈ l.exited, l.sealed = true

/-- What every step of a ledger keeps. -/
theorem LedgerStep.sound {pool : Pool} {t : PoolThread} {l l' : Ledger}
    (h : LedgerStep pool t l l') (hl : l.Sound pool) : l'.Sound pool := by
  have hfresh : ∀ {tasks : List Nat} {x}, tasks.Nodup → x ∉ tasks → (tasks ++ [x]).Nodup :=
    fun h hnew => nodup_append.mpr
      ⟨h, by simp, by simpa using fun a ha => ne_of_mem_of_not_mem ha hnew⟩
  have hstill : ∀ (more : List (Nat × Departure)), ∀ task ∈ l.executed,
      ∃ w, (task, .taken w) ∈ l.departed ++ more := by
    intro more task htask
    rcases hl.executed_taken task htask with ⟨w, hmem⟩
    exact ⟨w, mem_append_left _ hmem⟩
  cases h with
  | quiet => exact hl
  | acquire | release => exact { hl with }
  | close => exact { hl with sealed_empty := fun h => ⟨rfl, (hl.sealed_empty h).2⟩ }
  | push hheld hopen hspace hnew =>
    refine { hl with
      within := by simpa using hspace
      fifo := by simp [hl.fifo]
      distinct := hfresh hl.distinct hnew
      sealed_empty := fun h => ?_ }
    rw [hopen] at h
    cases h
  | take hheld hw hqueue =>
    have hwithin := hl.within
    rw [hqueue] at hwithin
    refine { hl with
      within := Nat.le_of_succ_le hwithin
      fifo := by simp [hl.fifo, hqueue]
      sealed_empty := fun h => ?_
      executed_taken := hstill _
      taken_worker := fun task w hmem => ?_ }
    · rw [(hl.sealed_empty h).2] at hqueue
      cases hqueue
    · rcases mem_append.mp hmem with hmem | hmem
      · exact hl.taken_worker task w hmem
      · cases mem_singleton.mp hmem
        exact hw
  | drain hheld =>
    refine { hl with
      within := Nat.zero_le _
      fifo := by simp [hl.fifo, Function.comp_def]
      sealed_empty := fun h => ⟨(hl.sealed_empty h).1, rfl⟩
      executed_taken := hstill _
      taken_worker := fun task w hmem => ?_ }
    rcases mem_append.mp hmem with hmem | hmem
    · exact hl.taken_worker task w hmem
    · simp at hmem
  | execute hmem hnew =>
    refine { hl with
      executed_distinct := hfresh hl.executed_distinct hnew
      executed_taken := fun task htask => ?_ }
    rcases mem_append.mp htask with htask | htask
    · exact hl.executed_taken task htask
    · cases mem_singleton.mp htask
      exact ⟨_, hmem⟩
  | shut hheld hclosed hempty =>
    exact { hl with sealed_empty := fun _ => ⟨hclosed, hempty⟩, exited_sealed := fun _ _ => rfl }
  | exit hheld hs => exact { hl with exited_sealed := fun _ _ => hs }

lemma Ledger.Sound.departed_inj {pool : Pool} {l : Ledger} (hl : l.Sound pool)
    {task : Nat} {d d' : Departure} (h : (task, d) ∈ l.departed) (h' : (task, d') ∈ l.departed) :
    d = d' := by
  have hnodup : (l.departed.map Prod.fst).Nodup := by
    have hdistinct := hl.distinct
    rw [hl.fifo] at hdistinct
    exact hdistinct.of_append_left
  exact congrArg Prod.snd (inj_on_of_nodup_map hnodup h h' rfl)

/-! ## Threads and the ledger -/

section Others

variable {pool : Pool} {t : PoolThread} {l l' : Ledger}

/-- Two threads do not hold the lock at once. -/
lemma holder_absurd {P : Prop} (hne : u ≠ t) (ht : l.holder = some t) (hu : l.holder = some u) :
    P := by
  rw [ht] at hu
  exact absurd (Option.some.inj hu).symm hne

lemma WorkerPhase.holdsLock_of_foundNothing {p : WorkerPhase} (h : p.foundNothing = true) :
    p.holdsLock = true := by
  cases p <;> first | rfl | cases h

lemma SubmitterPhase.holdsLock_of_foundOpen (h : p.foundOpen = true) : p.holdsLock = true := by
  cases p <;> first | rfl | cases h

lemma LedgerStep.workerAt {p : WorkerPhase} (h : LedgerStep pool t l l') (hne : .worker w ≠ t)
    (hl : l.Sound pool) (hlock : p.holdsLock = true → l.holder = some (.worker w))
    (hw : WorkerAt w p l) : WorkerAt w p l' := by
  cases h with
  | quiet => exact hw
  | acquire | release | close => exact { hw with }
  | push hheld _ _ _ =>
    refine { hw with empty := fun hfound => ?_ }
    exact holder_absurd hne hheld (hlock (WorkerPhase.holdsLock_of_foundNothing hfound))
  | take hheld _ _ =>
    refine ⟨fun hfound => ?_, hw.sealed, fun task htask => ?_, fun task htask => ?_, hw.ended⟩
    · exact holder_absurd hne hheld (hlock (WorkerPhase.holdsLock_of_foundNothing hfound))
    · exact ⟨mem_append_left _ (hw.holds task htask).1, (hw.holds task htask).2⟩
    · rcases mem_append.mp htask with htask | htask
      · exact hw.ran task htask
      · cases mem_singleton.mp htask
        exact absurd rfl hne
  | drain hheld =>
    refine ⟨fun _ => rfl, hw.sealed, fun task htask => ?_, fun task htask => ?_, hw.ended⟩
    · exact ⟨mem_append_left _ (hw.holds task htask).1, (hw.holds task htask).2⟩
    · rcases mem_append.mp htask with htask | htask
      · exact hw.ran task htask
      · simp at htask
  | execute hmem _ =>
    refine ⟨hw.empty, hw.sealed, fun task htask => ?_, fun task htask => ?_, hw.ended⟩
    · rcases hw.holds task htask with ⟨htaken, hnot⟩
      refine ⟨htaken, fun hin => ?_⟩
      rcases mem_append.mp hin with hin | hin
      · exact hnot hin
      cases mem_singleton.mp hin
      -- The same task would have left the queue to two workers.
      cases hl.departed_inj htaken hmem
      exact hne rfl
    · rcases hw.ran task htask with hran | hholds
      · exact .inl (mem_append_left _ hran)
      · exact .inr hholds
  | shut => exact { hw with sealed := fun _ => rfl }
  | exit =>
    refine { hw with ended := fun hin => ?_ }
    rcases mem_cons.mp hin with rfl | hin
    · exact absurd rfl hne
    · exact hw.ended hin

lemma LedgerStep.submitterAt {x : Nat} (h : LedgerStep pool t l l') (hne : .submitter x ≠ t)
    (hlock : p.holdsLock = true → l.holder = some (.submitter x)) (hx : SubmitterAt x p l) :
    SubmitterAt x p l' := by
  cases h with
  | quiet => exact hx
  | acquire | release | close | take | drain | execute | exit => exact { hx with }
  | push =>
    refine ⟨hx.unsealed, ?_⟩
    rw [← hx.accepted, mem_append, mem_singleton]
    constructor
    · rintro (hin | rfl)
      · exact hin
      · exact absurd rfl hne
    · exact .inl
  | shut hheld _ _ =>
    refine ⟨fun hfound => ?_, hx.accepted⟩
    exact holder_absurd hne hheld (hlock (SubmitterPhase.holdsLock_of_foundOpen hfound))

lemma LedgerStep.at {p : PoolPhase u} (h : LedgerStep pool t l l') (hne : u ≠ t)
    (hl : l.Sound pool) (hlock : PoolPhase.holdsLock u p = true → l.holder = some u)
    (hu : PoolPhase.At u p l) : PoolPhase.At u p l' := by
  cases u with
  | worker w => exact h.workerAt hne hl hlock hu
  | submitter x => exact h.submitterAt hne hlock hu
  | closer k | canceller k => trivial

end Others

section Own

variable {pool : Pool} {s : PoolState}

/-- Locking the queue tells a thread nothing about the tasks. -/
lemma acquire_at {t : PoolThread} {blocked entered : π} {A : π → Ledger → Prop}
    (hblocked : A blocked s.ledger)
    (hentered : A entered ({ s with holder := some t } : PoolState).ledger) :
    A (s.acquire t blocked entered).2 (s.acquire t blocked entered).1.ledger := by
  unfold PoolState.acquire
  split
  · exact hentered
  · exact hblocked

/-- A worker goes on with what it has in its hands. -/
lemma WorkerAt.goOn {p p' : WorkerPhase} {l l' : Ledger} (h : WorkerAt w p l) (hp : p ≠ .exited)
    (htask : p'.task? = p.task?) (hdeparted : l'.departed = l.departed)
    (hexecuted : l'.executed = l.executed) (hexited : l'.exited = l.exited)
    (hempty : p'.foundNothing = true → l'.queue = [])
    (hsealed : p' = .sawClosed → l'.sealed = true) : WorkerAt w p' l' where
  empty := hempty
  sealed := hsealed
  holds := by
    rw [htask, hdeparted, hexecuted]
    exact h.holds
  ran := by
    rw [htask, hdeparted, hexecuted]
    exact h.ran
  ended := by
    rw [hexited]
    exact fun hin => absurd (h.ended hin) hp

/-- The first task of the queue has not been run. -/
lemma Ledger.Sound.head_new {l : Ledger} {task : Nat} {rest : List Nat} (hl : l.Sound pool)
    (hqueue : l.queue = task :: rest) : task ∉ l.executed := by
  intro hin
  rcases hl.executed_taken task hin with ⟨w, hmem⟩
  have hdistinct := hl.distinct
  rw [hl.fifo, hqueue] at hdistinct
  exact (nodup_append.mp hdistinct).2.2 task (mem_map_of_mem hmem) task
    mem_cons_self rfl

lemma poolWorker_at {input : WorkerInput} {p : WorkerPhase} (hl : s.ledger.Sound pool)
    (hp : WorkerAt w p s.ledger) :
    WorkerAt w (poolWorker w input s p).2 (poolWorker w input s p).1.ledger := by
  have hnot : ∀ {b : Bool} {P : Prop}, b = false → b = true → P := by
    rintro _ _ rfl h
    cases h
  cases input with
  | spurious => cases p <;> exact { hp with }
  | go pick => ?_
  cases p with
  | outside => exact acquire_at hp (hp.goOn (by decide) rfl rfl rfl rfl (hnot rfl) (by rintro ⟨⟩))
  | inside =>
    unfold poolWorker
    dsimp only
    split
    · next hqueue => exact hp.goOn (by decide) rfl rfl rfl rfl (fun _ => hqueue) (by rintro ⟨⟩)
    rename_i task rest hqueue
    refine ⟨hnot rfl, (by rintro ⟨⟩), fun task' htask => ?_, fun task' htask => ?_,
      fun hin => absurd (hp.ended hin) (by decide)⟩
    · cases htask
      exact ⟨mem_append_right _ mem_cons_self, hl.head_new hqueue⟩
    · rcases mem_append.mp htask with htask | htask
      · exact .inl ((hp.ran task' htask).resolve_right (by rintro ⟨⟩))
      · cases mem_singleton.mp htask
        exact .inr rfl
  | sawEmpty =>
    unfold poolWorker
    dsimp only
    split
    · exact hp.goOn (by decide) rfl rfl rfl rfl (hnot rfl) (fun _ => rfl)
    · exact hp.goOn (by decide) rfl rfl rfl rfl (fun _ => hp.empty rfl) (by rintro ⟨⟩)
  | waiting =>
    unfold poolWorker
    dsimp only
    split
    · exact hp
    · exact acquire_at hp (hp.goOn (by decide) rfl rfl rfl rfl (hnot rfl) (by rintro ⟨⟩))
  | sawOpen => exact hp.goOn (by decide) rfl rfl rfl rfl (hnot rfl) (by rintro ⟨⟩)
  | sawClosed => exact ⟨hnot rfl, (by rintro ⟨⟩), (by rintro _ ⟨⟩), hp.ran, fun _ => rfl⟩
  | told task | took task => exact hp.goOn (by rintro ⟨⟩) rfl rfl rfl rfl (hnot rfl) (by rintro ⟨⟩)
  | running task =>
    refine ⟨hnot rfl, (by rintro ⟨⟩), (by rintro _ ⟨⟩), fun task' htask => .inl ?_,
      fun hin => absurd (hp.ended hin) (by rintro ⟨⟩)⟩
    rcases hp.ran task' htask with hran | hholds
    · exact mem_append_left _ hran
    · cases hholds
      exact mem_append_right _ mem_cons_self
  | exited => exact hp

/-- A submission goes on without a change to the tasks. -/
lemma SubmitterAt.goOn {x : Nat} {p' : SubmitterPhase} {l l' : Ledger} (h : SubmitterAt x p l)
    (hphase : p'.accepted = p.accepted) (haccepted : l'.accepted = l.accepted)
    (hopen : p'.foundOpen = true → l'.sealed = false) : SubmitterAt x p' l' where
  unsealed := hopen
  accepted := by
    rw [haccepted, hphase]
    exact h.accepted

lemma poolEnqueue_at {x : Nat} (hl : s.ledger.Sound pool) (hp : SubmitterAt x p s.ledger) :
    SubmitterAt x (poolEnqueue pool x input s p).2 (poolEnqueue pool x input s p).1.ledger := by
  have hnot : ∀ {P : Prop}, false = true → P := by rintro _ ⟨⟩
  unfold poolEnqueue
  split
  · split <;> exact hp.goOn rfl rfl hnot
  · exact acquire_at hp (hp.goOn rfl rfl hnot)
  · split
    · exact hp.goOn rfl rfl hnot
    rename_i hclosed
    refine hp.goOn rfl rfl fun _ => ?_
    by_contra hsealed
    exact hclosed (hl.sealed_empty (Bool.eq_true_of_not_eq_false hsealed)).1
  · split
    · refine ⟨hnot, ?_⟩
      exact iff_of_true (mem_append_right _ mem_cons_self) rfl
    · exact hp.goOn rfl rfl hnot
  · split <;> exact hp.goOn rfl rfl hnot
  · split
    · exact hp
    · exact acquire_at hp (hp.goOn rfl rfl hnot)
  · exact hp.goOn rfl rfl hnot
  · split
    · exact hp.goOn rfl rfl hnot
    · exact hp
  · split <;> exact hp.goOn rfl rfl hnot
  · exact hp.goOn rfl rfl hnot
  · next result => exact hp.goOn (by rcases result with _ | _ | _ <;> rfl) rfl hnot
  · exact hp

lemma poolMove_at {t : PoolThread} {input : PoolInput t} {p : PoolPhase t}
    (hl : s.ledger.Sound pool) (hp : PoolPhase.At t p s.ledger) :
    PoolPhase.At t (poolMove pool t input s p).2 (poolMove pool t input s p).1.ledger := by
  cases t with
  | worker w =>
    rw [poolMove_worker]
    split
    · exact poolWorker_at hl hp
    · exact hp
  | submitter x => exact poolEnqueue_at hl hp
  | closer k | canceller k => trivial

end Own

/-- The ledger is sound and every thread knows what it needs of it. -/
def ledgerOutline (pool : Pool) : Outline (poolProgram pool) where
  shared := fun s => s.ledger.Sound pool
  here := fun t p s => PoolPhase.At t p s.ledger

/-- The threads of a pool take steps of its ledger. -/
theorem ledgerOutline_valid (pool : Pool) (Allowed : PoolEvent pool → Prop) :
    Outline.Valid Allowed (lockOutline pool) (ledgerOutline pool) where
  own := by
    intro t i s p _ _ hlock hl hp
    exact ⟨((poolMove_steps hlock).ledger hp).sound hl, poolMove_at hl hp⟩
  other := by
    intro t u i s p q _ hne _ hlock hlock' hl hp hq
    exact ((poolMove_steps hlock).ledger hp).at hne hl hlock' hq

/-! ## Every interleaving -/

lemma start_locks (pool : Pool) : (lockOutline pool).Holds pool.start := by
  refine ⟨trivial, fun t h => ?_⟩
  cases t <;> cases h

lemma start_ledger (pool : Pool) : (ledgerOutline pool).Holds pool.start := by
  constructor
  · exact
      { within := Nat.zero_le _
        fifo := rfl
        distinct := nodup_nil
        sealed_empty := by rintro ⟨⟩
        executed_distinct := nodup_nil
        executed_taken := by rintro _ ⟨⟩
        taken_worker := by rintro _ _ ⟨⟩
        exited_sealed := by rintro _ ⟨⟩ }
  · intro t
    cases t with
    | worker w =>
      exact ⟨(by rintro ⟨⟩), (by rintro ⟨⟩), (by rintro _ ⟨⟩), (by rintro _ ⟨⟩), (by rintro ⟨⟩)⟩
    | submitter x => exact ⟨(by rintro ⟨⟩), iff_of_false (by rintro ⟨⟩) (by rintro ⟨⟩)⟩
    | closer k | canceller k => trivial

/-- Both outlines, from any state in which they hold. -/
lemma ledger_run {pool : Pool} {c : Config (poolProgram pool)}
    (hlocks : (lockOutline pool).Holds c) (hledger : (ledgerOutline pool).Holds c)
    (events : List (PoolEvent pool)) :
    (lockOutline pool).Holds (Machine.run (step (poolProgram pool)) c events) ∧
      (ledgerOutline pool).Holds (Machine.run (step (poolProgram pool)) c events) := by
  have hvalid : Outline.Valid (fun _ => True) .top ((lockOutline pool).and (ledgerOutline pool)) :=
    (lockOutline_valid pool _).and (ledgerOutline_valid pool _)
  exact Outline.and_holds.mp
    (hvalid.run (Outline.and_holds.mpr ⟨hlocks, hledger⟩) fun _ _ => trivial)

lemma pool_ledger (pool : Pool) (events : List (PoolEvent pool)) :
    (lockOutline pool).Holds (pool.run events) ∧ (ledgerOutline pool).Holds (pool.run events) :=
  ledger_run (start_locks pool) (start_ledger pool) events

/-- Nothing is accepted once a worker has seen that the pool is closed. -/
lemma LedgerStep.sealed_accepted {pool : Pool} {t : PoolThread} {l l' : Ledger}
    (h : LedgerStep pool t l l') (hsealed : l.sealed = true) :
    l'.sealed = true ∧ l'.accepted = l.accepted := by
  cases h with
  | push _ hopen _ _ =>
    rw [hopen] at hsealed
    cases hsealed
  | shut => exact ⟨rfl, rfl⟩
  | quiet | acquire | release | close | take | drain | execute | exit => exact ⟨hsealed, rfl⟩

lemma sealed_run {pool : Pool} {c : Config (poolProgram pool)}
    (hlocks : (lockOutline pool).Holds c) (hledger : (ledgerOutline pool).Holds c)
    (hsealed : c.shared.sealed = true) (events : List (PoolEvent pool)) :
    (Machine.run (step (poolProgram pool)) c events).shared.accepted = c.shared.accepted := by
  induction events generalizing c with
  | nil => rfl
  | cons e events ih => ?_
  have hstep : LedgerStep pool e.1 c.shared.ledger
      (step (poolProgram pool) c e).shared.ledger :=
    (poolMove_steps (hlocks.2 e.1)).ledger (hledger.2 e.1)
  rcases hstep.sealed_accepted hsealed with ⟨hsealed', haccepted⟩
  rcases ledger_run hlocks hledger [e] with ⟨hlocks', hledger'⟩
  exact (ih hlocks' hledger' hsealed').trans haccepted

/-- The tasks that were cancelled. -/
def PoolState.cancelled (s : PoolState) : List Nat :=
  (s.departed.filter fun d => d.2 = .cancelled).map Prod.fst

section Fates

variable {pool : Pool} {s : PoolState} {x : Nat}

lemma mem_cancelled : x ∈ s.cancelled ↔ (x, .cancelled) ∈ s.departed := by
  simp [PoolState.cancelled]

lemma executed_count_add_cancelled_count_le (hl : s.ledger.Sound pool) :
    s.executed.count x + s.cancelled.count x ≤ 1 := by
  have hdeparted : (s.departed.map Prod.fst).Nodup := by
    have hdistinct := hl.distinct
    rw [hl.fifo] at hdistinct
    exact hdistinct.of_append_left
  have hcancelled : s.cancelled.Nodup := hdeparted.sublist (filter_sublist.map Prod.fst)
  have hrun : s.executed.count x ≤ 1 := nodup_iff_count_le_one.mp hl.executed_distinct x
  have hcancel : s.cancelled.count x ≤ 1 := nodup_iff_count_le_one.mp hcancelled x
  by_cases hin : x ∈ s.executed
  · -- A task that was run left the queue to a worker.
    have hnot : x ∉ s.cancelled := by
      intro hc
      rcases hl.executed_taken x hin with ⟨w, hw⟩
      cases hl.departed_inj hw (mem_cancelled.mp hc)
    rw [count_eq_zero_of_not_mem hnot]
    exact hrun
  · rw [count_eq_zero_of_not_mem hin, Nat.zero_add]
    exact hcancel

/-- When all workers have ended, every accepted task was run or cancelled. -/
lemma accepted_fate {c : Config (poolProgram pool)} (hledger : (ledgerOutline pool).Holds c)
    (hexited : ∀ w < pool.workers, w ∈ c.shared.exited) (hx : x ∈ c.shared.accepted) :
    x ∈ c.shared.executed ∨ x ∈ c.shared.cancelled := by
  have hl := hledger.1
  have hsealed := hl.exited_sealed 0 (hexited 0 pool.workers_range.1)
  have hqueue : c.shared.queue = [] := (hl.sealed_empty hsealed).2
  have hfifo : c.shared.accepted = c.shared.departed.map Prod.fst ++ c.shared.queue := hl.fifo
  rw [hfifo, hqueue, append_nil] at hx
  rcases mem_map.mp hx with ⟨⟨task, d⟩, hmem, rfl⟩
  cases d with
  | cancelled => exact .inr (mem_cancelled.mpr hmem)
  | taken w => ?_
  left
  have hat : WorkerAt w (workerPhase c w) c.shared.ledger := hledger.2 (.worker w)
  have hend := hat.ended (hexited w (hl.taken_worker task w hmem))
  rcases hat.ran task hmem with hran | hholds
  · exact hran
  · rw [hend] at hholds
    cases hholds

end Fates

/-- In every interleaving: an accepted task is run or cancelled at most once and not both,
and exactly once when all workers have ended; the queue keeps to its capacity; tasks leave
it in the order in which they were accepted; and none is accepted once a worker has
ended. -/
theorem pool_contract (pool : Pool) (events : List (PoolEvent pool)) :
    (∀ x, submitterPhase (pool.run events) x = .returned (.ok true) →
      x ∈ (pool.run events).shared.accepted) ∧
    (∀ x ∈ (pool.run events).shared.accepted,
      (pool.run events).shared.executed.count x + (pool.run events).shared.cancelled.count x ≤ 1 ∧
      ((∀ w < pool.workers, w ∈ (pool.run events).shared.exited) →
        (pool.run events).shared.executed.count x +
          (pool.run events).shared.cancelled.count x = 1)) ∧
    (pool.run events).shared.queue.length ≤ pool.queueCapacity ∧ (pool.run events).shared.accepted =
      (pool.run events).shared.departed.map Prod.fst ++ (pool.run events).shared.queue ∧
    (∀ w ∈ (pool.run events).shared.exited, ∀ more,
      (pool.run (events ++ more)).shared.accepted = (pool.run events).shared.accepted) := by
  rcases pool_ledger pool events with ⟨hlocks, hledger⟩
  have hl := hledger.1
  refine ⟨fun x hx => ?_, fun x hx => ⟨executed_count_add_cancelled_count_le hl, fun hexited => ?_⟩,
    hl.within, hl.fifo, fun w hw more => ?_⟩
  · have hat : SubmitterAt x (submitterPhase (pool.run events) x) (pool.run events).shared.ledger :=
      hledger.2 (.submitter x)
    apply hat.accepted.mpr
    rw [hx]
    rfl
  · have hle := executed_count_add_cancelled_count_le (x := x) hl
    rcases accepted_fate hledger hexited hx with hin | hin
    all_goals
      have := count_pos_iff.mpr hin
      omega
  · have hrun : pool.run (events ++ more) =
        Machine.run (step (poolProgram pool)) (pool.run events) more :=
      foldl_append
    rw [hrun]
    exact sealed_run hlocks hledger (hl.exited_sealed w hw) more

/-- In every interleaving one thread at most is in a section of the queue, what was run was
taken by a worker of the pool, and a worker has ended only if the pool is closed and nothing
is left in the queue. -/
theorem workers_end_last (pool : Pool) (events : List (PoolEvent pool)) :
    let c := pool.run events
    (∀ t u, PoolPhase.holdsLock t (c.phase t) = true → PoolPhase.holdsLock u (c.phase u) = true →
      t = u) ∧
    (∀ x ∈ c.shared.executed, ∃ w < pool.workers, (x, .taken w) ∈ c.shared.departed) ∧
    ∀ w ∈ c.shared.exited, c.shared.closed = true ∧ c.shared.queue = [] := by
  intro c
  rcases pool_ledger pool events with ⟨hlocks, hledger⟩
  have hl := hledger.1
  refine ⟨fun t u ht hu => ?_, fun x hx => ?_, fun w hw => hl.sealed_empty (hl.exited_sealed w hw)⟩
  · exact Option.some.inj ((hlocks.2 t ht).symm.trans (hlocks.2 u hu))
  · obtain ⟨w, htaken⟩ := hl.executed_taken x hx
    exact ⟨w, hl.taken_worker x w htaken, htaken⟩

/-! ## One worker -/

/-- One worker and one place in the queue. -/
def smallPool : Pool where
  kind := .worker
  workers := 1
  queueCapacity := 1
  workers_range := by decide
  queueCapacity_range := by decide

-- A task is submitted and run, then the pool is closed.
example : (smallPool.run
      ([.submit 7 none, .submitter 7, .submitter 7, .submitter 7, .submitter 7, .submitter 7,
        .worker 0 0, .worker 0 0, .close 0 false, .closer 0, .worker 0 0, .worker 0 0, .worker 0 0,
        .worker 0 0, .worker 0 0, .worker 0 0, .worker 0 0])).shared.executed = [7] := by
  decide

end MuxRuntime.Sync
