import MuxRuntime.Sync.Pool

/-!
# Semaphores

A semaphore has permits behind a lock, and a condition on which acquirers wait for one.
A step below is a section under the lock: a call up to its return or its wait, or what
follows a wait up to the next return or wait.
-/

namespace MuxRuntime.Sync

open List Interleaving

/-- What the threads share. -/
structure SemaphoreState where
  permits : Nat
  /-- The acquirers that wait and have not been notified. -/
  wake : List Nat
  /-- The acquirers that have been notified and have not locked the state since. -/
  notified : List Nat
  /-- History: acquisitions that succeeded. -/
  acquired : Nat
  /-- History: releases that succeeded. -/
  released : Nat

inductive SemaphorePhase where
  /-- Between calls, with the result of the last one; a unit is `true`. -/
  | returned (result : Except String Bool)
  | waiting (timed : Bool)

namespace SemaphoreState

/-- Take a permit; without one give up, if the time has passed, or wait. -/
def acquire (s : SemaphoreState) (t : Nat) (timed expired : Bool) :
    SemaphoreState × SemaphorePhase :=
  if s.permits = 0 then
    if timed && expired then (s, .returned (.ok false))
    else ({ s with wake := s.wake ++ [t] }, .waiting timed)
  else ({ s with permits := s.permits - 1, acquired := s.acquired + 1 }, .returned (.ok true))

/-- Add a permit and notify one of the acquirers that wait, if there are any. -/
def release (s : SemaphoreState) (pick : Nat) : SemaphoreState :=
  let s := { s with permits := s.permits + 1, released := s.released + 1 }
  match s.wake[pick % s.wake.length]? with
  | none => s
  | some t => { s with wake := rouse s.wake t, notified := t :: s.notified }

/-- The threads that wait for the condition or for the lock after it. -/
def queue (s : SemaphoreState) : List Nat :=
  s.wake ++ s.notified

end SemaphoreState

/-- Permits are counted; while acquirers wait, all permits but `slack` are announced. -/
structure SemaphoreState.Sound (max slack : Nat) (s : SemaphoreState) : Prop where
  le_max : s.permits ≤ max
  count : s.permits + s.acquired = max + s.released
  nodup : s.queue.Nodup
  owed : s.wake ≠ [] → s.permits ≤ s.notified.length + slack

/-- A thread between calls waits for nothing. -/
def SemaphorePhase.At (t : Nat) (p : SemaphorePhase) (s : SemaphoreState) : Prop :=
  (∃ result, p = .returned result) → t ∉ s.queue

/-- A step of a thread is sound and makes no other thread wait. -/
structure SemaphoreState.Moved (max t : Nat) (s : SemaphoreState)
    (next : SemaphoreState × SemaphorePhase) : Prop where
  sound : next.1.Sound max 0
  here : next.2.At t next.1
  others : ∀ u ≠ t, u ∈ next.1.queue → u ∈ s.queue

variable {max t : Nat} {s : SemaphoreState}

namespace SemaphoreState

lemma Sound.acquire (h : s.Sound max 1) (ht : t ∉ s.queue) (timed expired : Bool) :
    Moved max t s (s.acquire t timed expired) := by
  have hcount := h.count
  have hle := h.le_max
  unfold SemaphoreState.acquire
  split_ifs with hnone
  · exact ⟨⟨hle, hcount, h.nodup, fun _ => by simp [hnone]⟩, fun _ => ht, fun _ _ hmem => hmem⟩
  · refine ⟨⟨hle, hcount, ?_, fun _ => by simp [hnone]⟩, by rintro ⟨_, ⟨⟩⟩, fun u hu hmem => ?_⟩
    · rw [queue, append_assoc, singleton_append, nodup_middle, nodup_cons]
      exact ⟨ht, h.nodup⟩
    · simpa [queue, hu] using hmem
  · refine ⟨⟨?_, ?_, h.nodup, fun hwake => ?_⟩, fun _ => ht, fun _ _ hmem => hmem⟩
    · exact (Nat.sub_le _ _).trans hle
    · dsimp only
      omega
    · have howed := h.owed hwake
      dsimp only
      omega

lemma Sound.release (h : s.Sound max 0) (ht : t ∉ s.queue) (hmax : s.permits ≠ max)
    (pick : Nat) : Moved max t s (s.release pick, .returned (.ok true)) := by
  have hcount : s.permits + 1 + s.acquired = max + (s.released + 1) := by
    rw [add_right_comm, h.count, add_assoc]
  have hle := Nat.succ_le_of_lt (lt_of_le_of_ne h.le_max hmax)
  unfold SemaphoreState.release
  dsimp only
  split
  · next hnone =>
    refine ⟨⟨hle, hcount, h.nodup, fun hwake => ?_⟩, fun _ => ht, fun _ _ hmem => hmem⟩
    have hlt := Nat.mod_lt pick (length_pos_iff.mpr hwake)
    exact absurd (getElem?_eq_none_iff.mp hnone) (not_le.mpr hlt)
  · next u hu =>
    have hmem := mem_of_getElem? hu
    have hsubset : rouse s.wake u ++ u :: s.notified ⊆ s.queue :=
      append_subset.mpr ⟨subset_append_of_subset_left _ rouse_subset,
        cons_subset.mpr ⟨mem_append_left _ hmem, subset_append_right _ _⟩⟩
    refine ⟨⟨hle, hcount, nodup_middle.mpr (nodup_cons.mpr ⟨?_, ?_⟩), fun _ => ?_⟩,
      fun _ hin => ht (hsubset hin), fun _ _ hin => hsubset hin⟩
    · have hapart := (nodup_append.mp h.nodup).2.2 u hmem u
      simpa [rouse] using hapart
    · exact h.nodup.sublist (filter_sublist.append_right _)
    · exact Nat.succ_le_succ (h.owed (ne_nil_of_mem hmem))

end SemaphoreState

open SemaphoreState

end MuxRuntime.Sync
