import MuxRuntime.Foundations.Machine
import MuxRuntime.Stream.Entries

/-!
# Reading with a limit and a copy

A read takes what it returns off the reader first: it moves the position and lowers the limit.
Only then it writes the copy. When the copy fails the read fails too, and what it has taken
is lost.
-/

namespace MuxRuntime.Stream

open List

/-- A reader, and the writers by their slots. A reader holds the slot of the writer it copies
to, so that the writer is there even when it is closed. -/
structure State where
  reader : ReaderEntry
  writers : Nat → WriterEntry

/-! ## The calls -/

/-- How much a read may bring. -/
def readSize (reader : ReaderEntry) (requested : Nat) : Nat :=
  match reader.remainingLimit with
  | some remaining => min remaining (min requested maxStreamBytes)
  | none => min requested maxStreamBytes

/-- The bytes of one read, from the buffer or from the device. -/
def fetch (reader : ReaderEntry) (size : Nat) (device : Except String (List UInt8)) :
    Except String (List UInt8) :=
  match reader.device with
  | none => .ok ((reader.data.drop reader.position).take size)
  | some (.standard .stdin) =>
    (device.mapError ("standard stream read failed: " ++ ·)).map (List.take size)
  | some (.standard _) => .error "standard output streams are not readable"
  | some .file => (device.mapError ("file reader read failed: " ++ ·)).map (List.take size)
  | some .socket => (device.mapError ("socket reader read failed: " ++ ·)).map (List.take size)

/-- The reader after bytes were taken from it. -/
def ReaderEntry.advance (reader : ReaderEntry) (bytes : List UInt8) : ReaderEntry :=
  { reader with
    position := reader.position + bytes.length
    remainingLimit := reader.remainingLimit.map (· - bytes.length) }

def readerReadUpTo (s : State) (requested : Nat) (device : Except String (List UInt8))
    (outcome : DeviceWrite) : Except String (List UInt8) × State :=
  if readSize s.reader requested = 0 then (.ok [], s)
  else
    match fetch s.reader (readSize s.reader requested) device with
    | .error e => (.error e, s)
    | .ok bytes =>
      -- the bytes are off the reader before they are copied
      match s.reader.teeWriter with
      | none => (.ok bytes, { s with reader := s.reader.advance bytes })
      | some slot =>
        if bytes.isEmpty then (.ok bytes, { s with reader := s.reader.advance bytes })
        else
          match writeWriterSlot (s.writers slot) bytes outcome with
          | (copied, writer) =>
            (copied.map fun _ => bytes,
              { reader := s.reader.advance bytes
                writers := Function.update s.writers slot writer })

/-- The calls on a reader. -/
inductive Call where
  /-- A read of some size; the devices of the reader and of the writer do as given. -/
  | read (size : Int) (device : Except String (List UInt8)) (outcome : DeviceWrite)
  | limit (limit : Int)
  | tee (slot : Nat)
  | untee
  /-- A write to a writer that does not come from the reader. -/
  | write (slot : Nat) (bytes : List UInt8) (outcome : DeviceWrite)

/-- A read, with its copy. -/
def readerRead (s : State) (size : Int) (device : Except String (List UInt8))
    (outcome : DeviceWrite) : Except String (List UInt8) × State :=
  if 0 ≤ size ∧ size ≤ maxStreamBytes then readerReadUpTo s size.toNat device outcome
  else (.error "read size must be between 0 and 16 MiB", s)

def readerLimit (s : State) (limit : Int) : Except String Unit × State :=
  if 0 ≤ limit ∧ limit ≤ maxStreamBytes then
    (.ok (), { s with reader := { s.reader with remainingLimit := some limit.toNat } })
  else (.error "reader limit must be between 0 and 16 MiB", s)

def readerTee (s : State) (slot : Nat) : State :=
  { s with reader := { s.reader with teeWriter := some slot } }

def readerUntee (s : State) : State :=
  { s with reader := { s.reader with teeWriter := none } }

def step (s : State) : Call → State
  | .read size device outcome => (readerRead s size device outcome).2
  | .limit limit => (readerLimit s limit).2
  | .tee slot => readerTee s slot
  | .untee => readerUntee s
  | .write slot bytes outcome =>
    { s with
      writers := Function.update s.writers slot (writeWriterSlot (s.writers slot) bytes outcome).2 }

/-- The bytes that a call returns; a failed call returns none. -/
def Call.returned (s : State) : Call → List UInt8
  | .read size device outcome =>
    match (readerRead s size device outcome).1 with
    | .ok bytes => bytes
    | .error _ => []
  | _ => []

/-- The bytes that the successful reads of a run return, one after the other. -/
def returned (s : State) : List Call → List UInt8
  | [] => []
  | call :: rest => call.returned s ++ returned (step s call) rest

abbrev run (s : State) (calls : List Call) : State :=
  Machine.run step s calls

/-! ## What is asked of a call -/

/-- The writers after the copy of some bytes; a copy of no bytes is not made. -/
def State.copied (s : State) (bytes : List UInt8) : Nat → WriterEntry :=
  match s.reader.teeWriter with
  | none => s.writers
  | some slot =>
    if bytes.isEmpty then s.writers
    else Function.update s.writers slot ((s.writers slot).written bytes)

/-- A failed read changes nothing, and the bytes of a successful one are what the writer
gets. -/
def Clean (s : State) : Call → Prop
  | .read size device outcome =>
    match (readerRead s size device outcome).1 with
    | .ok bytes => (step s (.read size device outcome)).writers = s.copied bytes
    | .error _ => step s (.read size device outcome) = s
  | _ => True

/-- The property of a run: what was returned is the buffer up to the position, at every point,
and every call is clean. -/
structure Faithful (s : State) (calls : List Call) : Prop where
  returned : ∀ before after, calls = before ++ after →
    returned s before = s.reader.data.take (run s before).reader.position
  clean : Machine.Always step Clean s calls

/-- The bytes that a read takes off a buffer in memory. -/
def State.taken (s : State) (size : Int) : List UInt8 :=
  if 0 ≤ size ∧ size ≤ maxStreamBytes then
    (s.reader.data.drop s.reader.position).take (readSize s.reader size.toNat)
  else []

/-- The copy of a read, if there is one to be made, is accepted by its writer. -/
def CopyAccepted (s : State) : Call → Prop
  | .read size _ outcome => ∀ slot, s.reader.teeWriter = some slot → s.taken size ≠ [] →
      Accepts (s.writers slot) (s.taken size) outcome
  | _ => True

/-! ## One read -/

/-- What a read of a buffer in memory comes to. -/
inductive Read (s : State) (size : Int) (outcome : DeviceWrite) :
    Except String (List UInt8) × State → Prop where
  | refused (e : String) (hnone : s.taken size = []) : Read s size outcome (.error e, s)
  | quiet (hquiet : s.reader.teeWriter = none ∨ s.taken size = []) : Read s size outcome
        (.ok (s.taken size), { s with reader := s.reader.advance (s.taken size) })
  | copied (slot : Nat) (htee : s.reader.teeWriter = some slot) (hsome : s.taken size ≠ []) :
      Read s size outcome
        ((writeWriterSlot (s.writers slot) (s.taken size) outcome).1.map fun _ => s.taken size,
          { reader := s.reader.advance (s.taken size)
            writers := Function.update s.writers slot
              (writeWriterSlot (s.writers slot) (s.taken size) outcome).2 })

@[simp]
lemma ReaderEntry.advance_nil (reader : ReaderEntry) : reader.advance [] = reader := by
  simp [ReaderEntry.advance]

variable {s : State}

lemma readerRead_read (hmemory : s.reader.device = none) (size : Int)
    (device : Except String (List UInt8)) (outcome : DeviceWrite) :
    Read s size outcome (readerRead s size device outcome) := by
  unfold readerRead
  by_cases hsize : 0 ≤ size ∧ size ≤ maxStreamBytes
  case neg =>
    rw [if_neg hsize]
    exact .refused _ (if_neg hsize)
  case pos =>
    have htaken : s.taken size =
        (s.reader.data.drop s.reader.position).take (readSize s.reader size.toNat) :=
      if_pos hsize
    rw [if_pos hsize]
    unfold readerReadUpTo
    by_cases hzero : readSize s.reader size.toNat = 0
    case pos =>
      rw [hzero, take_zero] at htaken
      have hquiet : Read s size outcome _ := .quiet (.inr htaken)
      simpa [hzero, htaken] using hquiet
    case neg =>
      have hfetch : fetch s.reader (readSize s.reader size.toNat) device = .ok (s.taken size) := by
        rw [htaken, fetch, hmemory]
      rw [if_neg hzero, hfetch]
      rcases htee : s.reader.teeWriter with _ | slot
      · exact .quiet (.inl htee)
      by_cases hempty : s.taken size = []
      case pos =>
        simp only [hempty, isEmpty_nil, if_true]
        have hquiet : Read s size outcome _ := .quiet (.inr hempty)
        rwa [hempty] at hquiet
      case neg =>
        have hisEmpty : (s.taken size).isEmpty = false := by simpa using hempty
        simp only [hisEmpty, Bool.false_eq_true, if_false]
        exact .copied slot htee hempty

/-- A reader that takes bytes is another reader. -/
lemma ReaderEntry.advance_ne {bytes : List UInt8} (reader : ReaderEntry) (h : bytes ≠ []) :
    reader.advance bytes ≠ reader := by
  intro heq
  have hlength := length_pos_iff.mpr h
  have hposition := congrArg ReaderEntry.position heq
  change reader.position + bytes.length = reader.position at hposition
  omega

/-- A read is clean exactly if its copy is accepted. -/
lemma clean_iff (hmemory : s.reader.device = none) (call : Call) :
    Clean s call ↔ CopyAccepted s call := by
  cases call with
  | read size device outcome =>
    have hread := readerRead_read hmemory size device outcome
    simp only [Clean, CopyAccepted, step]
    generalize readerRead s size device outcome = result at hread
    cases hread with
    | refused e hnone => simp [hnone]
    | quiet hquiet =>
      simp only [State.copied]
      rcases hquiet with htee | hnone
      · simp [htee]
      · cases s.reader.teeWriter <;> simp [hnone]
    | copied slot htee hsome => ?_
    have hisEmpty : (s.taken size).isEmpty = false := by simpa using hsome
    have haccepts : (∀ other, s.reader.teeWriter = some other → s.taken size ≠ [] →
        Accepts (s.writers other) (s.taken size) outcome) ↔
        Accepts (s.writers slot) (s.taken size) outcome := by
      constructor
      · intro h
        exact h slot htee hsome
      · intro h other hother _
        rw [htee] at hother
        cases hother
        exact h
    rw [haccepts, ← writeWriterSlot_eq_ok_iff]
    cases hwrite : (writeWriterSlot (s.writers slot) (s.taken size) outcome).1 with
    | error e =>
      refine iff_of_false ?_ nofun
      intro heq
      exact s.reader.advance_ne hsome (congrArg State.reader heq)
    | ok _ =>
      have hwritten := writeWriterSlot_written hwrite
      simp [Except.map, State.copied, htee, hisEmpty, hwritten]
  | _ => exact Iff.rfl

/-! ## Runs -/

/-- No call changes the buffer or gives the reader a device. -/
lemma step_buffer (hmemory : s.reader.device = none) (call : Call) :
    (step s call).reader.device = none ∧ (step s call).reader.data = s.reader.data := by
  cases call with
  | read size device outcome =>
    have hread := readerRead_read hmemory size device outcome
    simp only [step]
    generalize readerRead s size device outcome = result at hread
    cases hread with
    | refused | quiet | copied => exact ⟨hmemory, rfl⟩
  | limit limit =>
    simp only [step, readerLimit]
    split <;> exact ⟨hmemory, rfl⟩
  | tee slot | untee | write slot bytes outcome => exact ⟨hmemory, rfl⟩

lemma taken_starts (s : State) (size : Int) :
    s.taken size <+: s.reader.data.drop s.reader.position := by
  unfold State.taken
  split
  · exact take_prefix _ _
  · exact List.nil_prefix

/-- A clean call returns what comes next in the buffer and moves the position behind it. -/
lemma step_returned (hmemory : s.reader.device = none) (call : Call)
    (haccepted : CopyAccepted s call) : call.returned s <+: s.reader.data.drop s.reader.position ∧
      (step s call).reader.position = s.reader.position + (call.returned s).length := by
  cases call with
  | read size device outcome =>
    have hread := readerRead_read hmemory size device outcome
    simp only [Call.returned, step]
    generalize readerRead s size device outcome = result at hread
    cases hread with
    | refused => exact ⟨List.nil_prefix, rfl⟩
    | quiet => exact ⟨taken_starts s size, rfl⟩
    | copied slot htee hsome =>
      have hok := writeWriterSlot_eq_ok_iff.mpr (haccepted slot htee hsome)
      rw [hok]
      exact ⟨taken_starts s size, rfl⟩
  | limit limit =>
    refine ⟨List.nil_prefix, ?_⟩
    simp only [step, readerLimit]
    split <;> rfl
  | tee slot | untee | write slot bytes outcome => exact ⟨List.nil_prefix, rfl⟩

lemma run_returned (hmemory : s.reader.device = none) (calls : List Call)
    (haccepted : Machine.Always step CopyAccepted s calls) :
    returned s calls <+: s.reader.data.drop s.reader.position ∧
      (run s calls).reader.position = s.reader.position + (returned s calls).length := by
  induction calls generalizing s with
  | nil => exact ⟨List.nil_prefix, rfl⟩
  | cons call rest ih => ?_
  have hbuffer := step_buffer hmemory call
  have hfirst := step_returned hmemory call haccepted.1
  have hrest := ih hbuffer.1 haccepted.2
  rw [hbuffer.2, hfirst.2, ← drop_drop] at hrest
  refine ⟨?_, ?_⟩
  · -- the first bytes and then a prefix of what is left after them
    rw [returned, ← prefix_iff_eq_append.mp hfirst.1]
    exact prefix_append_right_inj _ |>.mpr hrest.1
  · rw [returned, length_append, ← Nat.add_assoc]
    exact hrest.2

/-- A run of a reader over a buffer in memory returns the buffer up to the position, with
failed reads that take nothing and with copies of just what was returned, if and only if every
copy that it has to make is accepted by the writer. -/
theorem reads_are_faithful_iff (s : State) (hmemory : s.reader.device = none)
    (hstart : s.reader.position = 0) (calls : List Call) :
    Faithful s calls ↔ Machine.Always step CopyAccepted s calls := by
  have hkeeps : ∀ (s : State) (call : Call), s.reader.device = none → CopyAccepted s call →
      (step s call).reader.device = none :=
    fun s call hs _ => (step_buffer hs call).1
  have hclean : Machine.Always step Clean s calls ↔ Machine.Always step CopyAccepted s calls :=
    Machine.always_iff hkeeps hmemory (fun s call hs => clean_iff hs call)
  constructor
  · intro h
    exact hclean.mp h.clean
  intro h
  refine ⟨?_, hclean.mpr h⟩
  intro before after hcalls
  rw [hcalls, Machine.always_append] at h
  have hreturned := run_returned hmemory before h.1
  rw [hstart, drop_zero, Nat.zero_add] at hreturned
  rw [hreturned.2]
  exact prefix_iff_eq_take.mp hreturned.1

/-- A reader over three bytes, copied to a file. -/
def copying : State where
  reader := ⟨[1, 2, 3], 0, some 2, some 0, none⟩
  writers := fun _ => ⟨[], 0, true, false, some .file, []⟩

theorem copying_is_faithful : copying.reader.device = none ∧ copying.reader.position = 0 ∧
      Faithful copying [.read 1 (.ok []) .all, .read 5 (.ok []) .all] := by
  refine ⟨rfl, rfl, (reads_are_faithful_iff copying rfl rfl _).mpr ⟨?_, ?_, trivial⟩⟩
  · intro slot hslot _
    cases hslot
    exact ⟨by decide, by decide, fun _ => by decide, by decide, fun _ => rfl⟩
  · intro slot hslot _
    cases hslot
    exact ⟨by decide, by decide, fun _ => by decide, by decide, fun _ => rfl⟩

/-- A reader over two bytes, copied to a writer in memory that is full. -/
def copyingToFull : State where
  reader := ⟨[1, 2], 0, none, some 0, none⟩
  writers := fun _ => ⟨List.replicate maxStreamBytes 0, maxStreamBytes, true, false, none, []⟩

/-- The read of one byte fails because the writer is full, and the byte is gone: after the
copying is stopped the next read returns the second byte. -/
theorem failed_copy_skips_bytes : (readerRead copyingToFull 1 (.ok []) .all).1 =
        .error "writer buffer exceeds the 16 MiB limit" ∧
      (step copyingToFull (.read 1 (.ok []) .all)).reader.position = 1 ∧
      returned copyingToFull [.read 1 (.ok []) .all, .untee, .read 1 (.ok []) .all] = [2] ∧
      ¬ Faithful copyingToFull [.read 1 (.ok []) .all] := by
  refine ⟨rfl, rfl, rfl, ?_⟩
  intro h
  have hposition := congrArg (fun s => s.reader.position) h.clean.1
  exact absurd hposition (by decide)

end MuxRuntime.Stream
