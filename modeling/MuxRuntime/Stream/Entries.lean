import MuxRuntime.Foundations.Registry

/-!
# Readers and writers

A reader has a buffer in memory or a device behind it, a position, an optional limit, and an
optional writer that gets a copy of what is read. A writer keeps what it gets in memory, or passes
it on to a device, or both. What a device does is part of the call that uses it.
-/

namespace MuxRuntime.Stream

def maxStreamBytes : Nat := 16 * 1024 * 1024

inductive StandardStream where
  | stdin
  | stdout
  | stderr
deriving DecidableEq, Repr

/-- What a stream is connected to; a stream has at most one of these. -/
inductive Device where
  | standard (stream : StandardStream)
  | file
  | socket
deriving DecidableEq, Repr

/-- A reader. -/
structure ReaderEntry where
  data : List UInt8
  position : Nat
  remainingLimit : Option Nat
  /-- The slot of the writer that gets a copy. -/
  teeWriter : Option Nat
  device : Option Device
deriving DecidableEq, Repr

/-- A writer. -/
structure WriterEntry where
  data : List UInt8
  position : Nat
  capture : Bool
  appendMode : Bool
  device : Option Device
  /-- What the device has got. -/
  received : List UInt8
deriving DecidableEq, Repr

/-! ## Writing -/

/-- What the device of a writer does with the bytes of one write. -/
inductive DeviceWrite where
  | all
  | failed (written : Nat) (error : String)
deriving DecidableEq, Repr

/-- The write to the device, if there is one, and what the device has got after it. -/
def writeDevice (entry : WriterEntry) (bytes : List UInt8) (outcome : DeviceWrite) :
    Except String Unit × List UInt8 :=
  match entry.device, outcome with
  | none, _ => (.ok (), entry.received)
  | some (.standard .stdin), _ => (.error "stdin is not writable", entry.received)
  | some _, .all => (.ok (), entry.received ++ bytes)
  | some (.standard _), .failed written e =>
    (.error ("standard stream write failed: " ++ e), entry.received ++ bytes.take written)
  | some .file, .failed written e =>
    (.error ("writer file write failed: " ++ e), entry.received ++ bytes.take written)
  | some .socket, .failed written e =>
    (.error ("socket writer write failed: " ++ e), entry.received ++ bytes.take written)

/-- Put the bytes at a position; what is missing before it is filled with zeros. -/
def overwrite (data : List UInt8) (position : Nat) (bytes : List UInt8) : List UInt8 :=
  (data ++ List.replicate (position - data.length) 0).take position ++ bytes ++
    data.drop (position + bytes.length)

/-- The writer after a write that succeeds. -/
def WriterEntry.written (entry : WriterEntry) (bytes : List UInt8) : WriterEntry :=
  { entry with
    data := if entry.capture then overwrite entry.data entry.position bytes else entry.data
    position := entry.position + bytes.length
    received := if entry.device.isSome then entry.received ++ bytes else entry.received }

def writeWriterSlot (entry : WriterEntry) (bytes : List UInt8) (outcome : DeviceWrite) :
    Except String Unit × WriterEntry :=
  if maxStreamBytes < bytes.length then (.error "write exceeds the 16 MiB limit", entry)
  else if 2 ^ 64 ≤ entry.position + bytes.length then
    (.error "writer position exceeds the stream limit", entry)
  else if entry.capture && decide (maxStreamBytes < entry.position + bytes.length) then
    (.error "writer buffer exceeds the 16 MiB limit", entry)
  else
    match writeDevice entry bytes outcome with
    | (.error e, received) => (.error e, { entry with received := received })
    | (.ok (), received) =>
      (.ok (), { entry with
          data := if entry.capture then overwrite entry.data entry.position bytes else entry.data
          position := entry.position + bytes.length
          received := received })

/-- The conditions on the writer and on its device under which a write goes through. -/
structure Accepts (entry : WriterEntry) (bytes : List UInt8) (outcome : DeviceWrite) : Prop where
  size : bytes.length ≤ maxStreamBytes
  position : entry.position + bytes.length < 2 ^ 64
  buffer : entry.capture = true → entry.position + bytes.length ≤ maxStreamBytes
  writable : entry.device ≠ some (.standard .stdin)
  device : entry.device.isSome = true → outcome = .all

lemma writeDevice_eq_ok_iff (entry : WriterEntry) (bytes : List UInt8) (outcome : DeviceWrite) :
    (writeDevice entry bytes outcome).1 = .ok () ↔
      entry.device ≠ some (.standard .stdin) ∧ (entry.device.isSome = true → outcome = .all) := by
  unfold writeDevice
  rcases entry.device with _ | ⟨_ | _ | _⟩ | _ | _ <;> cases outcome <;> simp

lemma writeDevice_received (entry : WriterEntry) (bytes : List UInt8) (outcome : DeviceWrite)
    (h : (writeDevice entry bytes outcome).1 = .ok ()) :
    (writeDevice entry bytes outcome).2 =
      if entry.device.isSome then entry.received ++ bytes else entry.received := by
  unfold writeDevice at h ⊢
  rcases hdevice : entry.device with _ | ⟨_ | _ | _⟩ | _ | _ <;> cases outcome <;> simp_all

/-- When a write succeeds, and what the writer is then. -/
theorem writeWriterSlot_eq_ok_iff {entry : WriterEntry} {bytes : List UInt8}
    {outcome : DeviceWrite} :
    (writeWriterSlot entry bytes outcome).1 = .ok () ↔ Accepts entry bytes outcome := by
  unfold writeWriterSlot
  split
  · exact ⟨nofun, fun h => absurd h.size (by omega)⟩
  split
  · exact ⟨nofun, fun h => absurd h.position (by omega)⟩
  split
  · rename_i hbuffer
    rw [Bool.and_eq_true, decide_eq_true_eq] at hbuffer
    exact ⟨nofun, fun h => absurd (h.buffer hbuffer.1) (by omega)⟩
  rename_i hbuffer
  have hfits : entry.capture = true → entry.position + bytes.length ≤ maxStreamBytes := by
    intro hcapture
    simpa [hcapture] using hbuffer
  have hdevice := writeDevice_eq_ok_iff entry bytes outcome
  split
  · rename_i e received heq
    rw [heq] at hdevice
    exact ⟨nofun, fun h => absurd (hdevice.mpr ⟨h.writable, h.device⟩) nofun⟩
  · rename_i received heq
    rw [heq] at hdevice
    have hok := hdevice.mp rfl
    exact ⟨fun _ => ⟨by omega, by omega, hfits, hok.1, hok.2⟩, fun _ => rfl⟩

lemma writeWriterSlot_written {entry : WriterEntry} {bytes : List UInt8} {outcome : DeviceWrite}
    (h : (writeWriterSlot entry bytes outcome).1 = .ok ()) :
    (writeWriterSlot entry bytes outcome).2 = entry.written bytes := by
  unfold writeWriterSlot at h ⊢
  split at h
  · cases h
  rename_i hsize
  rw [if_neg hsize]
  split at h
  · cases h
  rename_i hposition
  rw [if_neg hposition]
  split at h
  · cases h
  rename_i hbuffer
  rw [if_neg hbuffer]
  have hreceived := writeDevice_received entry bytes outcome
  split at h
  · cases h
  rename_i received heq
  rw [heq] at hreceived
  unfold WriterEntry.written
  rw [← hreceived rfl]

end MuxRuntime.Stream
