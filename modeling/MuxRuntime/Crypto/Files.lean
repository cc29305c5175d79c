import MuxRuntime.Foundations.Bytes
import MuxRuntime.Foundations.Session
import MuxRuntime.Foundations.Utf8

/-!
# Sealed files

A file is sealed record by record: what one `read` of the input brings becomes one
record, encrypted together with the file's header, the record's index and its length. An
empty record ends the file. Both directions write to a temporary file that takes the
destination's place at the end.

The system is given by its answers: any call may fail, and a read may bring fewer bytes
than were asked for. The ciphers are those of the libraries.
-/

namespace MuxRuntime.Crypto

open List Utf8 Bytes Session

def keyLength : Nat := 32

def nonceLength : Nat := 12

def aesAlgorithm : UInt8 := 1

def chachaAlgorithm : UInt8 := 2

def fileMagic : List UInt8 := ascii "MXSF"

def fileVersion : UInt8 := 2

def fileIdLength : Nat := 16

def fileHeaderLength : Nat := 10 + fileIdLength

def fileChunkSize : Nat := 1024 * 1024

def fileTempAttempts : Nat := 128

/-! ## Paths -/

inductive Component where
  | rootDir
  | curDir
  | parentDir
  | normal (name : String)
deriving DecidableEq, Repr

/-- A path by components. -/
abbrev Path := List Component

namespace Path

def fileName (p : Path) : Option String :=
  match p.getLast? with
  | some (.normal name) => some name
  | _ => none

def parent (p : Path) : Option Path :=
  match p.getLast? with
  | none | some .rootDir => none
  | some _ => some p.dropLast

def join (p : Path) (name : String) : Path :=
  p ++ [.normal name]

end Path

/-! ## The system and the ciphers -/

/-- How the system answers. Calls are numbered. -/
structure Host where
  /-- The error of a call that fails. -/
  failure : Nat → Option String
  /-- A read brings at most this many bytes and one more; a write that fails has written
  this many. -/
  count : Nat → Nat
  fileId : {id : List UInt8 // id.length = fileIdLength}
  nonce : Nat → {nonce : List UInt8 // nonce.length = nonceLength}
  processId : Nat
  display : Path → String
  debug : Path → String
  canonicalize : Path → Path
  /-- Device and number of a file, where the platform has them. -/
  identity : Path → Option (Nat × Nat)

/-- An authenticated cipher: key, nonce, text and associated data. -/
structure Aead where
  encrypt : List UInt8 → List UInt8 → List UInt8 → List UInt8 → Option (List UInt8)
  decrypt : List UInt8 → List UInt8 → List UInt8 → List UInt8 → Option (List UInt8)

/-- The two ciphers. -/
structure Ciphers where
  aes : Aead
  chacha : Aead

/-- One encryption that was made. -/
structure Encryption where
  algorithm : UInt8
  key : List UInt8
  nonce : List UInt8
  plaintext : List UInt8
  aad : List UInt8
  ciphertext : List UInt8
deriving DecidableEq, Repr

/-- The files, the counter of temporary names, how many calls were made, and the
encryptions so far. -/
structure World where
  disk : Path → Option (List UInt8)
  tempCounter : Nat
  calls : Nat
  encryptions : List Encryption

abbrev FileM := EStateM String World

section Calls

variable (host : Host)

/-- A call of the system, with the number it has. -/
def systemCall (describe : String → String) : FileM Nat := fun w =>
  match host.failure w.calls with
  | some e => .error (describe e) { w with calls := w.calls + 1 }
  | none => .ok w.calls { w with calls := w.calls + 1 }

def setFile (path : Path) (content : Option (List UInt8)) : FileM Unit := fun w =>
  .ok () { w with disk := Function.update w.disk path content }

def notFound : String := "No such file or directory (os error 2)"

/-- The bytes of a file that exists. -/
def fileOpen (describe : String → String) (path : Path) : FileM (List UInt8) := do
  let _ ← systemCall host describe
  match (← get).disk path with
  | none => throw (describe notFound)
  | some bytes => pure bytes

/-- An error counts as a missing file. -/
def pathExists (path : Path) : FileM Bool := do
  match ← observe (systemCall host id) with
  | .error _ => pure false
  | .ok _ => pure ((← get).disk path).isSome

def removeFile (path : Path) : FileM Unit := do
  match ← observe (systemCall host id) with
  | .error _ => pure ()
  | .ok _ => setFile path none

/-- Append to a file; a write that fails may leave a part. -/
def writeAll (describe : String → String) (path : Path) (bytes : List UInt8) : FileM Unit :=
  fun w =>
    let content := (w.disk path).getD []
    match host.failure w.calls with
    | some e =>
      .error (describe e)
        { w with
          calls := w.calls + 1
          disk := Function.update w.disk path
            (some (content ++ bytes.take (host.count w.calls))) }
    | none =>
      .ok ()
        { w with
          calls := w.calls + 1
          disk := Function.update w.disk path (some (content ++ bytes)) }

/-- What a read into a buffer brings of the bytes that are left. It brings nothing only
at the end. -/
structure Piece (rest : List UInt8) (size : Nat) where
  data : List UInt8
  left : List UInt8
  split : rest = data ++ left
  fits : data.length ≤ size
  ends : data = [] → 0 < size → rest = []

lemma Piece.left_lt {rest : List UInt8} {size : Nat} (p : Piece rest size) (h : p.data ≠ []) :
    p.left.length < rest.length := by
  have hlength := congrArg List.length p.split
  have hpos := length_pos_iff.mpr h
  rw [length_append] at hlength
  omega

/-- The first bytes that are left. -/
def Piece.first (rest : List UInt8) (size extra : Nat) : Piece rest size where
  data := rest.take (min size (extra + 1))
  left := rest.drop (min size (extra + 1))
  split := (take_append_drop _ rest).symm
  fits := by
    rw [length_take]
    omega
  ends := by
    intro hempty hsize
    rcases take_eq_nil_iff.mp hempty with hzero | hrest
    · omega
    · exact hrest

def fileRead (describe : String → String) (rest : List UInt8) (size : Nat) :
    FileM (Piece rest size) := do
  let call ← systemCall host describe
  pure (Piece.first rest size (host.count call))

def nonce : FileM (List UInt8) := do
  let call ← systemCall host fun e => "secure random generation failed: " ++ e
  pure (host.nonce call).val

end Calls

/-! ## Distinct paths -/

def sameFileMetadata (input output : Option (Nat × Nat)) : Bool :=
  match input, output with
  | some input, some output => input.1 == output.1 && input.2 == output.2
  | _, _ => false

def ensureDistinctFilePaths (host : Host) (inputPath outputPath : Path) : FileM Unit := do
  let resolve (name : String) (path : Path) (e : String) : String :=
    "failed to resolve " ++ name ++ " file '" ++ host.display path ++ "': " ++ e
  let inspect (name : String) (path : Path) (e : String) : String :=
    "failed to inspect " ++ name ++ " file '" ++ host.display path ++ "': " ++ e
  let _ ← fileOpen host (resolve "input" inputPath) inputPath
  if ← pathExists host outputPath then
    let _ ← systemCall host (inspect "output" outputPath)
    let _ ← systemCall host (resolve "output" outputPath)
    let _ ← systemCall host (inspect "input" inputPath)
    if host.canonicalize inputPath = host.canonicalize outputPath ∨
        sameFileMetadata (host.identity inputPath) (host.identity outputPath) = true then
      throw "input and output paths must refer to different files"
    else pure ()
  else pure ()

/-! ## The temporary file -/

/-- A temporary file. -/
structure AtomicFileOutput where
  path : Path
  file : Option Path

namespace AtomicFileOutput

variable (host : Host)

def temporaryName (name : String) (counter : Nat) : String :=
  "." ++ name ++ ".mux-crypto-" ++ toString host.processId ++ "-" ++ toString counter

def parentOf (destination : Path) : Path :=
  destination.parent.getD [.curDir]

def temporaryPath (destination : Path) (name : String) (counter : Nat) : Path :=
  (parentOf destination).join (temporaryName host name counter)

/-- Create the file unless there is one. -/
def createNew (describe : String → String) (path : Path) : FileM Bool := do
  let _ ← systemCall host describe
  if ((← get).disk path).isSome then pure false
  else do
    setFile path (some [])
    pure true

def fetchAddCounter : FileM Nat := fun w =>
  .ok w.tempCounter { w with tempCounter := (w.tempCounter + 1) % 2 ^ 64 }

/-- A file that cannot be made private is removed again. -/
def setPermissions (destination path : Path) : FileM Unit := do
  match ← observe (systemCall host id) with
  | .ok _ => pure ()
  | .error e => do
    removeFile host path
    throw ("failed to set temporary output permissions beside '" ++ host.debug destination ++
      "': " ++ e)

def attempt (destination : Path) (name : String) : Nat → FileM AtomicFileOutput
  | 0 => throw ("could not allocate a temporary output beside '" ++ host.debug destination ++ "'")
  | attempts + 1 => do
    let counter ← fetchAddCounter
    let path := temporaryPath host destination name counter
    let created ← createNew host (fun e =>
      "failed to create temporary output beside '" ++ host.debug destination ++ "': " ++ e) path
    if created then do
      setPermissions host destination path
      pure { path := path, file := some path }
    else attempt destination name attempts

def create (destination : Path) : FileM AtomicFileOutput :=
  match destination.fileName with
  | none => throw ("output path '" ++ host.debug destination ++ "' has no file name")
  | some name => attempt host destination name fileTempAttempts

def fileMut (output : AtomicFileOutput) : FileM Path :=
  match output.file with
  | none => throw "atomic output file is no longer open"
  | some file => pure file

/-- Put the file in the place of the destination. -/
def replaceFileAtomically (describe : String → String) (source destination : Path) :
    FileM Unit := do
  let _ ← systemCall host describe
  match (← get).disk source with
  | none => throw (describe notFound)
  | some bytes => do
    setFile destination (some bytes)
    setFile source none

def commit (output : AtomicFileOutput) (destination : Path) : FileM Unit := do
  let _ ← output.fileMut
  let _ ← systemCall host fun e => "failed to flush temporary encrypted file: " ++ e
  replaceFileAtomically host (fun e =>
    "failed to publish encrypted output '" ++ host.debug destination ++ "': " ++ e)
    output.path destination

/-- The temporary file is removed when the output goes out of scope. -/
def scope (output : AtomicFileOutput) (body : FileM Unit) : FileM Unit := do
  let outcome ← observe body
  removeFile host output.path
  Session.ofExcept outcome

end AtomicFileOutput

/-! ## Sealing -/

/-- What a record is bound to. -/
def fileRecordAad (associatedData header : List UInt8) (index length : Nat) : List UInt8 :=
  header ++ (le 8 index ++ (le 4 length ++ associatedData))

/-- The header of a file with an identity. -/
def fileHeader (fileId : List UInt8) : List UInt8 :=
  fileMagic ++ ([fileVersion, aesAlgorithm] ++ (le 4 fileChunkSize ++ fileId))

/-- Encrypt with one of the ciphers. -/
def encryptWith (cipher : Aead) (name : String) (algorithm : UInt8)
    (key nonce plaintext aad : List UInt8) : FileM (List UInt8) := fun w =>
  if key.length ≠ keyLength then .error ("invalid " ++ name ++ " key") w
  else
    match cipher.encrypt key nonce plaintext aad with
    | none => .error (name ++ " encryption failed") w
    | some ciphertext =>
      .ok ciphertext
        { w with
          encryptions := w.encryptions ++ [⟨algorithm, key, nonce, plaintext, aad, ciphertext⟩] }

def encryptWithNonce (ciphers : Ciphers) (algorithm : UInt8)
    (key nonce plaintext aad : List UInt8) : FileM (List UInt8) :=
  if algorithm = aesAlgorithm then
    encryptWith ciphers.aes "AES-256-GCM" algorithm key nonce plaintext aad
  else if algorithm = chachaAlgorithm then
    encryptWith ciphers.chacha "ChaCha20-Poly1305" algorithm key nonce plaintext aad
  else throw "unknown sealed-payload algorithm"

section Seal

variable (host : Host) (ciphers : Ciphers) (key associatedData header : List UInt8)
  (output : AtomicFileOutput)

def writeEncrypted (bytes : List UInt8) : FileM Unit := do
  let file ← output.fileMut
  writeAll host (fun e => "failed to write encrypted file: " ++ e) file bytes

/-- Encrypt and write what one read brought. -/
def sealRecord (index : Nat) (chunk : List UInt8) : FileM Unit := do
  let nonce ← nonce host
  if 2 ^ 32 ≤ chunk.length then throw "file chunk is too large"
  else do
    let aad := fileRecordAad associatedData header index chunk.length
    let ciphertext ← encryptWithNonce ciphers aesAlgorithm key nonce chunk aad
    writeEncrypted host output (le 4 chunk.length)
    writeEncrypted host output nonce
    writeEncrypted host output ciphertext

/-- An empty record marks the end, also of an empty file. -/
def sealRecords (inputPath : Path) (rest : List UInt8) (index : Nat) : FileM Unit := do
  let piece ← fileRead host (fun e =>
    "failed to read input file '" ++ host.display inputPath ++ "': " ++ e) rest fileChunkSize
  sealRecord host ciphers key associatedData header output index piece.data
  if _h : piece.data = [] then pure ()
  else if 2 ^ 64 ≤ index + 1 then throw "encrypted file has too many chunks"
  else sealRecords inputPath piece.left (index + 1)
termination_by rest.length
decreasing_by exact piece.left_lt _h

end Seal

/-- Encrypt a file. -/
def sealFileImpl (host : Host) (ciphers : Ciphers) (key : List UInt8)
    (inputPath outputPath : Path) (associatedData : List UInt8) : FileM Unit := do
  ensureDistinctFilePaths host inputPath outputPath
  let input ← fileOpen host (fun e =>
    "failed to open input file '" ++ host.display inputPath ++ "': " ++ e) inputPath
  let _ ← systemCall host fun e => "failed to generate encrypted-file identity: " ++ e
  let header := fileHeader host.fileId.val
  let output ← AtomicFileOutput.create host outputPath
  output.scope host do
    let file ← output.fileMut
    writeAll host (fun e => "failed to write encrypted-file header: " ++ e) file header
    sealRecords host ciphers key associatedData header output inputPath input 0
    output.commit host outputPath

/-! ## Opening -/

section Open

variable (host : Host)

/-- A read that filled its buffer. -/
abbrev Filled (rest : List UInt8) (n : Nat) :=
  {p : Piece rest n // p.data.length = n}

/-- The same read, of a text that is written in another way. -/
def Filled.ofText {text text' : List UInt8} {n : Nat} (h : text = text') (p : Filled text n) :
    Filled text' n :=
  ⟨{ data := p.val.data
     left := p.val.left
     split := h ▸ p.val.split
     fits := p.val.fits
     ends := h ▸ p.val.ends }, p.property⟩

/-- Read until the buffer holds `n` bytes; `none` is the end of the file. -/
def fillExact (n : Nat) (buffer rest : List UInt8) (hbuffer : buffer.length ≤ n) :
    FileM (Option (Filled (buffer ++ rest) n)) :=
  if hfull : buffer.length = n then
    pure (some ⟨⟨buffer, rest, rfl, hbuffer, by
      intro hempty hn
      rw [hempty] at hfull
      exact absurd hfull (Nat.ne_of_lt hn)⟩, hfull⟩)
  else do
    let piece ← fileRead host (fun e => "failed to read encrypted file: " ++ e) rest
      (n - buffer.length)
    if _h : piece.data = [] then
      if buffer = [] then pure none else throw "encrypted file is truncated"
    else do
      have hmore : (buffer ++ piece.data).length ≤ n := by
        have hfits := piece.fits
        rw [length_append]
        omega
      have htext : buffer ++ piece.data ++ piece.left = buffer ++ rest := by
        rw [append_assoc, ← piece.split]
      let filled ← fillExact n (buffer ++ piece.data) piece.left hmore
      pure (filled.map (Filled.ofText htext))
termination_by rest.length
decreasing_by exact piece.left_lt _h

def readExactOrEof (n : Nat) (rest : List UInt8) : FileM (Option (Filled rest n)) :=
  fillExact host n [] rest (Nat.zero_le n)

/-- A record as it is in the file. -/
structure RawRecord (rest : List UInt8) where
  length : Nat
  nonce : List UInt8
  ciphertext : List UInt8
  left : List UInt8
  length_lt : length < 256 ^ 4
  nonce_length : nonce.length = nonceLength
  ciphertext_length : ciphertext.length = length + 16
  split : rest = le 4 length ++ (nonce ++ (ciphertext ++ left))

lemma RawRecord.left_lt {rest : List UInt8} (r : RawRecord rest) : r.left.length < rest.length := by
  have hlength := congrArg List.length r.split
  simp only [length_append, length_le] at hlength
  omega

def readRecord (chunkSize : Nat) (rest : List UInt8) : FileM (RawRecord rest) := do
  match ← readExactOrEof host 4 rest with
  | none => throw "encrypted file is missing its final record"
  | some ⟨lengthBytes, hlength⟩ =>
    let recordLength := ofLe lengthBytes.data
    if chunkSize < recordLength then throw "encrypted file record length is invalid"
    else
      match ← readExactOrEof host nonceLength lengthBytes.left with
      | none => throw "encrypted file record is truncated"
      | some ⟨nonce, hnonce⟩ =>
        if 2 ^ 64 ≤ recordLength + 16 then throw "encrypted file record is too large"
        else
          match ← readExactOrEof host (recordLength + 16) nonce.left with
          | none => throw "encrypted file record is truncated"
          | some ⟨ciphertext, hciphertext⟩ =>
            pure
              { length := recordLength
                nonce := nonce.data
                ciphertext := ciphertext.data
                left := ciphertext.left
                length_lt := ofLe_lt hlength
                nonce_length := hnonce
                ciphertext_length := hciphertext
                split := by
                  rw [← ciphertext.split, ← nonce.split, le_ofLe hlength, ← lengthBytes.split] }

variable (ciphers : Ciphers) (key associatedData header : List UInt8)

def decryptRecord (index : Nat) {rest : List UInt8} (r : RawRecord rest) : FileM (List UInt8) :=
  if key.length ≠ keyLength then throw "invalid AES-256-GCM key"
  else
    match ciphers.aes.decrypt key r.nonce r.ciphertext
        (fileRecordAad associatedData header index r.length) with
    | none => throw "encrypted file authentication failed"
    | some plaintext =>
      if plaintext.length ≠ r.length then
        throw "encrypted file record length does not match plaintext"
      else pure plaintext

def writeDecrypted (output : AtomicFileOutput) (bytes : List UInt8) : FileM Unit := do
  let file ← output.fileMut
  writeAll host (fun e => "failed to write decrypted file: " ++ e) file bytes

/-- Nothing follows the final record. -/
def openRecords (output : AtomicFileOutput) (chunkSize : Nat) (rest : List UInt8) (index : Nat) :
    FileM Unit := do
  let record ← readRecord host chunkSize rest
  let plaintext ← decryptRecord ciphers key associatedData header index record
  if record.length = 0 then
    match ← readExactOrEof host 1 record.left with
    | none => pure ()
    | some _ => throw "encrypted file has data after its final record"
  else do
    writeDecrypted host output plaintext
    if 2 ^ 64 ≤ index + 1 then throw "encrypted file has too many chunks"
    else openRecords output chunkSize record.left (index + 1)
termination_by rest.length
decreasing_by exact record.left_lt

end Open

/-- The chunk size that a header gives. -/
def headerChunkSize (header : List UInt8) : Except String Nat :=
  if header.take 4 ≠ fileMagic ∨ header[4]? ≠ some fileVersion then
    .error "encrypted file has an unsupported header"
  else if header[5]? ≠ some aesAlgorithm then .error "encrypted file algorithm is unsupported"
  else if ofLe ((header.drop 6).take 4) = 0 ∨ fileChunkSize < ofLe ((header.drop 6).take 4) then
    .error "encrypted file chunk size is invalid"
  else .ok (ofLe ((header.drop 6).take 4))

/-- Decrypt a file. -/
def openFileImpl (host : Host) (ciphers : Ciphers) (key : List UInt8)
    (inputPath outputPath : Path) (associatedData : List UInt8) : FileM Unit := do
  ensureDistinctFilePaths host inputPath outputPath
  let input ← fileOpen host (fun e =>
    "failed to open encrypted file '" ++ host.display inputPath ++ "': " ++ e) inputPath
  match ← readExactOrEof host fileHeaderLength input with
  | none => throw "encrypted file is empty"
  | some header => do
    let chunkSize ← Session.ofExcept (headerChunkSize header.val.data)
    let output ← AtomicFileOutput.create host outputPath
    output.scope host do
      openRecords host ciphers key associatedData header.val.data output chunkSize
        header.val.left 0
      output.commit host outputPath

end MuxRuntime.Crypto
