import MuxRuntime.Crypto.Sealing

/-!
# What sealed files guarantee

A cipher that decrypts what it encrypted gives back every file. A cipher that decrypts
nothing else makes sealed files tamper-proof as a whole: the associated data of a record
determine the run that encrypted it, by the identity in the header, and its place in the
file, so records cannot be left out, added, exchanged or repeated.
-/

namespace MuxRuntime.Crypto

open List Bytes Session

variable {host : Host} {ciphers : Ciphers} {key ad header : List UInt8}
  {w w' : World}

/-! ## Opening what was sealed -/

/-- What was encrypted is decrypted, and a tag of 16 bytes comes with it. -/
structure Aead.Lawful (cipher : Aead) : Prop where
  length_eq : ∀ {key nonce plaintext aad ciphertext},
    cipher.encrypt key nonce plaintext aad = some ciphertext →
      ciphertext.length = plaintext.length + 16
  decrypts : ∀ {key nonce plaintext aad ciphertext},
    cipher.encrypt key nonce plaintext aad = some ciphertext →
      cipher.decrypt key nonce ciphertext aad = some plaintext

/-- The record of an encryption, with what follows it. -/
def IsRecord.raw {index : Nat} {e : Encryption} (hcipher : ciphers.aes.Lawful)
    (h : IsRecord host ciphers key ad header index e) (left : List UInt8) :
    RawRecord (e.record ++ left) where
  length := e.plaintext.length
  nonce := e.nonce
  ciphertext := e.ciphertext
  left := left
  length_lt := lt_of_le_of_lt h.fits (by decide)
  nonce_length := by
    obtain ⟨call, hnonce⟩ := h.nonce_eq
    rw [hnonce, (host.nonce call).property]
  ciphertext_length := hcipher.length_eq h.encrypts
  split := by rw [Encryption.record, append_assoc, append_assoc]

variable {index : Nat} {e : Encryption}

lemma IsRecord.decrypts (hcipher : ciphers.aes.Lawful)
    (h : IsRecord host ciphers key ad header index e) (left : List UInt8) :
    Decrypts ciphers key ad header index (h.raw hcipher left) e.plaintext :=
  ⟨h.key_length, hcipher.decrypts (h.aad_eq ▸ h.encrypts), rfl⟩

variable {es : List Encryption}

/-- The records of a complete run are opened. -/
lemma opens_of_records (hcipher : ciphers.aes.Lawful)
    (h : Records host ciphers key ad header index es) (hcomplete : Complete es) :
    Opens ciphers key ad header fileChunkSize index (es.flatMap Encryption.record)
      (es.flatMap Encryption.plaintext) := by
  induction es generalizing index with
  | nil =>
    obtain ⟨e, hlast, -⟩ := hcomplete
    cases hlast
  | cons e es ih => ?_
  obtain ⟨hindex, he, hend, hrest⟩ := h
  rw [flatMap_cons, flatMap_cons]
  by_cases hempty : e.plaintext = []
  · have hdecrypt := he.decrypts hcipher []
    rw [hend hempty, flatMap_nil, flatMap_nil, append_nil e.plaintext, hempty]
    rw [hempty] at hdecrypt
    exact .final (he.raw hcipher []) hdecrypt rfl
  obtain ⟨last, hlast, hlastEmpty⟩ := hcomplete
  cases es with
  | nil =>
    cases hlast
    exact absurd hlastEmpty hempty
  | cons e' es => ?_
  have hfits := he.fits
  have hchunk : fileChunkSize < 2 ^ 32 := by decide
  refine .record (he.raw hcipher _) ⟨hfits, ?_⟩ (he.decrypts hcipher _) ?_ hrest.1
    (ih hrest ⟨last, ?_, hlastEmpty⟩)
  · change e.plaintext.length + 16 < 2 ^ 64
    omega
  · exact fun hzero => hempty (length_eq_zero_iff.mp hzero)
  · rwa [List.getLast?_cons_cons] at hlast

lemma length_fileHeader (fileId : {id : List UInt8 // id.length = fileIdLength}) :
    (fileHeader fileId.val).length = fileHeaderLength := by
  rw [fileHeader, length_append, length_append, length_append, fileId.property]
  rfl

lemma headerChunkSize_fileHeader (fileId : List UInt8) :
    headerChunkSize (fileHeader fileId) = .ok fileChunkSize := by
  have hsize : ofLe (((fileHeader fileId).drop 6).take 4) = fileChunkSize := by
    change ofLe (le 4 fileChunkSize) = fileChunkSize
    exact ofLe_le (by decide)
  have hmagic : (fileHeader fileId).take 4 = fileMagic := rfl
  have hversion : (fileHeader fileId)[4]? = some fileVersion := rfl
  have halgorithm : (fileHeader fileId)[5]? = some aesAlgorithm := rfl
  simp [headerChunkSize, hmagic, hversion, halgorithm, hsize, fileChunkSize]

/-- A file that was sealed is opened to its plaintext, however its bytes arrive. -/
theorem openFile_sealFile (hcipher : ciphers.aes.Lawful) {inputPath sealedPath outputPath : Path}
    {plaintext : List UInt8} (hinput : w.disk inputPath = some plaintext)
    (hseal : sealFileImpl host ciphers key inputPath sealedPath ad w = .ok () w')
    {host' : Host} {w'' : World} (hfile : w''.disk sealedPath = w'.disk sealedPath)
    (hquiet : host'.Quiet) (hready : Ready host' sealedPath outputPath w'') :
    ∃ w₃, openFileImpl host' ciphers key sealedPath outputPath ad w'' = .ok () w₃ ∧
      w₃.disk outputPath = some plaintext := by
  obtain ⟨plaintext', hinput', es, hrecords, hcomplete, htext, -, hsealed⟩ :=
    (sealFileImpl_meets inputPath sealedPath).ok hseal
  cases hinput.symm.trans hinput'
  have hopens : OpensFile ciphers key ad (sealedFile host.fileId.val es) plaintext := by
    refine ⟨_, _, fileChunkSize, rfl, length_fileHeader host.fileId,
      headerChunkSize_fileHeader _, ?_⟩
    rw [← htext]
    exact opens_of_records hcipher hrecords hcomplete
  have hfile' : w''.disk sealedPath = some (sealedFile host.fileId.val es) := hfile.trans hsealed
  obtain ⟨_, w₃, hresult, file, text, hdisk, hopens', houtput⟩ :=
    (openFileImpl_meets sealedPath outputPath).total
      fun e w₃ h => h.2 hquiet hready _ _ hfile' hopens
  cases hfile'.symm.trans hdisk
  exact ⟨w₃, hresult, by rw [houtput, hopens.unique hopens']⟩

/-- A system without failures that delivers one byte at a time. -/
def byteHost : Host where
  failure _ := none
  count _ := 0
  fileId := ⟨List.replicate fileIdLength 0, rfl⟩
  nonce _ := ⟨List.replicate nonceLength 0, rfl⟩
  processId := 1
  display _ := "file"
  debug _ := "file"
  canonicalize := id
  identity _ := none

/-- A cipher that appends a tag and hides nothing. -/
def tagCiphers : Ciphers where
  aes :=
    { encrypt := fun _ _ plaintext _ => some (plaintext ++ List.replicate 16 0)
      decrypt := fun _ _ ciphertext _ => some (ciphertext.take (ciphertext.length - 16)) }
  chacha := ⟨fun _ _ _ _ => none, fun _ _ _ _ => none⟩

lemma tagCiphers_lawful : tagCiphers.aes.Lawful := by
  constructor
  · rintro _ _ plaintext _ _ ⟨⟩
    simp
  · rintro _ _ plaintext _ _ ⟨⟩
    simp [tagCiphers]

/-- A directory with one file. -/
def oneFile (path : Path) (content : List UInt8) : World where
  disk p := if p = path then some content else none
  tempCounter := 0
  calls := 0
  encryptions := []

lemma byteHost_quiet : byteHost.Quiet := fun _ => rfl

/-- The two bytes of a file make two records and the final one. -/
theorem openFile_sealFile_two :
    let key := List.replicate keyLength 0
    ∃ w' w₃, sealFileImpl byteHost tagCiphers key [.normal "a"] [.normal "b"] []
        (oneFile [.normal "a"] [7, 8]) = .ok () w' ∧
      openFileImpl byteHost tagCiphers key [.normal "b"] [.normal "c"] []
        (oneFile [.normal "b"] ((w'.disk [.normal "b"]).getD [])) = .ok () w₃ ∧
      w₃.disk [.normal "c"] = some [7, 8] := by
  intro key
  have hready : Ready byteHost [.normal "a"] [.normal "b"] (oneFile [.normal "a"] [7, 8]) :=
    ⟨⟨_, rfl⟩, "b", rfl, 0, by decide, rfl⟩
  have hencrypts : Encrypts tagCiphers key := ⟨rfl, fun _ _ _ _ h => by cases h⟩
  obtain ⟨w', hseal, es, -, -, -, -, hsealed⟩ :=
    sealFileImpl_succeeds byteHost_quiet hencrypts hready rfl (by decide) []
  have hfile : (oneFile [.normal "b"] ((w'.disk [.normal "b"]).getD [])).disk [.normal "b"] =
      w'.disk [.normal "b"] := by
    rw [hsealed]
    rfl
  have hready' : Ready byteHost [.normal "b"] [.normal "c"]
      (oneFile [.normal "b"] ((w'.disk [.normal "b"]).getD [])) :=
    ⟨⟨_, rfl⟩, "c", rfl, 0, by decide, rfl⟩
  obtain ⟨w₃, hopen, houtput⟩ :=
    openFile_sealFile tagCiphers_lawful rfl hseal hfile byteHost_quiet hready'
  exact ⟨w', w₃, hseal, hopen, houtput⟩

/-! ## Only what was sealed is opened -/

/-- One run of `seal_file`, from the state it began in. -/
structure SealRun where
  host : Host
  key : List UInt8
  inputPath : Path
  outputPath : Path
  associatedData : List UInt8
  world : World

namespace SealRun

variable (ciphers : Ciphers) (r : SealRun)

def result : EStateM.Result String World Unit :=
  sealFileImpl r.host ciphers r.key r.inputPath r.outputPath r.associatedData r.world

def finalWorld : World :=
  match r.result ciphers with
  | .ok _ w => w
  | .error _ w => w

/-- What the run encrypted. -/
def encryptions : List Encryption :=
  (r.finalWorld ciphers).encryptions.drop r.world.encryptions.length

/-- The header and the records of the run. -/
def output : List UInt8 :=
  sealedFile r.host.fileId.val (r.encryptions ciphers)

variable {ciphers r}

lemma records : Records r.host ciphers r.key r.associatedData (fileHeader r.host.fileId.val) 0
      (r.encryptions ciphers) := by
  have hmeets : Meets (sealFileImpl r.host ciphers r.key r.inputPath r.outputPath r.associatedData)
      r.world _ _ := sealFileImpl_meets r.inputPath r.outputPath
  unfold encryptions finalWorld result
  cases hresult : sealFileImpl r.host ciphers r.key r.inputPath r.outputPath r.associatedData
      r.world with
  | ok _ w =>
    obtain ⟨_, -, es, hrecords, -, -, hencryptions, -⟩ := hmeets.ok hresult
    simpa [hencryptions] using hrecords
  | error _ w =>
    obtain ⟨⟨es, hrecords, hencryptions, -⟩, -⟩ := hmeets.error hresult
    simpa [hencryptions] using hrecords

/-- A run that succeeds leaves all its records at the destination. -/
theorem published {w : World} (h : r.result ciphers = .ok () w) :
    Complete (r.encryptions ciphers) ∧ w.disk r.outputPath = some (r.output ciphers) := by
  obtain ⟨_, -, es, -, hcomplete, -, hencryptions, hfile⟩ :=
    (sealFileImpl_meets r.inputPath r.outputPath).ok h
  have hes : r.encryptions ciphers = es := by simp [encryptions, finalWorld, h, hencryptions]
  rw [output, hes]
  exact ⟨hcomplete, hfile⟩

end SealRun

/-- The associated data of a record determine its file, its place and its length. -/
lemma fileRecordAad_inj {associatedData' header' : List UInt8} {index' length length' : Nat}
    (hheader : header.length = header'.length) (hindex : index < 2 ^ 64)
    (hindex' : index' < 2 ^ 64) (hlength : length < 2 ^ 32) (hlength' : length' < 2 ^ 32)
    (h : fileRecordAad ad header index length =
      fileRecordAad associatedData' header' index' length') :
    ad = associatedData' ∧ header = header' ∧ index = index' ∧ length = length' := by
  obtain ⟨hheader, hrest⟩ := append_inj h hheader
  obtain ⟨hindexes, hrest⟩ := append_inj hrest (by rw [length_le, length_le])
  obtain ⟨hlengths, hdata⟩ := append_inj hrest (by rw [length_le, length_le])
  refine ⟨hdata, hheader, le_inj ?_ ?_ hindexes, le_inj ?_ ?_ hlengths⟩
  all_goals norm_num at *; omega

lemma fileHeader_inj {fileId fileId' : List UInt8} (h : fileHeader fileId = fileHeader fileId') :
    fileId = fileId' := by
  simpa [fileHeader] using h

/-- The place of a record among those of its run. -/
lemma Records.get (h : Records host ciphers key ad header index es) (he : e ∈ es) :
    ∃ i, es[i]? = some e ∧ index + i < 2 ^ 64 ∧
      IsRecord host ciphers key ad header (index + i) e := by
  induction es generalizing index with
  | nil => cases he
  | cons e' es ih => ?_
  obtain ⟨hindex, he', -, hrest⟩ := h
  rcases mem_cons.mp he with rfl | he
  · exact ⟨0, rfl, hindex, he'⟩
  obtain ⟨i, hi, hlt, hrecord⟩ := ih hrest he
  refine ⟨i + 1, hi, ?_, ?_⟩
  · omega
  · rwa [Nat.add_assoc, Nat.add_comm 1 i] at hrecord

/-- Nothing follows an empty record. -/
lemma Records.drop_of_empty {i : Nat}
    (h : Records host ciphers key ad header index es) (he : es[i]? = some e)
    (hempty : e.plaintext = []) : es.drop i = [e] := by
  induction es generalizing index i with
  | nil => cases he
  | cons e' es ih => ?_
  obtain ⟨-, -, hend, hrest⟩ := h
  cases i with
  | zero =>
    cases he
    rw [hend hempty, drop_zero]
  | succ i => exact ih hrest he

lemma RawRecord.eq_record {rest : List UInt8} (r : RawRecord rest)
    (hlength : e.plaintext.length = r.length) (hnonce : e.nonce = r.nonce)
    (hciphertext : e.ciphertext = r.ciphertext) : rest = e.record ++ r.left := by
  apply r.split.trans
  rw [Encryption.record, hlength, hnonce, hciphertext, append_assoc, append_assoc]

/-- Records that are opened one by one are those of the run, from some place on. -/
lemma Opens.eq_records {start : Nat}
    (hrun : Records host ciphers key ad header start es)
    (hfrom : ∀ i {rest plaintext} (r : RawRecord rest), i < 2 ^ 64 →
      Decrypts ciphers key ad header i r plaintext →
      ∃ e, es[i]? = some e ∧ e.plaintext.length = r.length ∧ e.nonce = r.nonce ∧
        e.ciphertext = r.ciphertext) {chunkSize : Nat} {rest text : List UInt8}
    (hindex : index < 2 ^ 64)
    (h : Opens ciphers key ad header chunkSize index rest text) :
    Complete es ∧ rest = (es.drop index).flatMap Encryption.record := by
  induction h with
  | @final index _ r hdecrypt hleft =>
    obtain ⟨e, hget, hlength, hnonce, hciphertext⟩ := hfrom _ r hindex hdecrypt
    have hempty : e.plaintext = [] := by
      apply length_eq_zero_iff.mp
      rw [hlength, ← hdecrypt.length_eq, length_nil]
    have hdrop := hrun.drop_of_empty hget hempty
    constructor
    · refine ⟨e, ?_, hempty⟩
      rw [← take_append_drop index es, hdrop, List.getLast?_append]
      rfl
    · apply (r.eq_record hlength hnonce hciphertext).trans
      rw [hleft, hdrop, flatMap_cons, flatMap_nil]
  | @record index _ _ _ r hsize hdecrypt hlength hmany hrest ih => ?_
  obtain ⟨e, hget, hlength, hnonce, hciphertext⟩ := hfrom _ r hindex hdecrypt
  obtain ⟨hcomplete, hleft⟩ := ih hmany
  refine ⟨hcomplete, (r.eq_record hlength hnonce hciphertext).trans ?_⟩
  have hdrop : es.drop index = e :: es.drop (index + 1) := by
    rw [drop_eq_getElem?_toList_append, hget]
    rfl
  rw [hleft, hdrop, flatMap_cons]

/-- With a cipher that decrypts only what runs of `seal_file` encrypted, and different
identities for their files, every file that is opened is the whole output of such a run.
When a file is not opened the destination is left as it was. -/
theorem openFile_accepts {runs : List SealRun} (hideal : ∀ nonce ciphertext aad plaintext,
      ciphers.aes.decrypt key nonce ciphertext aad = some plaintext →
      ∃ r ∈ runs, ∃ e ∈ r.encryptions ciphers,
        e.key = key ∧ e.nonce = nonce ∧ e.ciphertext = ciphertext ∧ e.aad = aad)
    (hids : (runs.map fun r => r.host.fileId).Nodup) (inputPath outputPath : Path) :
    (∀ w', openFileImpl host ciphers key inputPath outputPath ad w = .ok () w' →
      ∃ r ∈ runs, r.key = key ∧ r.associatedData = ad ∧
        Complete (r.encryptions ciphers) ∧ w.disk inputPath = some (r.output ciphers)) ∧
    (∀ e w', openFileImpl host ciphers key inputPath outputPath ad w = .error e w' →
      w'.disk outputPath = w.disk outputPath) := by
  constructor
  · intro w' hopen
    obtain ⟨file, text, hinput, ⟨header, rest, chunkSize, hfile, hlength, -, hopens⟩, -⟩ :=
      (openFileImpl_meets inputPath outputPath).ok hopen
    -- a record that decrypts is at its place in a run with this header
    have hrecord : ∀ i {rest plaintext} (r : RawRecord rest), i < 2 ^ 64 →
        Decrypts ciphers key ad header i r plaintext →
        ∃ run ∈ runs, run.key = key ∧ run.associatedData = ad ∧
          fileHeader run.host.fileId.val = header ∧
          ∃ e, (run.encryptions ciphers)[i]? = some e ∧ e.plaintext.length = r.length ∧
            e.nonce = r.nonce ∧ e.ciphertext = r.ciphertext := by
      intro i rest plaintext r hi hdecrypt
      obtain ⟨run, hrun, e, he, hkey, hnonce, hciphertext, haad⟩ := hideal _ _ _ _ hdecrypt.decrypts
      obtain ⟨j, hget, hj, hplace⟩ := run.records.get he
      rw [Nat.zero_add] at hj hplace
      have hfits : e.plaintext.length < 2 ^ 32 := lt_of_le_of_lt hplace.fits (by decide)
      have hheader : (fileHeader run.host.fileId.val).length = header.length :=
        (length_fileHeader run.host.fileId).trans hlength.symm
      obtain ⟨hdata, hheaders, rfl, hlengths⟩ := fileRecordAad_inj hheader hj hi hfits r.length_lt
        (hplace.aad_eq.symm.trans haad)
      exact ⟨run, hrun, hplace.key_eq.symm.trans hkey, hdata, hheaders, e, hget, hlengths, hnonce,
        hciphertext⟩
    obtain ⟨first, _, hfirst, -⟩ := hopens.inv
    obtain ⟨run, hrun, hkey, hdata, hheader, -⟩ := hrecord 0 first (by norm_num) hfirst
    -- all records are of one run, since the header holds its identity
    have hfrom : ∀ i {rest plaintext} (r : RawRecord rest), i < 2 ^ 64 →
        Decrypts ciphers key ad header i r plaintext →
        ∃ e, (run.encryptions ciphers)[i]? = some e ∧ e.plaintext.length = r.length ∧
          e.nonce = r.nonce ∧ e.ciphertext = r.ciphertext := by
      intro i rest plaintext r hi hdecrypt
      obtain ⟨run', hrun', -, -, hheader', hplace⟩ := hrecord i r hi hdecrypt
      have hid : run'.host.fileId = run.host.fileId :=
        Subtype.ext (fileHeader_inj (hheader'.trans hheader.symm))
      rwa [inj_on_of_nodup_map hids hrun' hrun hid] at hplace
    have hrecords : Records run.host ciphers key ad header 0 (run.encryptions ciphers) := by
      rw [← hkey, ← hdata, ← hheader]
      exact run.records
    obtain ⟨hcomplete, hrest⟩ := hopens.eq_records hrecords hfrom (by norm_num)
    refine ⟨run, hrun, hkey, hdata, hcomplete, ?_⟩
    rw [hinput, hfile, hrest, ← hheader]
    rfl
  · intro e w' hopen
    exact ((openFileImpl_meets inputPath outputPath).error hopen).1

/-- A record of the file whose identity and content are made of one byte. -/
def byteRecord (n algorithm : UInt8) (index : Nat) (chunk : List UInt8) : Encryption where
  algorithm := algorithm
  key := List.replicate keyLength 0
  nonce := List.replicate nonceLength 0
  plaintext := chunk
  aad := fileRecordAad [] (fileHeader (List.replicate fileIdLength n)) index chunk.length
  ciphertext := chunk ++ List.replicate 16 0

/-- A cipher that has encrypted the files of two bytes, each with its final record. -/
def twoCiphers : Ciphers where
  aes :=
    { encrypt := tagCiphers.aes.encrypt
      decrypt := fun key nonce ciphertext aad =>
        if ∃ n ∈ [7, 8], ∃ e ∈ [byteRecord n aesAlgorithm 0 [n], byteRecord n aesAlgorithm 1 []],
            e.key = key ∧ e.nonce = nonce ∧ e.ciphertext = ciphertext ∧ e.aad = aad then
          some (ciphertext.take (ciphertext.length - 16))
        else none }
  chacha := tagCiphers.chacha

/-- The run that seals the file of a byte. -/
def byteRun (n : UInt8) : SealRun where
  host := { byteHost with fileId := ⟨List.replicate fileIdLength n, rfl⟩ }
  key := List.replicate keyLength 0
  inputPath := [.normal "a"]
  outputPath := [.normal "b"]
  associatedData := []
  world := oneFile [.normal "a"] [n]

lemma eq_byteRecord {n : UInt8}
    (h : IsRecord (byteRun n).host twoCiphers (List.replicate keyLength 0) []
      (fileHeader (List.replicate fileIdLength n)) index e) :
    e = byteRecord n e.algorithm index e.plaintext := by
  obtain ⟨call, hnonce⟩ := h.nonce_eq
  have hnonce' : e.nonce = List.replicate nonceLength 0 := hnonce
  have hciphertext : e.plaintext ++ List.replicate 16 0 = e.ciphertext := Option.some.inj h.encrypts
  have hkey := h.key_eq
  have haad := h.aad_eq
  cases e
  simp_all [byteRecord]

lemma byteRun_encryptions (n : UInt8) :
    ∃ w, (byteRun n).result twoCiphers = .ok () w ∧ ∃ a b, (byteRun n).encryptions twoCiphers =
      [byteRecord n a 0 [n], byteRecord n b 1 []] := by
  have hready : Ready (byteRun n).host [.normal "a"] [.normal "b"] (oneFile [.normal "a"] [n]) :=
    ⟨⟨_, rfl⟩, "b", rfl, 0, by decide, rfl⟩
  have hencrypts : Encrypts twoCiphers (List.replicate keyLength 0) :=
    ⟨rfl, fun _ _ _ _ h => by cases h⟩
  obtain ⟨w, hresult, es, hrecords, ⟨last, hlast, hempty⟩, htext, hencryptions, -⟩ :=
    sealFileImpl_succeeds (fun _ => rfl) hencrypts hready rfl (show 1 < 2 ^ 64 by decide) []
  have hresult' : (byteRun n).result twoCiphers = .ok () w := hresult
  have hes : (byteRun n).encryptions twoCiphers = es := by
    rw [SealRun.encryptions, SealRun.finalWorld, hresult']
    exact hencryptions
  refine ⟨w, hresult', ?_⟩
  rw [hes]
  -- the first record takes the byte, and the empty one after it is the last
  rcases es with _ | ⟨e, es⟩
  · cases hlast
  obtain ⟨-, he, hend, hrest⟩ := hrecords
  rw [flatMap_cons] at htext
  rcases append_eq_cons_iff.mp htext with ⟨hfirst, hother⟩ | ⟨_, hfirst, hother⟩
  · rw [hend hfirst] at hother
    cases hother
  obtain ⟨hnil, hother⟩ := append_eq_nil_iff.mp hother.symm
  rw [hnil] at hfirst
  rcases es with _ | ⟨e', es⟩
  · have he : e = last := Option.some.inj hlast
    rw [he, hempty] at hfirst
    cases hfirst
  obtain ⟨-, he', hend', -⟩ := hrest
  have hempty' : e'.plaintext = [] := (append_eq_nil_iff.mp hother).1
  refine ⟨e.algorithm, e'.algorithm, ?_⟩
  rw [hend' hempty', eq_byteRecord he, eq_byteRecord he', hfirst, hempty']
  rfl

/-- Only records of the two runs are decrypted. -/
lemma twoCiphers_ideal {key nonce ciphertext aad plaintext : List UInt8}
    (h : twoCiphers.aes.decrypt key nonce ciphertext aad = some plaintext) :
    ∃ r ∈ [byteRun 7, byteRun 8], ∃ e ∈ r.encryptions twoCiphers,
      e.key = key ∧ e.nonce = nonce ∧ e.ciphertext = ciphertext ∧ e.aad = aad := by
  simp only [twoCiphers] at h
  split_ifs at h with hknown
  obtain ⟨n, hn, e, he, hfields⟩ := hknown
  obtain ⟨-, -, a, b, hes⟩ := byteRun_encryptions n
  have hrun : byteRun n ∈ [byteRun 7, byteRun 8] := mem_map_of_mem (f := byteRun) hn
  rcases mem_pair.mp he with rfl | rfl
  · exact ⟨byteRun n, hrun, byteRecord n a 0 [n], by simp [hes], hfields⟩
  · exact ⟨byteRun n, hrun, byteRecord n b 1 [], by simp [hes], hfields⟩

/-- The sealed file is opened to its byte. -/
lemma byteRun_opens :
    OpensFile twoCiphers (List.replicate keyLength 0) [] ((byteRun 8).output twoCiphers) [8] := by
  obtain ⟨-, -, a, b, hes⟩ := byteRun_encryptions 8
  have hdecrypt : ∀ e ∈ [byteRecord 8 0 0 [8], byteRecord 8 0 1 []],
      twoCiphers.aes.decrypt e.key e.nonce e.ciphertext e.aad = some e.plaintext := by decide
  refine ⟨_, _, fileChunkSize, rfl, length_fileHeader (byteRun 8).host.fileId,
    headerChunkSize_fileHeader _, ?_⟩
  rw [hes, flatMap_cons, flatMap_cons, flatMap_nil, append_nil]
  have hlast : Opens twoCiphers (List.replicate keyLength 0) []
      (fileHeader (List.replicate fileIdLength 8)) fileChunkSize 1 (byteRecord 8 b 1 []).record [] :=
    .final ⟨0, List.replicate nonceLength 0, List.replicate 16 0, [], by decide, rfl, rfl, rfl⟩
      ⟨rfl, hdecrypt (byteRecord 8 0 1 []) (by simp), rfl⟩ rfl
  exact .record ⟨1, List.replicate nonceLength 0, 8 :: List.replicate 16 0, _, by decide, rfl, rfl,
    rfl⟩ (show 1 ≤ fileChunkSize ∧ 1 + 16 < 2 ^ 64 by decide)
    ⟨rfl, hdecrypt (byteRecord 8 0 0 [8]) (by simp), rfl⟩ one_ne_zero (by decide) hlast

/-- Of two sealed files the second is opened, and only as its run wrote it. -/
theorem openFile_accepts_second :
    let key := List.replicate keyLength 0
    let w := oneFile [.normal "b"] ((byteRun 8).output twoCiphers)
    (∃ w', (byteRun 8).result twoCiphers = .ok () w' ∧ w'.disk [.normal "b"] = w.disk [.normal "b"]) ∧
      ∃ w', openFileImpl byteHost twoCiphers key [.normal "b"] [.normal "c"] [] w = .ok () w' ∧
        ∃ r ∈ [byteRun 7, byteRun 8], r.key = key ∧ r.associatedData = [] ∧
          Complete (r.encryptions twoCiphers) ∧
          w.disk [.normal "b"] = some (r.output twoCiphers) := by
  intro key w
  obtain ⟨w₀, hresult, -⟩ := byteRun_encryptions 8
  have hready : Ready byteHost [.normal "b"] [.normal "c"] w :=
    ⟨⟨_, rfl⟩, "c", rfl, 0, by decide, rfl⟩
  obtain ⟨_, w', hopen, -⟩ := (openFileImpl_meets [.normal "b"] [.normal "c"]).total
    fun e w' h => h.2 byteHost_quiet hready _ _ rfl byteRun_opens
  have hids : ([byteRun 7, byteRun 8].map fun r => r.host.fileId).Nodup := by decide
  exact ⟨⟨w₀, hresult, (SealRun.published hresult).2⟩, w', hopen,
    (openFile_accepts (fun _ _ _ _ => twoCiphers_ideal) hids _ _).1 w' hopen⟩

end MuxRuntime.Crypto
