import MuxRuntime.Crypto.Output

/-!
# Sealing and opening files

What a run of `seal_file` encrypts are the records of one file: numbered from zero, with
the run's header, and nothing after the empty record. Opening accepts exactly texts that
consist of such records, each of which the cipher decrypts.
-/

namespace MuxRuntime.Crypto

open List Bytes Session AtomicFileOutput

variable {host : Host} {ciphers : Ciphers} {key ad header : List UInt8}
  {w w' : World} {output : AtomicFileOutput}

/-! ## The records of a run -/

/-- The bytes that a file has for an encryption. -/
def Encryption.record (e : Encryption) : List UInt8 :=
  le 4 e.plaintext.length ++ (e.nonce ++ e.ciphertext)

section Records

variable (host ciphers key ad header)

/-- The encryption of the record with an index. -/
structure IsRecord (index : Nat) (e : Encryption) : Prop where
  key_eq : e.key = key
  aad_eq : e.aad = fileRecordAad ad header index e.plaintext.length
  nonce_eq : ∃ call, e.nonce = (host.nonce call).val
  fits : e.plaintext.length ≤ fileChunkSize
  encrypts : ciphers.aes.encrypt key e.nonce e.plaintext e.aad = some e.ciphertext
  key_length : key.length = keyLength

/-- Records from an index on; nothing follows an empty one. -/
def Records : Nat → List Encryption → Prop
  | _, [] => True
  | index, e :: es =>
    index < 2 ^ 64 ∧ IsRecord host ciphers key ad header index e ∧
      (e.plaintext = [] → es = []) ∧ Records (index + 1) es

end Records

/-- The last record is there. -/
def Complete (es : List Encryption) : Prop :=
  ∃ e, es.getLast? = some e ∧ e.plaintext = []

/-- The cipher encrypts every chunk. -/
def Encrypts (ciphers : Ciphers) (key : List UInt8) : Prop :=
  key.length = keyLength ∧ ∀ nonce chunk aad, chunk.length ≤ fileChunkSize →
    ciphers.aes.encrypt key nonce chunk aad ≠ none

/-! ## Sealing -/

lemma encryptWithNonce_meets (nonce plaintext aad : List UInt8) :
    Meets (encryptWithNonce ciphers aesAlgorithm key nonce plaintext aad) w
      (fun ciphertext w' => key.length = keyLength ∧
        ciphers.aes.encrypt key nonce plaintext aad = some ciphertext ∧ w'.disk = w.disk ∧
        w'.encryptions = w.encryptions ++ [⟨aesAlgorithm, key, nonce, plaintext, aad, ciphertext⟩])
      (fun _ w' => w' = w ∧ (plaintext.length ≤ fileChunkSize → ¬ Encrypts ciphers key)) := by
  unfold encryptWithNonce
  rw [if_pos rfl]
  unfold Meets encryptWith
  by_cases hkey : key.length = keyLength
  · rw [if_neg (not_not.mpr hkey)]
    cases hencrypt : ciphers.aes.encrypt key nonce plaintext aad with
    | none => exact ⟨rfl, fun hfits h => h.2 nonce plaintext aad hfits hencrypt⟩
    | some ciphertext => exact ⟨hkey, rfl, rfl, rfl⟩
  · rw [if_pos hkey]
    exact ⟨rfl, fun _ h => hkey h.1⟩

variable {content : List UInt8}

/-- Encrypted and decrypted bytes are appended to the file alike. -/
lemma append_meets (hfile : output.file = some output.path)
    (hcontent : w.disk output.path = some content) (bytes : List UInt8) (message : String → String) :
    Meets (do writeAll host message (← output.fileMut) bytes) w
      (fun _ w' => Grows output.path [] w w' ∧ w'.disk output.path = some (content ++ bytes))
      (fun _ w' => ¬ host.Quiet ∧ Grows output.path [] w w') := by
  rw [fileMut_eq hfile, pure_bind]
  exact writeAll_meets hcontent message bytes

variable {index : Nat}

/-- One record is encrypted and appended to the file. -/
lemma sealRecord_meets (hfile : output.file = some output.path)
    (hcontent : w.disk output.path = some content) {chunk : List UInt8}
    (hfits : chunk.length ≤ fileChunkSize) :
    Meets (sealRecord host ciphers key ad header output index chunk) w
      (fun _ w' => ∃ e, IsRecord host ciphers key ad header index e ∧ e.plaintext = chunk ∧
        Grows output.path [e] w w' ∧ w'.disk output.path = some (content ++ e.record))
      (fun _ w' => ∃ es, (∀ e ∈ es, IsRecord host ciphers key ad header index e) ∧
        es.length ≤ 1 ∧ Grows output.path es w w' ∧ (host.Quiet → ¬ Encrypts ciphers key)) := by
  apply nonce_meets.andThen
  · intro nonce w₁ h₁
    obtain ⟨hnonce, hsame⟩ := h₁
    have hlength : ¬ 2 ^ 32 ≤ chunk.length := by
      have hsize : fileChunkSize < 2 ^ 32 := by decide
      omega
    rw [if_neg hlength]
    apply (encryptWithNonce_meets nonce chunk _).andThen
    · intro ciphertext w₂ h₂
      obtain ⟨hkey, hencrypt, hdisk, hencryptions⟩ := h₂
      let e : Encryption := ⟨aesAlgorithm, key, nonce, chunk,
        fileRecordAad ad header index chunk.length, ciphertext⟩
      have he : IsRecord host ciphers key ad header index e :=
        ⟨rfl, rfl, hnonce, hfits, hencrypt, hkey⟩
      have hgrows : Grows output.path [e] w w₂ := by
        constructor
        · intro p _
          rw [hdisk, hsame.disk]
        · rw [hencryptions, hsame.encryptions]
      have hcontent₂ : w₂.disk output.path = some content := by rw [hdisk, hsame.disk, hcontent]
      -- a write that fails comes after the encryption
      have hfailed : ∀ (_ : String) w', ¬ host.Quiet ∧ Grows output.path [] w₂ w' →
          ∃ es, (∀ e ∈ es, IsRecord host ciphers key ad header index e) ∧ es.length ≤ 1 ∧
            Grows output.path es w w' ∧ (host.Quiet → ¬ Encrypts ciphers key) := by
        intro _ w' h
        refine ⟨[e], by simpa using he, le_refl 1, hgrows.trans h.2, fun hquiet => ?_⟩
        exact absurd hquiet h.1
      apply ((append_meets hfile hcontent₂ _ _).mono (fun _ _ h => h) hfailed).bind
      intro _ w₃ h₃
      apply ((append_meets hfile h₃.2 _ _).mono (fun _ _ h => h)
        (fun s w' h => hfailed s w' ⟨h.1, h₃.1.trans h.2⟩)).bind
      intro _ w₄ h₄
      apply (append_meets hfile h₄.2 _ _).mono _
        (fun s w' h => hfailed s w' ⟨h.1, (h₃.1.trans h₄.1).trans h.2⟩)
      intro _ w₅ h₅
      refine ⟨e, he, rfl, ((hgrows.trans h₃.1).trans h₄.1).trans h₅.1, ?_⟩
      rw [h₅.2, Encryption.record, append_assoc, append_assoc]
    · intro _ w₂ h₂
      obtain ⟨rfl, hrefused⟩ := h₂
      exact ⟨[], by simp, Nat.zero_le 1, hsame.grows, fun _ => hrefused hfits⟩
  · intro _ w₁ h₁
    exact ⟨[], by simp, Nat.zero_le 1, h₁.2.grows, fun hquiet => absurd hquiet h₁.1⟩

lemma Records.of_le_one {es : List Encryption} (hindex : index < 2 ^ 64)
    (h : ∀ e ∈ es, IsRecord host ciphers key ad header index e)
    (hlength : es.length ≤ 1) : Records host ciphers key ad header index es := by
  match es with
  | [] => trivial
  | [e] => exact ⟨hindex, h e (mem_singleton_self e), fun _ => rfl, trivial⟩

/-- All that is left of the input is sealed, with an empty record at the end. -/
lemma sealRecords_meets (hfile : output.file = some output.path) (inputPath : Path)
    (hindex : index < 2 ^ 64) (rest : List UInt8) (w : World)
    (hcontent : w.disk output.path = some content) :
    Meets (sealRecords host ciphers key ad header output inputPath rest index) w
      (fun _ w' => ∃ es, Records host ciphers key ad header index es ∧ Complete es ∧
        es.flatMap Encryption.plaintext = rest ∧ Grows output.path es w w' ∧
        w'.disk output.path = some (content ++ es.flatMap Encryption.record))
      (fun _ w' => ∃ es, Records host ciphers key ad header index es ∧
        Grows output.path es w w' ∧
        (host.Quiet → Encrypts ciphers key → 2 ^ 64 ≤ index + rest.length)) := by
  induction hn : rest.length using Nat.strong_induction_on generalizing rest index w content with
  | _ n ih =>
  rw [sealRecords]
  apply (fileRead_meets _ rest fileChunkSize).andThen
  · intro piece w₁ h₁
    have hcontent₁ : w₁.disk output.path = some content := by rw [h₁.disk, hcontent]
    apply (sealRecord_meets hfile hcontent₁ piece.fits).andThen
    · intro _ w₂ h₂
      obtain ⟨e, he, hchunk, hgrows, hcontent₂⟩ := h₂
      have hgrows' : Grows output.path [e] w w₂ := h₁.grows.trans hgrows
      by_cases hend : piece.data = []
      · rw [dif_pos hend]
        have hrest : rest = [] := piece.ends hend (by decide)
        refine ⟨[e], ⟨hindex, he, fun _ => rfl, trivial⟩, ⟨e, rfl, hchunk.trans hend⟩, ?_, hgrows', ?_⟩
        · simp [hchunk, hend, hrest]
        · simpa using hcontent₂
      rw [dif_neg hend]
      have hplain : e.plaintext ≠ [] := by rwa [hchunk]
      have hleft := piece.left_lt hend
      by_cases hmany : 2 ^ 64 ≤ index + 1
      · rw [if_pos hmany]
        refine ⟨[e], ⟨hindex, he, fun _ => rfl, trivial⟩, hgrows', fun _ _ => ?_⟩
        omega
      rw [if_neg hmany]
      apply (ih piece.left.length (by omega) (by omega) piece.left w₂ hcontent₂ rfl).mono
      · intro _ w₃ h₃
        obtain ⟨es, hrecords, ⟨last, hlast, hempty⟩, htext, hmore, hcontent₃⟩ := h₃
        refine ⟨e :: es, ⟨hindex, he, fun h => absurd h hplain, hrecords⟩, ⟨last, ?_, hempty⟩,
          ?_, hgrows'.trans hmore, ?_⟩
        · rw [List.getLast?_cons, hlast]
          rfl
        · rw [flatMap_cons, htext, hchunk, ← piece.split]
        · rw [hcontent₃, flatMap_cons, append_assoc]
      · intro _ w₃ h₃
        obtain ⟨es, hrecords, hmore, hquiet⟩ := h₃
        refine ⟨e :: es, ⟨hindex, he, fun h => absurd h hplain, hrecords⟩,
          hgrows'.trans hmore, fun hq hencrypts => ?_⟩
        have := hquiet hq hencrypts
        omega
    · intro _ w₂ h₂
      obtain ⟨es, hrecord, hone, hgrows, hquiet⟩ := h₂
      exact ⟨es, Records.of_le_one hindex hrecord hone, h₁.grows.trans hgrows,
        fun hq hencrypts => absurd hencrypts (hquiet hq)⟩
  · intro _ w₁ h₁
    exact ⟨[], trivial, h₁.2.grows, fun hquiet => absurd hquiet h₁.1⟩

/-- The file that a run with these encryptions makes. -/
def sealedFile (fileId : List UInt8) (es : List Encryption) : List UInt8 :=
  fileHeader fileId ++ es.flatMap Encryption.record

section Runs

variable (host ciphers key ad)

/-- A run that published its file: all of `plaintext` is in the records. -/
def Published (outputPath : Path) (plaintext : List UInt8) (w w' : World) : Prop :=
  ∃ es, Records host ciphers key ad (fileHeader host.fileId.val) 0 es ∧ Complete es ∧
    es.flatMap Encryption.plaintext = plaintext ∧ w'.encryptions = w.encryptions ++ es ∧
    w'.disk outputPath = some (sealedFile host.fileId.val es)

/-- A run that failed, after some of its records. -/
def Abandoned (outputPath : Path) (w w' : World) : Prop :=
  ∃ es, Records host ciphers key ad (fileHeader host.fileId.val) 0 es ∧
    w'.encryptions = w.encryptions ++ es ∧ w'.disk outputPath = w.disk outputPath

end Runs

variable {outputPath : Path}

lemma Unmoved.abandoned (h : Unmoved outputPath w w') :
    Abandoned host ciphers key ad outputPath w w' :=
  ⟨[], trivial, by rw [h.encryptions, append_nil], h.destination⟩

lemma Same.unmoved (h : Same w w') (outputPath : Path) : Unmoved outputPath w w' :=
  ⟨by rw [h.disk], h.encryptions⟩

/-- From the new temporary file to the destination. -/
lemma sealBody_meets {inputPath : Path} {w₀ : World} (hfresh : Fresh outputPath w₀ output w')
    (hgrows : Grows output.path [] w w') (input : List UInt8) :
    Meets (do
        let file ← output.fileMut
        writeAll host (fun e => "failed to write encrypted-file header: " ++ e) file
          (fileHeader host.fileId.val)
        sealRecords host ciphers key ad (fileHeader host.fileId.val) output inputPath
          input 0
        output.commit host outputPath) w'
      (fun _ => Published host ciphers key ad outputPath input w)
      (fun _ w'' => Abandoned host ciphers key ad outputPath w w'' ∧
        (host.Quiet → Encrypts ciphers key → 2 ^ 64 ≤ input.length)) := by
  rw [fileMut_eq hfresh.file, pure_bind]
  apply (writeAll_meets hfresh.empty _ _).andThen
  · intro _ w₁ h₁
    have hgrows₁ := hgrows.trans h₁.1
    apply ((sealRecords_meets hfresh.file inputPath (by norm_num) input w₁ h₁.2).mono
      (fun _ _ h => h) _).bind
    · intro _ w₂ h₂
      obtain ⟨es, hrecords, hcomplete, htext, hmore, hcontent⟩ := h₂
      have hgrows₂ : Grows output.path es w w₂ := hgrows₁.trans hmore
      apply (commit_meets hfresh.file hfresh.ne hcontent).mono
      · intro _ w₃ h₃
        refine ⟨es, hrecords, hcomplete, htext, ?_, ?_⟩
        · rw [h₃.2, hgrows₂.encryptions]
        · rw [h₃.1, nil_append]
          rfl
      · intro _ w₃ h₃
        refine ⟨⟨es, hrecords, ?_, ?_⟩, fun hquiet => absurd hquiet h₃.1⟩
        · rw [h₃.2.encryptions, hgrows₂.encryptions]
        · rw [h₃.2.disk, hgrows₂.elsewhere _ hfresh.ne.symm]
    · intro _ w₂ h₂
      obtain ⟨es, hrecords, hmore, hquiet⟩ := h₂
      have hgrows₂ : Grows output.path es w w₂ := hgrows₁.trans hmore
      refine ⟨⟨es, hrecords, hgrows₂.encryptions, hgrows₂.elsewhere _ hfresh.ne.symm⟩, ?_⟩
      intro hq hencrypts
      have hmany := hquiet hq hencrypts
      omega
  · intro _ w₁ h₁
    exact ⟨((hgrows.trans h₁.2).unmoved hfresh.ne).abandoned, fun hquiet => absurd hquiet h₁.1⟩

/-- A run encrypts records of one file; it publishes the file or leaves the destination. -/
theorem sealFileImpl_meets (inputPath outputPath : Path) :
    Meets (sealFileImpl host ciphers key inputPath outputPath ad) w
      (fun _ w' => ∃ plaintext, w.disk inputPath = some plaintext ∧
        Published host ciphers key ad outputPath plaintext w w')
      (fun _ w' => Abandoned host ciphers key ad outputPath w w' ∧
        (host.Quiet → Encrypts ciphers key → Ready host inputPath outputPath w →
          ∀ plaintext, w.disk inputPath = some plaintext → 2 ^ 64 ≤ plaintext.length)) := by
  apply ((ensureDistinctFilePaths_meets inputPath outputPath).ended.mono (fun _ _ h => h.2) _).bind
  · intro _ w₁ h₁
    apply (fileOpen_meets _ inputPath).andThen
    · intro input w₂ h₂
      have hinput : w.disk inputPath = some input := by rw [← h₁.disk, h₂.1]
      apply (systemCall_meets _).andThen
      · intro _ w₃ h₃
        have hsame : Same w w₃ := (h₁.trans h₂.2).trans h₃
        apply (create_meets outputPath).andThen
        · intro output w₄ h₄
          apply scope_meets (sealBody_meets h₄ (hsame.grows.trans h₄.grows) input)
          · rintro w₅ w₆ ⟨es, hrecords, hcomplete, htext, hencryptions, hdisk⟩ hdrop
            refine ⟨input, hinput, es, hrecords, hcomplete, htext, ?_, ?_⟩
            · rw [hdrop.encryptions, hencryptions, append_nil]
            · rw [hdrop.elsewhere _ h₄.ne.symm, hdisk]
          · rintro w₅ w₆ ⟨⟨es, hrecords, hencryptions, hdisk⟩, hquiet⟩ hdrop
            refine ⟨⟨es, hrecords, ?_, ?_⟩, fun hq hencrypts _ plaintext hplaintext => ?_⟩
            · rw [hdrop.encryptions, hencryptions, append_nil]
            · rw [hdrop.elsewhere _ h₄.ne.symm, hdisk]
            · cases hinput.symm.trans hplaintext
              exact hquiet hq hencrypts
        · intro _ w₄ h₄
          refine ⟨Unmoved.abandoned ⟨?_, ?_⟩, fun hquiet _ hready => ?_⟩
          · rw [h₄.2.destination, hsame.disk]
          · rw [h₄.2.encryptions, hsame.encryptions]
          · obtain ⟨-, name, hname, hfree⟩ := hready
            exact absurd (hfree.of_same hsame) (h₄.1 hquiet name hname)
      · intro _ w₃ h₃
        exact ⟨(((h₁.trans h₂.2).trans h₃.2).unmoved _).abandoned, fun hquiet => absurd hquiet h₃.1⟩
    · intro _ w₂ h₂
      refine ⟨((h₁.trans h₂.2).unmoved _).abandoned, fun hquiet _ _ plaintext hplaintext => ?_⟩
      have hmissing := h₂.1 hquiet
      rw [h₁.disk, hplaintext] at hmissing
      cases hmissing
  · intro _ w₁ h₁
    refine ⟨(h₁.2.unmoved _).abandoned, fun _ _ hready => ?_⟩
    obtain ⟨⟨w', hdistinct⟩, -⟩ := hready
    rw [hdistinct] at h₁
    cases h₁.1

/-- Without failures every file is sealed that is not too long to have all its records
numbered. -/
lemma sealFileImpl_succeeds (hquiet : host.Quiet) (hencrypts : Encrypts ciphers key)
    {inputPath : Path} (hready : Ready host inputPath outputPath w) {plaintext : List UInt8}
    (hinput : w.disk inputPath = some plaintext) (hsize : plaintext.length < 2 ^ 64)
    (ad : List UInt8) :
    ∃ w', sealFileImpl host ciphers key inputPath outputPath ad w = .ok () w' ∧
      Published host ciphers key ad outputPath plaintext w w' := by
  obtain ⟨_, w', hresult, plaintext', hinput', hpublished⟩ :=
    (sealFileImpl_meets inputPath outputPath).total fun e w' h =>
      absurd (h.2 hquiet hencrypts hready plaintext hinput) (Nat.not_le_of_lt hsize)
  cases hinput.symm.trans hinput'
  exact ⟨w', hresult, hpublished⟩

/-! ## Opening -/

lemma fillExact_meets {n : Nat} {buffer : List UInt8} (hbuffer : buffer.length ≤ n)
    (rest : List UInt8) (w : World) : Meets (fillExact host n buffer rest hbuffer) w
      (fun filled w' => Same w w' ∧ (filled = none → buffer = [] ∧ rest = []))
      (fun _ w' => Same w w' ∧ (host.Quiet →
        0 < buffer.length + rest.length ∧ buffer.length + rest.length < n)) := by
  induction hn : rest.length using Nat.strong_induction_on generalizing rest buffer w with
  | _ m ih =>
  rw [fillExact]
  by_cases hfull : buffer.length = n
  · rw [dif_pos hfull]
    exact ⟨Same.refl w, by simp⟩
  rw [dif_neg hfull]
  apply (fileRead_meets _ rest _).andThen
  · intro piece w₁ h₁
    by_cases hend : piece.data = []
    · have hrest : rest = [] := piece.ends hend (by omega)
      rw [dif_pos hend]
      by_cases hempty : buffer = []
      · rw [if_pos hempty]
        exact ⟨h₁, fun _ => ⟨hempty, hrest⟩⟩
      · rw [if_neg hempty]
        refine ⟨h₁, fun _ => ?_⟩
        have hpos := length_pos_iff.mpr hempty
        rw [← hn, hrest, length_nil]
        omega
    · rw [dif_neg hend]
      have hleft := piece.left_lt hend
      have hsplit := congrArg List.length piece.split
      rw [length_append] at hsplit
      apply (ih piece.left.length (by omega) _ piece.left w₁ rfl).andThen
      · intro filled w₂ h₂
        refine ⟨h₁.trans h₂.1, fun hnone => ?_⟩
        have hbuffer' := (h₂.2 (Option.map_eq_none_iff.mp hnone)).1
        exact absurd (append_eq_nil_iff.mp hbuffer').2 hend
      · intro _ w₂ h₂
        refine ⟨h₁.trans h₂.1, fun hquiet => ?_⟩
        have hshort := h₂.2 hquiet
        rw [length_append] at hshort
        omega
  · intro _ w₁ h₁
    exact ⟨h₁.2, fun hquiet => absurd hquiet h₁.1⟩

lemma readExactOrEof_meets (n : Nat) (rest : List UInt8) : Meets (readExactOrEof host n rest) w
      (fun filled w' => Same w w' ∧ (filled = none → rest = []))
      (fun _ w' => Same w w' ∧ (host.Quiet → 0 < rest.length ∧ rest.length < n)) := by
  apply (fillExact_meets (Nat.zero_le n) rest w).mono
  · intro filled w' h
    exact ⟨h.1, fun hnone => (h.2 hnone).2⟩
  · intro _ w' h
    refine ⟨h.1, fun hquiet => ?_⟩
    have hshort := h.2 hquiet
    rwa [length_nil, Nat.zero_add] at hshort

/-- What is read next fails if it is missing or too short; otherwise the run goes on. -/
lemma readExact_meets {α : Type} {n : Nat} {rest : List UInt8} {R : α → World → Prop}
    {E : String → World → Prop} {f : Option (Filled rest n) → FileM α} {missing : String}
    (hn : 0 < n) (hnone : f none = throw missing)
    (hshort : ∀ e w', Same w w' → (host.Quiet → rest.length < n) → E e w')
    (hsome : ∀ p w', Same w w' → Meets (f (some p)) w' R E) :
    Meets (readExactOrEof host n rest >>= f) w R E := by
  apply (readExactOrEof_meets n rest).andThen
  · rintro (_ | p) w' ⟨hsame, hend⟩
    · rw [hnone]
      refine hshort missing w' hsame (fun _ => ?_)
      rwa [hend rfl]
    · exact hsome p w' hsame
  · intro e w' h
    exact hshort e w' h.1 (fun hquiet => (h.2 hquiet).2)

/-- A text has at most one record at its front. -/
instance (rest : List UInt8) : Subsingleton (RawRecord rest) := by
  constructor
  rintro ⟨length, nonce, ciphertext, left, hlt, hnonce, hciphertext, hsplit⟩
    ⟨length', nonce', ciphertext', left', hlt', hnonce', hciphertext', hsplit'⟩
  rw [hsplit'] at hsplit
  obtain ⟨hlength, hrest⟩ := append_inj hsplit (by simp)
  cases le_inj hlt' hlt hlength
  obtain ⟨rfl, htail⟩ := append_inj hrest (by rw [hnonce, hnonce'])
  obtain ⟨rfl, rfl⟩ := append_inj htail (by rw [hciphertext, hciphertext'])
  rfl

variable {rest : List UInt8}

/-- What was read is the front of the text. -/
lemma Filled.eq_of_append {front back : List UInt8} {n : Nat} (p : Filled rest n)
    (h : rest = front ++ back) (hfront : front.length = n) :
    p.val.data = front ∧ p.val.left = back :=
  append_inj (p.val.split.symm.trans h) (by rw [p.property, hfront])

lemma length_record (r : RawRecord rest) :
    rest.length = 4 + (nonceLength + (r.length + 16 + r.left.length)) := by
  conv_lhs => rw [r.split]
  rw [length_append, length_append, length_append, length_le, r.nonce_length, r.ciphertext_length]

lemma readRecord_meets (chunkSize : Nat) (rest : List UInt8) :
    Meets (readRecord host chunkSize rest) w
      (fun r w' => Same w w' ∧ r.length ≤ chunkSize ∧ r.length + 16 < 2 ^ 64)
      (fun _ w' => Same w w' ∧
        (host.Quiet → ∀ r : RawRecord rest, ¬ (r.length ≤ chunkSize ∧ r.length + 16 < 2 ^ 64))) := by
  refine readExact_meets (by norm_num) rfl ?_ ?_
  · intro _ w₁ hsame hshort
    refine ⟨hsame, fun hquiet r => ?_⟩
    have hlength := length_record r
    have hless := hshort hquiet
    omega
  intro lengthBytes w₁ hsame
  have hrecord : ∀ r : RawRecord rest, ofLe lengthBytes.val.data = r.length ∧
      lengthBytes.val.left = r.nonce ++ (r.ciphertext ++ r.left) := by
    intro r
    obtain ⟨hdata, hleft⟩ := lengthBytes.eq_of_append r.split length_le
    exact ⟨by rw [hdata, ofLe_le r.length_lt], hleft⟩
  change Meets (if chunkSize < ofLe lengthBytes.val.data then _ else _) w₁ _ _
  by_cases hchunk : chunkSize < ofLe lengthBytes.val.data
  · rw [if_pos hchunk]
    refine ⟨hsame, fun _ r => ?_⟩
    rw [(hrecord r).1] at hchunk
    omega
  rw [if_neg hchunk]
  refine readExact_meets (by decide) rfl ?_ ?_
  · intro _ w₂ hsame₂ hshort
    refine ⟨hsame.trans hsame₂, fun hquiet r => ?_⟩
    have hless := hshort hquiet
    rw [(hrecord r).2, length_append, r.nonce_length] at hless
    omega
  intro nonce w₂ hsame₂
  have hafter : ∀ r : RawRecord rest, nonce.val.left = r.ciphertext ++ r.left :=
    fun r => (nonce.eq_of_append (hrecord r).2 r.nonce_length).2
  change Meets (if 2 ^ 64 ≤ ofLe lengthBytes.val.data + 16 then _ else _) w₂ _ _
  by_cases hlarge : 2 ^ 64 ≤ ofLe lengthBytes.val.data + 16
  · rw [if_pos hlarge]
    refine ⟨hsame.trans hsame₂, fun _ r => ?_⟩
    rw [(hrecord r).1] at hlarge
    omega
  rw [if_neg hlarge]
  refine readExact_meets (Nat.succ_pos _) rfl ?_ ?_
  · intro _ w₃ hsame₃ hshort
    refine ⟨(hsame.trans hsame₂).trans hsame₃, fun hquiet r => ?_⟩
    have hless := hshort hquiet
    rw [hafter r, length_append, r.ciphertext_length, (hrecord r).1] at hless
    omega
  · intro ciphertext w₃ hsame₃
    exact ⟨(hsame.trans hsame₂).trans hsame₃, Nat.le_of_not_lt hchunk, Nat.lt_of_not_le hlarge⟩

section Opens

variable (ciphers key ad header)

/-- The record with an index decrypts to a text of its length. -/
structure Decrypts (index : Nat) {rest : List UInt8} (r : RawRecord rest)
    (plaintext : List UInt8) : Prop where
  key_length : key.length = keyLength
  decrypts : ciphers.aes.decrypt key r.nonce r.ciphertext
    (fileRecordAad ad header index r.length) = some plaintext
  length_eq : plaintext.length = r.length

/-- What is left of a file consists of records from an index on, up to an empty one. -/
inductive Opens (chunkSize : Nat) : Nat → List UInt8 → List UInt8 → Prop
  | final {index : Nat} {rest : List UInt8} (r : RawRecord rest)
      (hdecrypt : Decrypts ciphers key ad header index r []) (hleft : r.left = []) :
      Opens chunkSize index rest []
  | record {index : Nat} {rest plaintext text : List UInt8} (r : RawRecord rest)
      (hsize : r.length ≤ chunkSize ∧ r.length + 16 < 2 ^ 64)
      (hdecrypt : Decrypts ciphers key ad header index r plaintext)
      (hlength : r.length ≠ 0) (hindex : index + 1 < 2 ^ 64)
      (hrest : Opens chunkSize (index + 1) r.left text) :
      Opens chunkSize index rest (plaintext ++ text)

end Opens

lemma decryptRecord_meets (index : Nat) (r : RawRecord rest) :
    Meets (decryptRecord ciphers key ad header index r) w
      (fun plaintext w' => w' = w ∧ Decrypts ciphers key ad header index r plaintext)
      (fun _ w' => w' = w ∧
        ∀ plaintext, ¬ Decrypts ciphers key ad header index r plaintext) := by
  unfold decryptRecord
  by_cases hkey : key.length = keyLength
  · rw [if_neg (not_not.mpr hkey)]
    cases hdecrypt : ciphers.aes.decrypt key r.nonce r.ciphertext
        (fileRecordAad ad header index r.length) with
    | none =>
      refine ⟨rfl, fun plaintext h => ?_⟩
      have := h.decrypts
      rw [hdecrypt] at this
      cases this
    | some plaintext => ?_
    change Meets (if plaintext.length ≠ r.length then _ else _) w _ _
    by_cases hlength : plaintext.length = r.length
    · rw [if_neg (not_not.mpr hlength)]
      exact ⟨rfl, hkey, hdecrypt, hlength⟩
    · rw [if_pos hlength]
      refine ⟨rfl, fun plaintext' h => hlength ?_⟩
      have hsame := h.decrypts
      rw [hdecrypt] at hsame
      cases hsame
      exact h.length_eq
  · rw [if_pos hkey]
    exact ⟨rfl, fun _ h => hkey h.key_length⟩

lemma Decrypts.unique {plaintext plaintext' : List UInt8} {r : RawRecord rest}
    (h : Decrypts ciphers key ad header index r plaintext)
    (h' : Decrypts ciphers key ad header index r plaintext') : plaintext = plaintext' :=
  Option.some.inj (h.decrypts.symm.trans h'.decrypts)

variable {text : List UInt8}

/-- How a file begins that consists of records. -/
lemma Opens.inv {chunkSize : Nat}
    (h : Opens ciphers key ad header chunkSize index rest text) :
    ∃ (r : RawRecord rest) (plaintext : List UInt8),
      Decrypts ciphers key ad header index r plaintext ∧
      (r.length ≤ chunkSize ∧ r.length + 16 < 2 ^ 64) ∧
      (r.length = 0 → r.left = [] ∧ text = []) ∧ (r.length ≠ 0 → index + 1 < 2 ^ 64 ∧ ∃ text',
        Opens ciphers key ad header chunkSize (index + 1) r.left text' ∧
        text = plaintext ++ text') := by
  cases h with
  | final r hdecrypt hleft =>
    have hzero : r.length = 0 := hdecrypt.length_eq.symm
    exact ⟨r, [], hdecrypt, by omega, fun _ => ⟨hleft, rfl⟩, absurd hzero⟩
  | record r hsize hdecrypt hlength hindex hrest =>
    exact ⟨r, _, hdecrypt, hsize, (absurd · hlength), fun _ => ⟨hindex, _, hrest, rfl⟩⟩

/-- The text of a file is determined. -/
lemma Opens.unique {chunkSize : Nat} {text' : List UInt8}
    (h : Opens ciphers key ad header chunkSize index rest text)
    (h' : Opens ciphers key ad header chunkSize index rest text') : text = text' := by
  induction h generalizing text' with
  | final r hdecrypt hleft =>
    obtain ⟨r', _, -, -, hfinal, -⟩ := h'.inv
    cases Subsingleton.elim r r'
    exact (hfinal hdecrypt.length_eq.symm).2.symm
  | record r hsize hdecrypt hlength hindex hrest ih =>
    obtain ⟨r', plaintext', hdecrypt', -, -, hmore⟩ := h'.inv
    cases Subsingleton.elim r r'
    obtain ⟨-, text'', hrest', rfl⟩ := hmore hlength
    rw [hdecrypt.unique hdecrypt', ih hrest']

/-- Records are opened exactly if the file consists of records. -/
lemma openRecords_meets (hfile : output.file = some output.path) (chunkSize : Nat) (index : Nat)
    (rest : List UInt8) (w : World) (hcontent : w.disk output.path = some content) :
    Meets (openRecords host ciphers key ad header output chunkSize rest index) w
      (fun _ w' => Grows output.path [] w w' ∧ ∃ text,
        Opens ciphers key ad header chunkSize index rest text ∧
        w'.disk output.path = some (content ++ text))
      (fun _ w' => Grows output.path [] w w' ∧ (host.Quiet → ∀ text,
        ¬ Opens ciphers key ad header chunkSize index rest text)) := by
  induction hn : rest.length using Nat.strong_induction_on generalizing rest index w content with
  | _ n ih =>
  rw [openRecords]
  apply (readRecord_meets chunkSize rest).andThen
  · intro r w₁ h₁
    obtain ⟨hsame, hsize⟩ := h₁
    apply (decryptRecord_meets index r).andThen
    · intro plaintext w₂ h₂
      obtain ⟨rfl, hdecrypt⟩ := h₂
      have hcontent₂ : w₂.disk output.path = some content := by rw [hsame.disk, hcontent]
      by_cases hzero : r.length = 0
      · rw [if_pos hzero]
        have hempty : plaintext = [] := length_eq_zero_iff.mp (hdecrypt.length_eq.trans hzero)
        subst hempty
        apply (readExactOrEof_meets 1 r.left).andThen
        · intro filled w₃ h₃
          have hsame₃ := hsame.trans h₃.1
          cases filled with
          | none =>
            refine ⟨hsame₃.grows, [], .final r hdecrypt (h₃.2 rfl), ?_⟩
            rw [hsame₃.disk, hcontent, append_nil]
          | some p => ?_
          refine ⟨hsame₃.grows, fun _ text hopens => ?_⟩
          obtain ⟨r', _, -, -, hfinal, -⟩ := hopens.inv
          cases Subsingleton.elim r r'
          have hlength := congrArg List.length p.val.split
          have hempty : r.left.length = 0 := congrArg List.length (hfinal hzero).1
          rw [length_append, p.property] at hlength
          omega
        · intro _ w₃ h₃
          refine ⟨(hsame.trans h₃.1).grows, fun hquiet text hopens => ?_⟩
          have hshort := h₃.2 hquiet
          omega
      · rw [if_neg hzero]
        apply (append_meets hfile hcontent₂ plaintext _).andThen
        · intro _ w₃ h₃
          have hgrows : Grows output.path [] w w₃ := hsame.grows.trans h₃.1
          by_cases hmany : 2 ^ 64 ≤ index + 1
          · rw [if_pos hmany]
            refine ⟨hgrows, fun _ text hopens => ?_⟩
            obtain ⟨r', _, -, -, -, hmore⟩ := hopens.inv
            cases Subsingleton.elim r r'
            omega
          · rw [if_neg hmany]
            have hleft := r.left_lt
            apply (ih r.left.length (by omega) (index + 1) r.left w₃ h₃.2 rfl).mono
            · intro _ w₄ h₄
              obtain ⟨hmore, text, hopens, hcontent₄⟩ := h₄
              refine ⟨hgrows.trans hmore, plaintext ++ text,
                .record r hsize hdecrypt hzero (by omega) hopens, ?_⟩
              rw [hcontent₄, append_assoc]
            · intro _ w₄ h₄
              refine ⟨hgrows.trans h₄.1, fun hquiet text hopens => ?_⟩
              obtain ⟨r', _, -, -, -, hmore⟩ := hopens.inv
              cases Subsingleton.elim r r'
              obtain ⟨-, text', hrest, -⟩ := hmore hzero
              exact h₄.2 hquiet text' hrest
        · intro _ w₃ h₃
          exact ⟨hsame.grows.trans h₃.2, fun hquiet => absurd hquiet h₃.1⟩
    · intro _ w₂ h₂
      obtain ⟨rfl, hrefused⟩ := h₂
      refine ⟨hsame.grows, fun _ text hopens => ?_⟩
      obtain ⟨r', plaintext, hdecrypt, -⟩ := hopens.inv
      cases Subsingleton.elim r r'
      exact hrefused _ hdecrypt
  · intro _ w₁ h₁
    refine ⟨h₁.1.grows, fun hquiet text hopens => ?_⟩
    obtain ⟨r', -, -, hsize, -⟩ := hopens.inv
    exact h₁.2 hquiet r' hsize

/-- A header and records that follow it. -/
def OpensFile (ciphers : Ciphers) (key ad file text : List UInt8) : Prop :=
  ∃ header rest chunkSize, file = header ++ rest ∧ header.length = fileHeaderLength ∧
    headerChunkSize header = .ok chunkSize ∧
    Opens ciphers key ad header chunkSize 0 rest text

lemma OpensFile.unique {file text' : List UInt8}
    (h : OpensFile ciphers key ad file text)
    (h' : OpensFile ciphers key ad file text') : text = text' := by
  obtain ⟨header, rest, chunkSize, rfl, hlength, hsize, hopens⟩ := h
  obtain ⟨header', rest', chunkSize', hsplit, hlength', hsize', hopens'⟩ := h'
  obtain ⟨rfl, rfl⟩ := append_inj hsplit (hlength.trans hlength'.symm)
  cases hsize.symm.trans hsize'
  exact hopens.unique hopens'

/-- From the new temporary file to the destination. -/
lemma openBody_meets {w₀ : World} (hfresh : Fresh outputPath w₀ output w')
    (hgrows : Grows output.path [] w w') (chunkSize : Nat) (rest : List UInt8) :
    Meets (do
        openRecords host ciphers key ad header output chunkSize rest 0
        output.commit host outputPath) w'
      (fun _ w'' => ∃ text, Opens ciphers key ad header chunkSize 0 rest text ∧
        w''.disk outputPath = some text)
      (fun _ w'' => w''.disk outputPath = w.disk outputPath ∧ (host.Quiet → ∀ text,
        ¬ Opens ciphers key ad header chunkSize 0 rest text)) := by
  apply ((openRecords_meets hfresh.file chunkSize 0 rest w' hfresh.empty).mono
    (fun _ _ h => h) _).bind
  · intro _ w₁ h₁
    obtain ⟨hmore, text, hopens, hcontent⟩ := h₁
    apply (commit_meets hfresh.file hfresh.ne hcontent).mono
    · intro _ w₂ h₂
      exact ⟨text, hopens, by rw [h₂.1, nil_append]⟩
    · intro _ w₂ h₂
      refine ⟨?_, fun hquiet => absurd hquiet h₂.1⟩
      rw [h₂.2.disk, hmore.elsewhere _ hfresh.ne.symm, hgrows.elsewhere _ hfresh.ne.symm]
  · intro _ w₁ h₁
    refine ⟨?_, h₁.2⟩
    rw [h₁.1.elsewhere _ hfresh.ne.symm, hgrows.elsewhere _ hfresh.ne.symm]

/-- A file is opened exactly if it has a header and records; the destination is left alone
otherwise. -/
theorem openFileImpl_meets (inputPath outputPath : Path) :
    Meets (openFileImpl host ciphers key inputPath outputPath ad) w
      (fun _ w' => ∃ file text, w.disk inputPath = some file ∧
        OpensFile ciphers key ad file text ∧ w'.disk outputPath = some text)
      (fun _ w' => w'.disk outputPath = w.disk outputPath ∧
        (host.Quiet → Ready host inputPath outputPath w → ∀ file text,
          w.disk inputPath = some file → ¬ OpensFile ciphers key ad file text)) := by
  apply ((ensureDistinctFilePaths_meets inputPath outputPath).ended.mono (fun _ _ h => h.2) _).bind
  · intro _ w₁ h₁
    apply (fileOpen_meets _ inputPath).andThen
    · intro file w₂ h₂
      have hinput : w.disk inputPath = some file := by rw [← h₁.disk, h₂.1]
      have hsame₂ : Same w w₂ := h₁.trans h₂.2
      refine readExact_meets (by decide) rfl ?_ ?_
      · intro _ w₃ hsame₃ hshort
        refine ⟨by rw [(hsame₂.trans hsame₃).disk], fun hquiet _ file' text hfile hopens => ?_⟩
        cases hinput.symm.trans hfile
        obtain ⟨header, rest, _, hsplit, hlength, -⟩ := hopens
        have hless := hshort hquiet
        rw [hsplit, length_append, hlength] at hless
        omega
      · intro header w₃ hsame₃
        have hsame : Same w w₃ := hsame₂.trans hsame₃
        -- the file has no other header
        have hheader : ∀ text, OpensFile ciphers key ad file text →
            ∃ chunkSize, headerChunkSize header.val.data = .ok chunkSize ∧
              Opens ciphers key ad header.val.data chunkSize 0 header.val.left
                text := by
          intro text hopens
          obtain ⟨header', rest', chunkSize, hsplit, hlength, hsize, hopens⟩ := hopens
          obtain ⟨hdata, hleft⟩ := header.eq_of_append hsplit hlength
          exact ⟨chunkSize, by rwa [hdata], by rwa [hdata, hleft]⟩
        apply (Meets.ofExcept (Q := fun chunkSize w' => w' = w₃ ∧
          headerChunkSize header.val.data = .ok chunkSize) _ _).bind
        · intro chunkSize w₄ h₄
          obtain ⟨rfl, hsize⟩ := h₄
          apply (create_meets outputPath).andThen
          · intro output w₅ h₅
            have hgrows : Grows output.path [] w w₅ := hsame.grows.trans h₅.grows
            apply scope_meets (openBody_meets h₅ hgrows chunkSize header.val.left)
            · rintro w₆ w₇ ⟨text, hopens, hdisk⟩ hdrop
              refine ⟨file, text, hinput,
                ⟨_, _, chunkSize, header.val.split, header.property, hsize, hopens⟩, ?_⟩
              rw [hdrop.elsewhere _ h₅.ne.symm, hdisk]
            · rintro w₆ w₇ ⟨hdisk, hquiet⟩ hdrop
              refine ⟨by rw [hdrop.elsewhere _ h₅.ne.symm, hdisk],
                fun hq _ file' text hfile hopens => ?_⟩
              cases hinput.symm.trans hfile
              obtain ⟨chunkSize', hsize', hopens⟩ := hheader text hopens
              cases hsize.symm.trans hsize'
              exact hquiet hq text hopens
          · intro _ w₅ h₅
            refine ⟨by rw [h₅.2.destination, hsame.disk], fun hquiet hready => ?_⟩
            obtain ⟨-, name, hname, hfree⟩ := hready
            exact absurd (hfree.of_same hsame) (h₅.1 hquiet name hname)
        · intro chunkSize hsize
          exact ⟨rfl, hsize⟩
        · intro e herror
          refine ⟨by rw [hsame.disk], fun _ _ file' text hfile hopens => ?_⟩
          cases hinput.symm.trans hfile
          obtain ⟨chunkSize, hsize, -⟩ := hheader text hopens
          rw [hsize] at herror
          cases herror
    · intro _ w₂ h₂
      refine ⟨by rw [h₂.2.disk, h₁.disk], fun hquiet _ file text hfile => ?_⟩
      have hmissing := h₂.1 hquiet
      rw [h₁.disk, hfile] at hmissing
      cases hmissing
  · intro _ w₁ h₁
    refine ⟨by rw [h₁.2.disk], fun _ hready => ?_⟩
    obtain ⟨⟨w', hdistinct⟩, -⟩ := hready
    rw [hdistinct] at h₁
    cases h₁.1

end MuxRuntime.Crypto
