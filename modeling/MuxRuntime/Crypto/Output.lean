import MuxRuntime.Crypto.Files

/-!
# Calls of the system and the temporary file

Calls that only ask leave the files alone. All writing goes to the temporary file, which
is another file than the destination, until it takes the destination's place.
-/

namespace MuxRuntime.Crypto

open List Session Function

variable {host : Host} {w w' w'' : World} {path : Path} {es es' : List Encryption}

/-- No call fails. -/
def Host.Quiet (host : Host) : Prop :=
  ∀ call, host.failure call = none

/-- Only the number of calls differs. -/
structure Same (w w' : World) : Prop where
  disk : w'.disk = w.disk
  tempCounter : w'.tempCounter = w.tempCounter
  encryptions : w'.encryptions = w.encryptions

lemma Same.refl (w : World) : Same w w := ⟨rfl, rfl, rfl⟩

lemma Same.trans (h : Same w w') (h' : Same w' w'') : Same w w'' :=
  ⟨h'.disk.trans h.disk, h'.tempCounter.trans h.tempCounter, h'.encryptions.trans h.encryptions⟩

/-- Other files than the one at `path` are as before, and the encryptions `es` were made. -/
structure Grows (path : Path) (es : List Encryption) (w w' : World) : Prop where
  elsewhere : ∀ p, p ≠ path → w'.disk p = w.disk p
  encryptions : w'.encryptions = w.encryptions ++ es

lemma Same.grows (h : Same w w') : Grows path [] w w' :=
  ⟨fun p _ => congrFun h.disk p, by rw [h.encryptions, append_nil]⟩

lemma Grows.trans (h : Grows path es w w') (h' : Grows path es' w' w'') :
    Grows path (es ++ es') w w'' := by
  constructor
  · intro p hp
    rw [h'.elsewhere p hp, h.elsewhere p hp]
  · rw [h'.encryptions, h.encryptions, append_assoc]

/-- The destination and the encryptions are as before. -/
structure Unmoved (destination : Path) (w w' : World) : Prop where
  destination : w'.disk destination = w.disk destination
  encryptions : w'.encryptions = w.encryptions

variable {dest : Path}

lemma Grows.unmoved (h : Grows path [] w w') (hne : path ≠ dest) :
    Unmoved dest w w' :=
  ⟨h.elsewhere dest hne.symm, by rw [h.encryptions, append_nil]⟩

/-! ## Calls that only ask -/

variable (describe : String → String)

lemma systemCall_meets :
    Meets (systemCall host describe) w (fun _ => Same w) (fun _ w' => ¬ host.Quiet ∧ Same w w') := by
  unfold Meets systemCall
  rcases hfailure : host.failure w.calls with _ | e
  · exact ⟨rfl, rfl, rfl⟩
  refine ⟨?_, rfl, rfl, rfl⟩
  intro hquiet
  rw [hquiet] at hfailure
  cases hfailure

lemma fileRead_meets (rest : List UInt8) (size : Nat) :
    Meets (fileRead host describe rest size) w (fun _ => Same w)
      (fun _ w' => ¬ host.Quiet ∧ Same w w') := by
  apply (systemCall_meets describe).bind
  intro call w' hsame
  exact hsame

lemma nonce_meets :
    Meets (nonce host) w (fun n w' => (∃ call, n = (host.nonce call).val) ∧ Same w w')
      (fun _ w' => ¬ host.Quiet ∧ Same w w') := by
  apply (systemCall_meets _).bind
  intro call w' hsame
  exact ⟨⟨call, rfl⟩, hsame⟩

lemma fileOpen_meets (path : Path) :
    Meets (fileOpen host describe path) w (fun bytes w' => w.disk path = some bytes ∧ Same w w')
      (fun _ w' => (host.Quiet → w.disk path = none) ∧ Same w w') := by
  apply (systemCall_meets describe).andThen
  · intro call w' hsame
    apply Meets.get_bind
    rw [hsame.disk]
    cases hpath : w.disk path with
    | none => exact ⟨fun _ => rfl, hsame⟩
    | some bytes => exact ⟨rfl, hsame⟩
  · intro e w' h
    exact ⟨fun hquiet => absurd hquiet h.1, h.2⟩

lemma pathExists_meets (path : Path) :
    Meets (pathExists host path) w (fun _ => Same w) (fun _ _ => False) := by
  apply (systemCall_meets id).observe.bind
  intro outcome w' h
  cases outcome with
  | error e => exact h.2
  | ok call => exact h

lemma ensureDistinctFilePaths_meets (inputPath outputPath : Path) :
    Meets (ensureDistinctFilePaths host inputPath outputPath) w (fun _ => Same w)
      (fun _ => Same w) := by
  have hcall : ∀ (describe : String → String) w', Same w w' →
      Meets (systemCall host describe) w' (fun _ => Same w) (fun _ => Same w) := by
    intro describe w' hsame
    exact (systemCall_meets describe).mono (fun _ _ h => hsame.trans h)
      (fun _ _ h => hsame.trans h.2)
  apply ((fileOpen_meets _ inputPath).mono (fun _ _ h => h.2) (fun _ _ h => h.2)).bind
  intro _ w₁ h₁
  apply ((pathExists_meets outputPath).mono (fun _ _ h => h₁.trans h) (fun _ _ h => h.elim)).bind
  intro found w₂ h₂
  cases found with
  | false => exact h₂
  | true => ?_
  apply (hcall _ w₂ h₂).bind
  intro _ w₃ h₃
  apply (hcall _ w₃ h₃).bind
  intro _ w₄ h₄
  apply (hcall _ w₄ h₄).bind
  intro _ w₅ h₅
  split_ifs <;> exact h₅

/-! ## Calls that write -/

lemma removeFile_meets (path : Path) :
    Meets (removeFile host path) w (fun _ => Grows path [] w) (fun _ _ => False) := by
  apply (systemCall_meets id).observe.bind
  intro outcome w' h
  rcases outcome with _ | call
  · exact h.2.grows
  have hsame : Same w w' := h
  constructor
  · intro p hp
    exact (update_of_ne hp _ _).trans (congrFun hsame.disk p)
  · rw [append_nil]
    exact hsame.encryptions

lemma writeAll_meets {content : List UInt8} (hcontent : w.disk path = some content)
    (describe : String → String) (bytes : List UInt8) : Meets (writeAll host describe path bytes) w
      (fun _ w' => Grows path [] w w' ∧ w'.disk path = some (content ++ bytes))
      (fun _ w' => ¬ host.Quiet ∧ Grows path [] w w') := by
  unfold Meets writeAll
  rw [hcontent]
  cases hfailure : host.failure w.calls with
  | none => exact ⟨⟨fun p hp => update_of_ne hp _ _, (append_nil _).symm⟩, update_self ..⟩
  | some e =>
    refine ⟨?_, fun p hp => update_of_ne hp _ _, (append_nil _).symm⟩
    intro hquiet
    rw [hquiet] at hfailure
    cases hfailure

/-! ## The temporary file -/

namespace AtomicFileOutput

variable {name : String}

/-- The temporary file is beside the destination, with a longer name. -/
lemma temporaryPath_ne (hname : dest.fileName = some name) (counter : Nat) :
    temporaryPath host dest name counter ≠ dest := by
  intro heq
  have hlast : dest.getLast? = some (.normal (temporaryName host name counter)) := by
    rw [← heq, temporaryPath, Path.join, List.getLast?_append]
    rfl
  rw [Path.fileName, hlast] at hname
  have hlength := congrArg String.length (Option.some.inj hname)
  simp only [temporaryName, String.length_append] at hlength
  have hdot : ".".length = 1 := rfl
  omega

/-- The counter after this one. -/
def nextCounter (counter : Nat) : Nat :=
  (counter + 1) % 2 ^ 64

/-- One of the next temporary names is not taken. -/
def Free (host : Host) (dest : Path) (name : String) (attempts : Nat) (w : World) : Prop :=
  ∃ i < attempts, w.disk (temporaryPath host dest name (nextCounter^[i] w.tempCounter)) = none

lemma Free.of_same {attempts : Nat} (h : Same w w')
    (hfree : Free host dest name attempts w) : Free host dest name attempts w' := by
  obtain ⟨i, hi, hdisk⟩ := hfree
  exact ⟨i, hi, by rwa [h.disk, h.tempCounter]⟩

/-- An output whose file is open and empty. -/
structure Fresh (destination : Path) (w : World) (output : AtomicFileOutput) (w' : World) : Prop where
  file : output.file = some output.path
  ne : output.path ≠ destination
  empty : w'.disk output.path = some []
  grows : Grows output.path [] w w'

lemma createNew_meets (describe : String → String) (path : Path) :
    Meets (createNew host describe path) w
      (fun created w' => w'.tempCounter = w.tempCounter ∧
        if created then w'.disk path = some [] ∧ Grows path [] w w'
        else w.disk path ≠ none ∧ Same w w')
      (fun _ w' => ¬ host.Quiet ∧ Same w w') := by
  apply (systemCall_meets describe).bind
  intro call w' hsame
  apply Meets.get_bind
  rw [hsame.disk]
  cases hpath : w.disk path with
  | some bytes => exact ⟨hsame.tempCounter, by simp, hsame⟩
  | none => ?_
  refine ⟨hsame.tempCounter, update_self .., ?_⟩
  constructor
  · intro p hp
    exact (update_of_ne hp _ _).trans (congrFun hsame.disk p)
  · rw [append_nil]
    exact hsame.encryptions

lemma setPermissions_meets (dest path : Path) :
    Meets (setPermissions host dest path) w (fun _ => Same w)
      (fun _ w' => ¬ host.Quiet ∧ Grows path [] w w') := by
  apply (systemCall_meets id).observe.bind
  intro outcome w₁ h₁
  cases outcome with
  | ok call => exact h₁
  | error e =>
    apply ((removeFile_meets path).mono (fun _ _ h => h) (fun _ _ h => h.elim)).bind
    intro _ w₂ h₂
    exact ⟨h₁.1, h₁.2.grows.trans h₂⟩


lemma attempt_meets (hname : dest.fileName = some name) (attempts : Nat) (w : World) :
    Meets (attempt host dest name attempts) w (Fresh dest w)
      (fun _ w' => (host.Quiet → ¬ Free host dest name attempts w) ∧
        Unmoved dest w w') := by
  induction attempts generalizing w with
  | zero =>
    refine ⟨fun _ hfree => ?_, rfl, rfl⟩
    obtain ⟨i, hi, -⟩ := hfree
    omega
  | succ attempts ih => ?_
  let path := temporaryPath host dest name w.tempCounter
  have hne : path ≠ dest := temporaryPath_ne hname _
  let w₀ : World := { w with tempCounter := nextCounter w.tempCounter }
  have hcounted : ∀ p, Grows p [] w w₀ := fun p => ⟨fun _ _ => rfl, (append_nil _).symm⟩
  apply (createNew_meets _ path).andThen
  · intro created w₁ h₁
    obtain ⟨hcounter, h₁⟩ := h₁
    cases created with
    | true =>
      obtain ⟨hempty, hgrows⟩ : w₁.disk path = some [] ∧ Grows path [] w₀ w₁ := h₁
      apply (setPermissions_meets dest path).andThen
      · intro _ w₂ h₂
        exact ⟨rfl, hne, by rw [h₂.disk, hempty], ((hcounted path).trans hgrows).trans h₂.grows⟩
      · intro e w₂ h₂
        exact ⟨fun hquiet => absurd hquiet h₂.1,
          (((hcounted path).trans hgrows).trans h₂.2).unmoved hne⟩
    | false => ?_
    obtain ⟨htaken, hsame⟩ : w.disk path ≠ none ∧ Same w₀ w₁ := h₁
    apply (ih w₁).mono
    · intro output w₂ h₂
      exact ⟨h₂.file, h₂.ne, h₂.empty, ((hcounted output.path).trans hsame.grows).trans h₂.grows⟩
    · intro e w₂ h₂
      refine ⟨fun hquiet hfree => h₂.1 hquiet ?_, ?_, ?_⟩
      · -- the first name is taken, so the free one is a later one
        obtain ⟨i, hi, hdisk⟩ := hfree
        rcases i with _ | i
        · exact absurd hdisk htaken
        refine ⟨i, by omega, ?_⟩
        rw [hsame.disk, hsame.tempCounter]
        exact hdisk
      · exact h₂.2.destination.trans (congrFun hsame.disk dest)
      · exact h₂.2.encryptions.trans hsame.encryptions
  · intro e w₁ h₁
    exact ⟨fun hquiet => absurd hquiet h₁.1, ((hcounted path).trans h₁.2.grows).unmoved hne⟩

/-- The temporary file is new, empty and not the destination. -/
theorem create_meets (dest : Path) : Meets (create host dest) w (Fresh dest w)
      (fun _ w' => (host.Quiet → ∀ name, dest.fileName = some name →
        ¬ Free host dest name fileTempAttempts w) ∧ Unmoved dest w w') := by
  unfold create
  cases hname : dest.fileName with
  | none =>
    refine ⟨fun _ name h => ?_, rfl, rfl⟩
    cases h
  | some name => ?_
  apply (attempt_meets hname fileTempAttempts w).mono (fun _ _ h => h)
  intro e w' h
  refine ⟨fun hquiet name' hname' => ?_, h.2⟩
  cases hname'
  exact h.1 hquiet

variable {output : AtomicFileOutput}

lemma fileMut_eq (h : output.file = some path) : output.fileMut = pure path := by rw [fileMut, h]

/-- What a body has done stays, but for the temporary file. -/
theorem scope_meets {body : FileM Unit} {Q Q' : World → Prop} {E E' : World → Prop}
    (h : Meets body w (fun _ => Q) (fun _ => E))
    (hQ : ∀ w' w'', Q w' → Grows output.path [] w' w'' → Q' w'')
    (hE : ∀ w' w'', E w' → Grows output.path [] w' w'' → E' w'') :
    Meets (output.scope host body) w (fun _ => Q') (fun _ => E') := by
  apply h.observe.bind
  intro outcome w₁ h₁
  apply ((removeFile_meets output.path).mono (fun _ _ h => h) (fun _ _ h => h.elim)).bind
  intro _ w₂ h₂
  cases outcome with
  | ok _ => exact hQ w₁ w₂ h₁ h₂
  | error e => exact hE w₁ w₂ h₁ h₂

/-- The destination gets the bytes of the temporary file, or nothing changes. -/
theorem commit_meets {content : List UInt8} (hfile : output.file = some output.path)
    (hne : output.path ≠ dest) (hcontent : w.disk output.path = some content) :
    Meets (output.commit host dest) w
      (fun _ w' => w'.disk dest = some content ∧ w'.encryptions = w.encryptions)
      (fun _ w' => ¬ host.Quiet ∧ Same w w') := by
  unfold commit
  rw [fileMut_eq hfile, pure_bind]
  apply (systemCall_meets _).bind
  intro _ w₁ h₁
  apply ((systemCall_meets _).mono (fun _ _ h => h₁.trans h)
    (fun _ _ h => ⟨h.1, h₁.trans h.2⟩)).bind
  intro _ w₂ h₂
  apply Meets.get_bind
  rw [h₂.disk, hcontent]
  refine ⟨?_, h₂.encryptions⟩
  exact (update_of_ne hne.symm _ _).trans (update_self ..)

end AtomicFileOutput

/-- The paths are distinct, and a temporary file can be made. -/
def Ready (host : Host) (inputPath outputPath : Path) (w : World) : Prop :=
  (∃ w', ensureDistinctFilePaths host inputPath outputPath w = .ok () w') ∧
    ∃ name, outputPath.fileName = some name ∧
      AtomicFileOutput.Free host outputPath name fileTempAttempts w

end MuxRuntime.Crypto
