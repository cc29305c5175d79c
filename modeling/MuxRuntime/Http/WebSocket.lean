import MuxRuntime.Foundations.Bytes
import MuxRuntime.Http.Request

/-!
# WebSocket frames

A frame is a byte with its final bit and opcode, a byte with its mask bit and a length
code, the length in zero, two or eight bytes, the mask key and the payload.
-/

namespace MuxRuntime.Http

open List Bytes Str

/-- A frame. -/
structure WebSocketFrameEntry where
  fin : Bool
  opcode : Int
  payload : List UInt8
  masked : Bool
  names : Nat
deriving DecidableEq, Repr

def maxWebsocketFrameBytes : Nat := 16 * 1024 * 1024

/-! ## Validation -/

def websocketOpcodes : List UInt8 := [0, 1, 2, 8, 9, 10]

def validateWebsocketOpcode (opcode : Int) : Except String UInt8 :=
  if 0 ≤ opcode ∧ opcode < 256 then
    let byte := UInt8.ofNat opcode.toNat
    if byte ∈ websocketOpcodes then .ok byte
    else .error ("unsupported WebSocket opcode " ++ toString opcode)
  else .error "WebSocket opcode must fit in a byte"

def validateWebsocketFrame (entry : WebSocketFrameEntry) : Except String UInt8 :=
  match validateWebsocketOpcode entry.opcode with
  | .error e => .error e
  | .ok opcode =>
    if entry.payload.length > maxWebsocketFrameBytes then
      .error ("WebSocket payload exceeds " ++ toString maxWebsocketFrameBytes ++ " bytes")
    else if opcode ≥ 8 ∧ entry.fin = false then
      .error "WebSocket control frames must have FIN set"
    else if opcode ≥ 8 ∧ entry.payload.length > 125 then
      .error "WebSocket control frame payload exceeds 125 bytes"
    -- A fragment of a text may end within a character.
    else if opcode = 1 ∧ entry.fin = true ∧ fromUtf8 entry.payload = none then
      .error "WebSocket text payload must be valid UTF-8"
    else if opcode = 8 ∧ entry.payload.length = 1 then
      .error "WebSocket close payload cannot contain one byte"
    else .ok opcode

/-! ## Encoding -/

abbrev MaskKey := Fin 4 → UInt8

/-- The mask is repeated. -/
def applyMask (key : MaskKey) (payload : List UInt8) : List UInt8 :=
  payload.mapIdx fun index byte => byte ^^^ key (Fin.ofNat 4 index)

def finBit (fin : Bool) : UInt8 :=
  (if fin then (1 : UInt8) else 0) <<< 7

def maskBit (masked : Bool) : UInt8 :=
  if masked then 0x80 else 0

/-- The short length, or its form. -/
def lengthCode (payloadLen : Nat) : UInt8 :=
  if payloadLen ≤ 125 then UInt8.ofNat payloadLen
  else if payloadLen ≤ 65535 then 126
  else 127

def lengthBytes (payloadLen : Nat) : List UInt8 :=
  if payloadLen ≤ 125 then []
  else if payloadLen ≤ 65535 then be 2 payloadLen
  else be 8 payloadLen

/-- `random` is what the random source of the system gives for a mask key. -/
def encodeWebsocketFrame (random : Except String MaskKey) (entry : WebSocketFrameEntry) :
    Except String (List UInt8) :=
  match validateWebsocketFrame entry with
  | .error e => .error e
  | .ok opcode =>
    let payloadLen := entry.payload.length
    let output := [finBit entry.fin ||| opcode,
      maskBit entry.masked ||| lengthCode payloadLen] ++ lengthBytes payloadLen
    if entry.masked then
      match random with
      | .error e => .error ("could not generate WebSocket mask: " ++ e)
      | .ok key => .ok (output ++ List.ofFn key ++ applyMask key entry.payload)
    else .ok (output ++ entry.payload)

/-! ## Decoding -/

/-- The length of the payload, and where the header goes on. -/
def frameLength (bytes : List UInt8) (code : UInt8) : Except String (Nat × Nat) :=
  if code ≤ 125 then .ok (code.toNat, 2)
  else if code = 126 then
    if bytes.length < 2 + 2 then .error "WebSocket frame length is truncated"
    else
      let length := ofBe ((bytes.drop 2).take 2)
      if length < 126 then .error "WebSocket frame uses a non-canonical length"
      else .ok (length, 4)
  else if code = 127 then
    if bytes.length < 2 + 8 then .error "WebSocket frame length is truncated"
    else
      let length := ofBe ((bytes.drop 2).take 8)
      if length ≥ 2 ^ 63 then .error "WebSocket frame length has its high bit set"
      else .ok (length, 10)
  else .error "WebSocket frame length code is invalid"

def decodeWebsocketFrame (bytes : List UInt8) : Except String WebSocketFrameEntry :=
  match bytes with
  | first :: second :: _ =>
    if first &&& 0x70 ≠ 0 then .error "WebSocket reserved bits are not supported"
    else
      let fin := first &&& 0x80 != 0
      let opcode : Int := (first &&& 0x0f).toNat
      match validateWebsocketOpcode opcode with
      | .error e => .error e
      | .ok _ =>
        let masked := second &&& 0x80 != 0
        match frameLength bytes (second &&& 0x7f) with
        | .error e => .error e
        | .ok (payloadLen, offset) =>
          if payloadLen > maxWebsocketFrameBytes then
            .error ("WebSocket payload exceeds " ++ toString maxWebsocketFrameBytes ++
              " bytes")
          else
            let maskLen := if masked then 4 else 0
            let payloadEnd := offset + maskLen + payloadLen
            if payloadEnd ≥ 2 ^ 64 then .error "WebSocket frame length overflows"
            else if bytes.length ≠ payloadEnd then
              .error "WebSocket frame contains trailing or truncated bytes"
            else
              let key : MaskKey := fun i => bytes.getD (offset + i) 0
              let payload := bytes.drop (offset + maskLen)
              let entry : WebSocketFrameEntry :=
                { fin := fin
                  opcode := opcode
                  payload := if masked then applyMask key payload else payload
                  masked := masked
                  names := 1 }
              match validateWebsocketFrame entry with
              | .error e => .error e
              | .ok _ => .ok entry
  | _ => .error "WebSocket frame is truncated"

/-! ## The parts of a frame -/

variable (key : MaskKey)

lemma length_applyMask (payload : List UInt8) : (applyMask key payload).length = payload.length :=
  length_mapIdx

/-- Masking twice with one key gives the payload back. -/
theorem applyMask_applyMask (payload : List UInt8) :
    applyMask key (applyMask key payload) = payload := by
  apply ext_getElem
  · rw [length_applyMask, length_applyMask]
  · intro i _ _
    simp [applyMask]

variable {opcode : UInt8}

/-- The first byte holds the final bit and the opcode. -/
lemma first_byte (fin : Bool) (h : opcode ∈ websocketOpcodes) :
    (finBit fin ||| opcode) &&& 0x70 = 0 ∧ ((finBit fin ||| opcode) &&& 0x80 != 0) = fin ∧
      (finBit fin ||| opcode) &&& 0x0f = opcode := by
  have hcases : opcode = 0 ∨ opcode = 1 ∨ opcode = 2 ∨ opcode = 8 ∨ opcode = 9 ∨ opcode = 10 := by
    simpa [websocketOpcodes] using h
  cases fin
  · rcases hcases with rfl | rfl | rfl | rfl | rfl | rfl <;> decide
  · rcases hcases with rfl | rfl | rfl | rfl | rfl | rfl <;> decide

/-- The second byte holds the mask bit and the length code. -/
lemma second_byte (masked : Bool) {code : UInt8} (h : code < 128) :
    ((maskBit masked ||| code) &&& 0x80 != 0) = masked ∧
      (maskBit masked ||| code) &&& 0x7f = code := by
  have hcode : code = UInt8.ofFin (Fin.castLE (by decide) (⟨code.toNat, h⟩ : Fin 128)) := rfl
  rw [hcode]
  generalize (⟨code.toNat, h⟩ : Fin 128) = n
  revert n
  cases masked <;> decide +kernel

lemma lengthCode_lt (len : Nat) : lengthCode len < 128 := by
  unfold lengthCode
  split
  · next h =>
      apply UInt8.lt_iff_toNat_lt.mpr
      rw [UInt8.toNat_ofNat', Nat.mod_eq_of_lt (by omega)]
      exact lt_of_le_of_lt h (by decide)
  · split <;> decide

lemma validateWebsocketOpcode_ok {opcode : Int} {byte : UInt8}
    (h : validateWebsocketOpcode opcode = .ok byte) :
    byte ∈ websocketOpcodes ∧ (byte.toNat : Int) = opcode := by
  unfold validateWebsocketOpcode at h
  split at h
  · next hrange =>
      dsimp only at h
      split at h
      · next hmem =>
          cases h
          refine ⟨hmem, ?_⟩
          rw [UInt8.toNat_ofNat']
          omega
      · cases h
  · cases h

variable {len : Nat}

/-- The three forms of a length are read back. -/
theorem frameLength_lengthBytes (h : len ≤ maxWebsocketFrameBytes) (first second : UInt8)
    (rest : List UInt8) :
    frameLength (first :: second :: (lengthBytes len ++ rest)) (lengthCode len) =
      .ok (len, 2 + (lengthBytes len).length) := by
  unfold maxWebsocketFrameBytes at h
  by_cases hshort : len ≤ 125
  · have hcode : (UInt8.ofNat len).toNat = len := by
      rw [UInt8.toNat_ofNat']
      omega
    have hle : UInt8.ofNat len ≤ 125 := by
      apply UInt8.le_iff_toNat_le.mpr
      rw [hcode]
      exact hshort
    simp [frameLength, lengthCode, lengthBytes, hshort, hcode, hle]
  · by_cases hmedium : len ≤ 65535
    · have hread : ofBe (be 2 len) = len := ofBe_be (by omega)
      have hlong : ¬ len < 126 := by omega
      have hthere : ¬ 2 + rest.length + 1 + 1 < 4 := by omega
      simp [frameLength, lengthCode, lengthBytes, hshort, hmedium, hread, hlong, hthere]
    · have hread : ofBe (be 8 len) = len := ofBe_be (by omega)
      have hlow : ¬ 9223372036854775808 ≤ len := by omega
      have hthere : ¬ 8 + rest.length + 1 + 1 < 10 := by omega
      simp [frameLength, lengthCode, lengthBytes, hshort, hmedium, hread, hlow, hthere]

lemma length_lengthBytes_le (len : Nat) : (lengthBytes len).length ≤ 8 := by
  unfold lengthBytes
  split_ifs <;> simp

variable {entry : WebSocketFrameEntry}

lemma validateWebsocketFrame_ok (h : validateWebsocketFrame entry = .ok opcode) :
    validateWebsocketOpcode entry.opcode = .ok opcode ∧
      entry.payload.length ≤ maxWebsocketFrameBytes := by
  unfold validateWebsocketFrame at h
  split at h
  · cases h
  rename_i byte hbyte
  split at h
  · cases h
  rename_i hlength
  refine ⟨?_, Nat.le_of_not_gt hlength⟩
  rw [hbyte]
  split_ifs at h
  exact h

/-- Names are no part of what is checked. -/
lemma validateWebsocketFrame_names (entry : WebSocketFrameEntry) (names : Nat) :
    validateWebsocketFrame { entry with names := names } = validateWebsocketFrame entry :=
  rfl

/-! ## Round trip -/

/-- Bytes of a header, a key and a body, read at their places. -/
lemma read_parts (b₁ b₂ : UInt8) (extra key body : List UInt8) :
    (b₁ :: b₂ :: (extra ++ (key ++ body))).drop (2 + extra.length + key.length) = body ∧
      ∀ i < key.length,
        (b₁ :: b₂ :: (extra ++ (key ++ body))).getD (2 + extra.length + i) 0 = key.getD i 0 := by
  have hparts : b₁ :: b₂ :: (extra ++ (key ++ body)) = (b₁ :: b₂ :: extra) ++ (key ++ body) := rfl
  have hlength : 2 + extra.length = (b₁ :: b₂ :: extra).length := Nat.add_comm 2 extra.length
  rw [hparts, hlength]
  constructor
  · rw [← drop_drop, drop_left, drop_left]
  · intro i hi
    rw [getD_eq_getElem?_getD, List.getElem?_append_right (Nat.le_add_right _ _),
      Nat.add_sub_cancel_left, List.getElem?_append_left hi, getD_eq_getElem?_getD]

/-- A frame is decoded from its parts. -/
lemma decode_parts {key body : List UInt8} (h : validateWebsocketFrame entry = .ok opcode)
    (hkey : key.length = if entry.masked then 4 else 0)
    (hbody : body.length = entry.payload.length)
    (hpayload : (if entry.masked then applyMask (fun i => key.getD i 0) body else body) =
      entry.payload) :
    decodeWebsocketFrame ((finBit entry.fin ||| opcode) ::
        (maskBit entry.masked ||| lengthCode entry.payload.length) ::
          (lengthBytes entry.payload.length ++ (key ++ body))) =
      .ok { entry with names := 1 } := by
  rcases validateWebsocketFrame_ok h with ⟨hopcode, hlength⟩
  rcases validateWebsocketOpcode_ok hopcode with ⟨hmem, heq⟩
  rcases first_byte entry.fin hmem with ⟨hreserved, hfin, hop⟩
  rcases second_byte entry.masked (lengthCode_lt entry.payload.length) with ⟨hmasked, hcode⟩
  rcases read_parts (finBit entry.fin ||| opcode)
    (maskBit entry.masked ||| lengthCode entry.payload.length) (lengthBytes entry.payload.length)
    key body with ⟨hdrop, hget⟩
  have hextra := length_lengthBytes_le entry.payload.length
  unfold decodeWebsocketFrame
  simp only [hreserved, hfin, hop, heq, hopcode, hmasked, hcode, ← hkey, hdrop,
    frameLength_lengthBytes hlength]
  rw [if_neg (by simp), if_neg (by omega), if_neg, if_neg]
  · -- The key is read at its place when there is one.
    have hread : (if entry.masked then applyMask (fun i => ((finBit entry.fin ||| opcode) ::
        (maskBit entry.masked ||| lengthCode entry.payload.length) ::
          (lengthBytes entry.payload.length ++ (key ++ body))).getD
            (2 + (lengthBytes entry.payload.length).length + i) 0) body else body) =
        entry.payload := by
      refine Eq.trans ?_ hpayload
      split
      · next hmask =>
          rw [if_pos hmask] at hkey
          congr 1
          funext i
          exact hget i (by omega)
      · rfl
    rw [hread, validateWebsocketFrame_names, h]
  · simp only [length_cons, length_append, hbody, not_not]
    omega
  · unfold maxWebsocketFrameBytes at hlength
    split at hkey <;> omega

lemma encode_parts (h : validateWebsocketFrame entry = .ok opcode) :
    encodeWebsocketFrame (.ok key) entry = .ok ((finBit entry.fin ||| opcode) ::
      (maskBit entry.masked ||| lengthCode entry.payload.length) ::
        (lengthBytes entry.payload.length ++ ((if entry.masked then List.ofFn key else []) ++
          if entry.masked then applyMask key entry.payload else entry.payload))) := by
  unfold encodeWebsocketFrame
  rw [h]
  dsimp only
  split
  · simp
  · rfl

/-- Whatever the mask key, decoding the encoding of a valid frame gives the frame. -/
theorem decodeFrame_encodeFrame (entry : WebSocketFrameEntry) (key : MaskKey) {opcode : UInt8}
    (h : validateWebsocketFrame entry = .ok opcode) :
    ∃ bytes, encodeWebsocketFrame (.ok key) entry = .ok bytes ∧
      decodeWebsocketFrame bytes = .ok { entry with names := 1 } := by
  refine ⟨_, encode_parts key h, decode_parts h ?_ ?_ ?_⟩
  · split
    · exact length_ofFn
    · rfl
  · split
    · exact length_applyMask _ _
    · rfl
  split
  · have hkey : (fun i : Fin 4 => (List.ofFn key).getD i 0) = key := by
      funext i
      rw [getD_eq_getElem?_getD, List.getElem?_ofFn, dif_pos i.isLt]
      rfl
    rw [hkey, applyMask_applyMask]
  · rfl

/-- A masked text of 130 bytes, cut within a character. -/
def textFragment : WebSocketFrameEntry where
  fin := false
  opcode := 1
  payload := List.replicate 129 0x61 ++ [0xc3]
  masked := true
  names := 2

/-- The length takes two more bytes, and the mask is used over and over. -/
theorem decodeFrame_fragment : validateWebsocketFrame textFragment = .ok 1 ∧
      ∃ bytes, encodeWebsocketFrame (.ok fun i => UInt8.ofNat (i + 7)) textFragment = .ok bytes ∧
        decodeWebsocketFrame bytes = .ok { textFragment with names := 1 } := by
  have hvalid : validateWebsocketFrame textFragment = .ok 1 := by decide +kernel
  exact ⟨hvalid, decodeFrame_encodeFrame textFragment _ hvalid⟩

/-! ## The bytes of a frame -/

/-- A length in eight bytes is one that two bytes do not hold. -/
def MinimalLength (bytes : List UInt8) : Prop :=
  bytes.getD 1 0 &&& 0x7f = 127 → 65535 < ofBe ((bytes.drop 2).take 8)

lemma header_bytes (byte : UInt8) :
    (byte &&& 0x70 = 0 → finBit (byte &&& 0x80 != 0) ||| (byte &&& 0x0f) = byte) ∧
      ((byte &&& 0x80 != 0) = false → byte &&& 0x7f = byte) := by
  have hbyte : byte = UInt8.ofFin ⟨byte.toNat, byte.toNat_lt⟩ := rfl
  rw [hbyte]
  generalize (⟨byte.toNat, byte.toNat_lt⟩ : Fin 256) = n
  revert n
  decide +kernel

lemma lengthCode_eq_iff : lengthCode len = 127 ↔ 65535 < len := by
  unfold lengthCode
  split_ifs with hshort hmedium
  · refine iff_of_false (fun h => ?_) (by omega)
    have hcode := congrArg UInt8.toNat h
    rw [UInt8.toNat_ofNat', Nat.mod_eq_of_lt (by omega)] at hcode
    exact absurd (hcode ▸ hshort) (by decide)
  · exact iff_of_false (by decide) (by omega)
  · exact iff_of_true rfl (by omega)

lemma frameLength_ok {bytes : List UInt8} {code : UInt8} {offset : Nat}
    (h : frameLength bytes code = .ok (len, offset)) :
    (code ≤ 125 ∧ len = code.toNat ∧ offset = 2) ∨
      (code = 126 ∧ 126 ≤ len ∧ len ≤ 65535 ∧
        (bytes.drop 2).take 2 = be 2 len ∧ offset = 4) ∨
      (code = 127 ∧ (bytes.drop 2).take 8 = be 8 len ∧
        ofBe ((bytes.drop 2).take 8) = len ∧ offset = 10) := by
  unfold frameLength at h
  dsimp only at h
  split_ifs at h with hshort hmedium hthere hlong hcode hthere hlow
  · cases h
    exact .inl ⟨hshort, rfl, rfl⟩
  · cases h
    have hlength : ((bytes.drop 2).take 2).length = 2 := by
      rw [length_take, length_drop]
      omega
    have hlt : ofBe ((bytes.drop 2).take 2) < 256 ^ 2 := ofLe_lt (by rw [length_reverse, hlength])
    exact .inr (.inl ⟨hmedium, by omega, by omega, (be_ofBe hlength).symm, rfl⟩)
  · cases h
    have hlength : ((bytes.drop 2).take 8).length = 8 := by
      rw [length_take, length_drop]
      omega
    exact .inr (.inr ⟨hcode, (be_ofBe hlength).symm, rfl, rfl⟩)

/-- What the decoder has read when it accepts a frame that is not masked. -/
lemma decodeWebsocketFrame_ok {bytes : List UInt8} (h : decodeWebsocketFrame bytes = .ok entry)
    (hmasked : entry.masked = false) : ∃ first second rest offset, bytes = first :: second :: rest ∧
      validateWebsocketFrame entry = .ok (first &&& 0x0f) ∧
      finBit entry.fin ||| (first &&& 0x0f) = first ∧ second &&& 0x7f = second ∧
      frameLength bytes second = .ok (entry.payload.length, offset) ∧
      entry.payload = bytes.drop offset ∧ entry.payload.length ≤ maxWebsocketFrameBytes := by
  unfold decodeWebsocketFrame at h
  split at h
  · next first second rest =>
      split_ifs at h with hreserved
      dsimp only at h
      split at h
      · cases h
      split at h
      · cases h
      rename_i len offset hlength
      split_ifs at h with hmax hmask _ _ hoverflow hend
      · -- A frame with the mask bit is a masked one.
        split at h
        · cases h
        · cases h
          exact absurd (hmask.symm.trans hmasked) Bool.noConfusion
      split at h
      · cases h
      rename_i opcode hvalid
      cases h
      have hcode := (header_bytes second).2 hmasked
      have hopcode := (validateWebsocketOpcode_ok (validateWebsocketFrame_ok hvalid).1).2
      have hsame : opcode = first &&& 0x0f := UInt8.toNat_inj.mp (Int.ofNat_inj.mp hopcode)
      have hpayload : ((first :: second :: rest).drop (offset + 0)).length = len := by
        rw [length_drop]
        omega
      refine ⟨first, second, rest, offset, rfl, hvalid.trans (congrArg Except.ok hsame),
        (header_bytes first).1 (by simpa using hreserved), hcode, ?_, rfl, ?_⟩
      · rw [hpayload, ← hlength, hcode]
      · exact hpayload.trans_le (Nat.le_of_not_gt hmax)
  · cases h

/-- A frame that is not masked is encoded as the bytes it was decoded from exactly when these
have the shortest form of its length. -/
theorem encodeFrame_decodeFrame {bytes : List UInt8} {entry : WebSocketFrameEntry}
    (random : Except String MaskKey) (h : decodeWebsocketFrame bytes = .ok entry)
    (hmasked : entry.masked = false) :
    encodeWebsocketFrame random entry = .ok bytes ↔ MinimalLength bytes := by
  rcases decodeWebsocketFrame_ok h hmasked with
    ⟨first, second, rest, offset, rfl, hvalid, hfirst, hsecond, hlength, hpayload, hmax⟩
  have hencode : encodeWebsocketFrame random entry = .ok (first ::
      lengthCode entry.payload.length :: (lengthBytes entry.payload.length ++ entry.payload)) := by
    unfold encodeWebsocketFrame
    rw [hvalid, hmasked]
    simp only [hfirst, maskBit, Bool.false_eq_true, if_false, UInt8.zero_or]
    rfl
  rw [hencode, MinimalLength]
  simp only [getD_cons_succ, getD_cons_zero, hsecond]
  rcases frameLength_ok hlength with ⟨hcode, hlen, rfl⟩ | ⟨rfl, hlow, hhigh, hbytes, rfl⟩ |
    ⟨rfl, hbytes, hlen, rfl⟩
  · have hle : second.toNat ≤ 125 := hcode
    have hshort : lengthCode entry.payload.length = second ∧
        lengthBytes entry.payload.length = [] := by
      simp [lengthCode, lengthBytes, hlen, hle]
    have hne : second ≠ 127 := by
      rintro rfl
      exact absurd hle (by decide)
    rw [hshort.1, hshort.2, hpayload]
    exact iff_of_true rfl fun h => absurd h hne
  · have hmedium : lengthCode entry.payload.length = 126 ∧
        lengthBytes entry.payload.length = rest.take 2 := by
      unfold lengthCode lengthBytes
      rw [if_neg (by omega), if_pos hhigh, if_neg (by omega), if_pos hhigh]
      exact ⟨rfl, hbytes.symm⟩
    rw [hmedium.1, hmedium.2, hpayload]
    refine iff_of_true ?_ fun h => absurd h (by decide)
    rw [drop_succ_cons, drop_succ_cons, take_append_drop]
  · rw [hlen]
    by_cases hlong : 65535 < entry.payload.length
    · have hcode : lengthCode entry.payload.length = 127 ∧
          lengthBytes entry.payload.length = rest.take 8 := by
        unfold lengthCode lengthBytes
        rw [if_neg (by omega), if_neg (by omega), if_neg (by omega), if_neg (by omega)]
        exact ⟨rfl, hbytes.symm⟩
      refine iff_of_true ?_ fun _ => hlong
      rw [hcode.1, hcode.2, hpayload, drop_succ_cons, drop_succ_cons, take_append_drop]
    · -- The encoder has a shorter form for this length.
      refine iff_of_false ?_ fun h => hlong (h rfl)
      intro h
      have hcode : lengthCode entry.payload.length = 127 := by
        injection h with h
        injection h with _ h
        injection h
      exact hlong (lengthCode_eq_iff.mp hcode)

/-- Five bytes of a binary frame, with their length in eight bytes. -/
def longLengthFrame : List UInt8 :=
  [0x82, 127, 0, 0, 0, 0, 0, 0, 0, 5, 1, 2, 3, 4, 5]

theorem longLength_accepted :
    decodeWebsocketFrame longLengthFrame = .ok ⟨true, 2, [1, 2, 3, 4, 5], false, 1⟩ ∧
      encodeWebsocketFrame (.error "no random source") ⟨true, 2, [1, 2, 3, 4, 5], false, 1⟩ =
        .ok [0x82, 5, 1, 2, 3, 4, 5] ∧
      ¬ MinimalLength longLengthFrame := by
  refine ⟨rfl, rfl, fun h => absurd (h rfl) (by decide)⟩

theorem encodeFrame_decodeFrame_short :
    decodeWebsocketFrame [0x82, 5, 1, 2, 3, 4, 5] = .ok ⟨true, 2, [1, 2, 3, 4, 5], false, 1⟩ ∧
      encodeWebsocketFrame (.error "no random source") ⟨true, 2, [1, 2, 3, 4, 5], false, 1⟩ =
        .ok [0x82, 5, 1, 2, 3, 4, 5] := by
  have hdecode : decodeWebsocketFrame [0x82, 5, 1, 2, 3, 4, 5] =
      .ok ⟨true, 2, [1, 2, 3, 4, 5], false, 1⟩ := rfl
  exact ⟨hdecode, (encodeFrame_decodeFrame _ hdecode rfl).mpr fun h => absurd h (by decide)⟩

end MuxRuntime.Http
