import MuxRuntime.Http.Segmentation

/-!
# The framing of accepted requests

Two parties that read the same request must agree where its body ends. An accepted
request never has both framings and all its lengths agree, but the integer parser
takes a plus sign, and the trimming white space, that the grammar of a length or a
chunk size does not have.
-/

namespace MuxRuntime.Http

open List Utf8 Reads Str Loop

/-! ## Raw tokens -/

/-- White space of the header grammar. -/
def isBlank (b : UInt8) : Bool :=
  b == byte ' ' || b == byte '\t'

/-- Bytes without the blanks around them. -/
def token (bytes : List UInt8) : List UInt8 :=
  (bytes.dropWhile isBlank).rdropWhile isBlank

/-- The bytes of a size line before any extension. -/
def sizeBytes (line : List UInt8) : List UInt8 :=
  token (line.takeWhile (· != byte ';'))

/-- The characters of ASCII bytes. -/
def latin (bytes : List UInt8) : List Char :=
  bytes.map UInt8.toChar

/-- A token of digits. -/
def Digits (radix : Nat) (bytes : List UInt8) : Prop :=
  bytes ≠ [] ∧ ∀ c ∈ latin bytes, isDigit radix c = true

/-- A token of visible ASCII characters that does not start with a plus sign. -/
structure Plain (bytes : List UInt8) : Prop where
  unsigned : bytes.head? ≠ some (byte '+')
  visible : ∀ b ∈ bytes, 0x21 ≤ b.toNat ∧ b.toNat ≤ 0x7e

lemma toNat_toChar (b : UInt8) : b.toChar.toNat = b.toNat := rfl

variable {radix : Nat} {bytes : List UInt8}

lemma encode_latin (h : ∀ b ∈ bytes, b.toNat < 128) : encode (latin bytes) = bytes := by
  induction bytes with
  | nil => rfl
  | cons b bytes ih =>
    have hb : byte b.toChar = b := UInt8.ofNat_toNat
    have hsmall : b.toChar.toNat < 128 := h b mem_cons_self
    rw [latin, map_cons, encode_cons, encodeChar_ascii hsmall, hb]
    exact congrArg (b :: ·) (ih fun b' hb' => h b' (mem_cons_of_mem b hb'))

lemma Digits.plain (h : Digits radix bytes) : Plain bytes := by
  have hdigit : ∀ b ∈ bytes, isDigit radix b.toChar = true :=
    fun b hb => h.2 _ (mem_map_of_mem hb)
  constructor
  · intro hplus
    have hsign : isDigit radix '+' = true := hdigit (byte '+') (mem_of_mem_head? hplus)
    rw [isDigit, digit_sign (.inl rfl)] at hsign
    cases hsign
  · intro b hb
    have hrange := isDigit_range (hdigit b hb)
    rw [toNat_toChar] at hrange
    omega

lemma toNat_of_isBlank {b : UInt8} (h : isBlank b = true) : b.toNat = 32 ∨ b.toNat = 9 := by
  simp only [isBlank, Bool.or_eq_true, beq_iff_eq] at h
  rcases h with rfl | rfl <;> decide

lemma isWhitespace_of_blanks (h : ∀ b ∈ bytes, isBlank b = true) :
    ∀ c ∈ latin bytes, isWhitespace c = true := by
  intro c hc
  obtain ⟨b, hb, rfl⟩ := mem_map.mp hc
  rcases toNat_of_isBlank (h b hb) with hb | hb <;> simp [isWhitespace, toNat_toChar, hb]

lemma Plain.not_isWhitespace (h : Plain bytes) : ∀ c ∈ latin bytes, isWhitespace c = false := by
  intro c hc
  obtain ⟨b, hb, rfl⟩ := mem_map.mp hc
  have hrange : 0x21 ≤ b.toChar.toNat ∧ b.toChar.toNat ≤ 0x7e := h.visible b hb
  simp only [isWhitespace, Bool.or_eq_false_iff, Bool.and_eq_false_iff, decide_eq_false_iff_not,
    beq_eq_false_iff_ne]
  omega

variable {text : List Char}

lemma eq_latin_encode (h : ∀ b ∈ encode text, b.toNat < 128) : text = latin (encode text) := by
  apply Option.some.inj
  rw [← fromUtf8_encode text]
  exact fromUtf8_eq_some_iff.mpr (encode_latin h).symm

/-- The white space that is trimmed around visible characters is blanks. -/
lemma trim_eq_latin (h : Plain (token (encode text))) :
    trim text = latin (token (encode text)) := by
  have hsplit : encode text = (encode text).takeWhile isBlank ++
      (token (encode text) ++ ((encode text).dropWhile isBlank).rtakeWhile isBlank) := by
    rw [token, rdropWhile_append_rtakeWhile, takeWhile_append_dropWhile]
  have hleft : ∀ b ∈ (encode text).takeWhile isBlank, isBlank b = true :=
    fun b hb => mem_takeWhile_imp hb
  have hright : ∀ b ∈ ((encode text).dropWhile isBlank).rtakeWhile isBlank, isBlank b = true :=
    fun b hb => mem_rtakeWhile_imp hb
  have hascii : ∀ b ∈ encode text, b.toNat < 128 := by
    intro b hb
    rw [hsplit, mem_append, mem_append] at hb
    rcases hb with hb | hb | hb
    · have := toNat_of_isBlank (hleft b hb)
      omega
    · have := h.visible b hb
      omega
    · have := toNat_of_isBlank (hright b hb)
      omega
  calc trim text = trim (latin (encode text)) := congrArg trim (eq_latin_encode hascii)
    _ = trim (latin ((encode text).takeWhile isBlank) ++ (latin (token (encode text)) ++
          latin (((encode text).dropWhile isBlank).rtakeWhile isBlank))) := by
      rw [latin, latin, latin, latin, ← map_append, ← map_append, ← hsplit]
    _ = latin (token (encode text)) := by
      rw [trim_append_left (isWhitespace_of_blanks hleft),
        trim_append_right (isWhitespace_of_blanks hright), trim_eq_self h.not_isWhitespace]

/-- A plain token that is parsed is digits, and the parser gives their value. -/
lemma Plain.digits {max n : Nat} (hradix : 0 < radix) (h : Plain (token (encode text)))
    (hparsed : fromStrRadix max radix (trim text) = some n) :
    Digits radix (token (encode text)) ∧ value radix (latin (token (encode text))) = n := by
  rw [trim_eq_latin h] at hparsed
  obtain ⟨digits, hsrc, hne, hdigits, hvalue, -⟩ := (fromStrRadix_eq_some_iff hradix).mp hparsed
  rcases hsrc with hsrc | hsrc
  · rw [← hsrc] at hne hdigits hvalue
    exact ⟨⟨fun hnil => hne (by rw [hnil]; rfl), hdigits⟩, hvalue⟩
  · cases htoken : token (encode text) with
    | nil =>
      rw [htoken] at hsrc
      cases hsrc
    | cons b rest =>
      rw [htoken] at hsrc
      have hb : b.toChar = '+' := (cons.inj hsrc).1
      have hplus : b = byte '+' := by rw [← hb]; exact UInt8.ofNat_toNat.symm
      exact absurd (by rw [htoken, hplus]; rfl) h.unsigned

lemma encode_takeWhile (text : List Char) :
    encode (text.takeWhile (· != ';')) = (encode text).takeWhile (· != byte ';') := by
  induction text with
  | nil => rfl
  | cons c text ih => ?_
  rcases encodeChar_head c with ⟨b, rest, henc, -, -, hascii, hrest⟩
  have hb := hascii ';' (by decide)
  have hlater : ∀ x ∈ rest, (x != byte ';') = true := by
    intro x hx
    have hx := hrest x hx
    rw [bne_iff_ne]
    rintro rfl
    exact absurd hx (by decide)
  by_cases hc : c = ';'
  · rw [takeWhile_cons_of_neg (by simpa using hc), encode_cons, henc, cons_append,
      takeWhile_cons_of_neg (by simpa using hb.mpr hc), encode_nil]
  · have hnext : b ≠ byte ';' := fun h => hc (hb.mp h)
    rw [takeWhile_cons_of_pos (by simpa using hc), encode_cons, encode_cons, henc, cons_append,
      cons_append, takeWhile_cons_of_pos (by simpa using hnext), takeWhile_append_of_pos hlater, ih]

/-! ## Header fields -/

/-- The values of the fields with this name, as they were sent. -/
def rawValues (name : String) (fields : List (List Char × List UInt8)) : List (List UInt8) :=
  (fields.filter fun field => eqIgnoreAsciiCase field.1 name.toList).map Prod.snd

variable {headers : Headers} {fields : List (List Char × List UInt8)}

/-- What is kept of a value. -/
def keptValue (bytes : List UInt8) : List Char :=
  trim ((fromUtf8 bytes).getD [])

/-- Accepted values are texts, and are kept without white space at their ends. -/
lemma headerPairs_eq_ok (h : headerPairs fields = .ok headers) :
    (∀ field ∈ fields, ∃ text, field.2 = encode text) ∧
      headers = fields.map fun field => (toAsciiLowercase field.1, keptValue field.2) := by
  induction fields generalizing headers with
  | nil =>
    cases h
    simp
  | cons field rest ih => ?_
  unfold headerPairs at h
  split at h
  · cases h
  rename_i text htext
  obtain ⟨name, hname, h⟩ := bind_eq_ok h
  obtain ⟨_, -, h⟩ := bind_eq_ok h
  obtain ⟨headers', hrest, h⟩ := bind_eq_ok h
  cases h
  obtain ⟨htexts, rfl⟩ := ih hrest
  have hname' : name = toAsciiLowercase field.1 := by
    unfold headerName at hname
    split_ifs at hname
    exact (Except.ok.inj hname).symm
  refine ⟨forall_mem_cons.mpr ⟨⟨text, fromUtf8_eq_some_iff.mp htext⟩, htexts⟩, ?_⟩
  rw [map_cons, hname', keptValue, htext]
  rfl

/-- Names are compared without regard to case, so they select the same values. -/
lemma fieldValues_kept (name : String) (fields : List (List Char × List UInt8)) :
    fieldValues name (fields.map fun field => (toAsciiLowercase field.1, keptValue field.2)) =
      (rawValues name fields).map keptValue := by
  induction fields with
  | nil => rfl
  | cons field fields ih => ?_
  have hname : eqIgnoreAsciiCase (toAsciiLowercase field.1) name.toList =
      eqIgnoreAsciiCase field.1 name.toList := by
    rw [eqIgnoreAsciiCase, toAsciiLowercase_idem]
    rfl
  unfold fieldValues rawValues at ih ⊢
  rw [map_cons, filter_cons, filter_cons, hname]
  split_ifs
  · rw [map_cons, map_cons, map_cons, ih]
  · exact ih

/-- The fields of an accepted header block. -/
lemma headers_of_parse {lib : Libraries} {slice : List UInt8} {maxHeaders : Nat}
    {method target : List Char} {version : String}
    (h : parseHttpRequestHeaderPairs lib slice maxHeaders = .ok (method, target, version, headers)) :
    ∃ request, lib.httparse slice maxHeaders = .ok request ∧
      headerPairs request.headers = .ok headers := by
  unfold parseHttpRequestHeaderPairs at h
  split at h
  · cases h
  rename_i request hrequest
  split_ifs at h
  split at h
  · cases h
  split at h
  · cases h
  obtain ⟨_, -, h⟩ := bind_eq_ok h
  obtain ⟨headers', hpairs, h⟩ := bind_eq_ok h
  obtain ⟨_, -, h⟩ := bind_eq_ok h
  cases h
  exact ⟨request, hrequest, hpairs⟩

/-- All lengths are parsed, and to one number. -/
lemma contentLengthOf_eq_ok {length result : Option Nat} {values : List (List Char)}
    (h : contentLengthOf length values = .ok result) :
    (∀ v ∈ values, ∃ n, fromStrRadix usizeMax 10 (trim v) = some n ∧ result = some n) ∧
      ∀ n, length = some n → result = some n := by
  induction values generalizing length with
  | nil =>
    cases h
    exact ⟨by simp, fun n hn => hn⟩
  | cons v values ih => ?_
  unfold contentLengthOf at h
  split at h
  · cases h
  rename_i parsed hparsed
  split_ifs at h with hconflict
  obtain ⟨hvalues, hknown⟩ := ih h
  refine ⟨forall_mem_cons.mpr ⟨⟨parsed, hparsed, hknown parsed rfl⟩, hvalues⟩, ?_⟩
  rintro n rfl
  have hsame : n = parsed := by simpa using hconflict
  rw [hsame]
  exact hknown parsed rfl

lemma headerContentLengthPairs_eq_ok {result : Option Nat}
    (h : headerContentLengthPairs headers = .ok result) :
    ∀ v ∈ fieldValues "content-length" headers,
      ∃ n, fromStrRadix usizeMax 10 (trim v) = some n ∧ result = some n := by
  obtain ⟨length, hlength, h⟩ := bind_eq_ok h
  have hresult : result = length := by
    split at h
    · cases h
      rfl
    · split_ifs at h
      cases h
      rfl
  rw [hresult]
  exact (contentLengthOf_eq_ok hlength).1

lemma chunkedTokens_true {tokens : List (List Char)} {result : Bool}
    (h : chunkedTokens true tokens = .ok result) : result = true := by
  cases tokens with
  | nil =>
    cases h
    rfl
  | cons token tokens =>
    unfold chunkedTokens at h
    simp only [if_true] at h
    split_ifs at h

/-- A request uses chunked coding exactly when it names a coding. -/
lemma chunked_iff {chunked : Bool}
    (h : requestUsesChunkedTransferEncoding headers = .ok chunked) :
    chunked = true ↔ fieldValues "transfer-encoding" headers ≠ [] := by
  unfold requestUsesChunkedTransferEncoding at h
  cases hvalues : fieldValues "transfer-encoding" headers with
  | nil =>
    rw [hvalues] at h
    cases h
    simp
  | cons value values => ?_
  rw [hvalues, flatMap_cons] at h
  obtain ⟨token, tokens, htokens⟩ := exists_cons_of_ne_nil (splitOn_ne_nil ',' value)
  rw [htokens, cons_append, chunkedTokens] at h
  split_ifs at h
  rw [chunkedTokens_true h]
  simp

/-- What the fields of an accepted request satisfy. -/
theorem requestHead_eq_ok {lib : Libraries} {limits : HttpServerLimits} {slice : List UInt8}
    {head : RequestHead} (h : requestHead lib limits slice = .ok head) :
    ∃ request, lib.httparse slice limits.maxHeaders = .ok request ∧
      head.headers.length = request.headers.length ∧
      (∃ length, ∀ v ∈ rawValues "content-length" request.headers,
        ∃ text, v = encode text ∧ fromStrRadix usizeMax 10 (trim text) = some length) ∧
      (rawValues "transfer-encoding" request.headers = [] ∨
        rawValues "content-length" request.headers = []) ∧
      (head.framing = .chunked ↔ rawValues "transfer-encoding" request.headers ≠ []) := by
  obtain ⟨⟨method, target, version, headers⟩, hparse, h⟩ := bind_eq_ok h
  dsimp only at h
  split_ifs at h
  obtain ⟨contentLength, hlength, h⟩ := bind_eq_ok h
  obtain ⟨chunked, hchunked, h⟩ := bind_eq_ok h
  split_ifs at h with hboth
  cases h
  obtain ⟨request, hrequest, hpairs⟩ := headers_of_parse hparse
  obtain ⟨htexts, rfl⟩ := headerPairs_eq_ok hpairs
  have hlengths := headerContentLengthPairs_eq_ok hlength
  have hcoding := chunked_iff hchunked
  rw [fieldValues_kept] at hlengths hcoding
  rw [ne_eq, map_eq_nil_iff] at hcoding
  -- what was parsed is the text of the field
  have hparsed : ∀ v ∈ rawValues "content-length" request.headers, ∃ text n, v = encode text ∧
      fromStrRadix usizeMax 10 (trim text) = some n ∧ contentLength = some n := by
    intro v hv
    obtain ⟨n, hn, hsome⟩ := hlengths _ (mem_map_of_mem hv)
    obtain ⟨field, hfield, rfl⟩ := mem_map.mp hv
    obtain ⟨text, htext⟩ := htexts field (mem_of_mem_filter hfield)
    rw [keptValue, htext, fromUtf8_encode, Option.getD_some, trim_trim] at hn
    exact ⟨text, n, htext, hn, hsome⟩
  refine ⟨request, hrequest, length_map _, ⟨contentLength.getD 0, ?_⟩, ?_, ?_⟩
  · intro v hv
    obtain ⟨text, n, htext, hn, rfl⟩ := hparsed v hv
    exact ⟨text, htext, hn⟩
  · by_cases hnone : rawValues "transfer-encoding" request.headers = []
    · exact .inl hnone
    right
    by_contra hsome
    obtain ⟨v, values, hvalues⟩ := exists_cons_of_ne_nil hsome
    obtain ⟨-, n, -, -, hlength⟩ := hparsed v (by rw [hvalues]; exact mem_cons_self)
    exact hboth (by simp [hcoding.mpr hnone, hlength])
  · rw [ne_eq, ← hcoding]
    cases chunked with
    | true => simp [bodyFraming]
    | false => cases contentLength <;> simp [bodyFraming]

/-! ## Accepted requests -/

/-- Framing that leaves no choice to its reader, of the fields and the size lines as they
were sent. -/
structure Unambiguous (fields : List (List Char × List UInt8)) (sizeLines : List (List UInt8)) :
    Prop where
  exclusive : rawValues "transfer-encoding" fields = [] ∨ rawValues "content-length" fields = []
  lengthDigits : ∀ v ∈ rawValues "content-length" fields, Digits 10 (token v)
  lengthAgree : ∀ v ∈ rawValues "content-length" fields,
    ∀ w ∈ rawValues "content-length" fields, value 10 (latin (token v)) = value 10 (latin (token w))
  chunkDigits : ∀ line ∈ sizeLines, Digits 16 (sizeBytes line)

/-- No length and no chunk size starts with a plus sign or has more than blanks around it. -/
structure PlainSizes (fields : List (List Char × List UInt8)) (sizeLines : List (List UInt8)) :
    Prop where
  lengths : ∀ v ∈ rawValues "content-length" fields, Plain (token v)
  chunks : ∀ line ∈ sizeLines, Plain (sizeBytes line)

/-- The size lines of the body that follows the header block. -/
inductive BodySizeLines (limits : HttpServerLimits) (fields : List (List Char × List UInt8))
    (text : List UInt8) : List (List UInt8) → Prop
  | chunked (f : Frame) (rest : List UInt8) (hcoding : rawValues "transfer-encoding" fields ≠ [])
      (htext : text = f.encode ++ rest)
      (hf : f.Valid limits.maxHeaderBytes limits.maxBodyBytes
        (limits.maxHeaders - fields.length)) : BodySizeLines limits fields text f.sizeLines
  | plain (hcoding : rawValues "transfer-encoding" fields = []) :
      BodySizeLines limits fields text []

/-- Every size line of a valid frame gives a size. -/
lemma fromStrRadix_of_mem_sizeLines {maxHeader maxBody maxTrailers : Nat} {f : Frame}
    (hf : f.Valid maxHeader maxBody maxTrailers) {line : List UInt8}
    (hline : line ∈ f.sizeLines) :
    ∃ text n, line = encode text ∧ fromStrRadix usizeMax 16 (sizeToken text) = some n := by
  have hsize : ∃ n, chunkSize line = .ok n := by
    rcases mem_append.mp hline with hmem | hmem
    · obtain ⟨c, hc, rfl⟩ := mem_map.mp hmem
      exact ⟨_, (hf.chunks c hc).size⟩
    · cases mem_singleton.mp hmem
      exact ⟨0, hf.lastSize⟩
  obtain ⟨n, hn⟩ := hsize
  unfold chunkSize at hn
  split at hn
  · cases hn
  rename_i text htext
  split at hn
  · cases hn
  · rename_i size hparsed
    exact ⟨text, size, fromUtf8_eq_some_iff.mp htext, hparsed⟩

/-- An accepted request has unambiguous framing exactly when no plus sign was skipped in a
length or in a chunk size, and nothing but blanks was trimmed around it. -/
theorem accepted_unambiguous_iff (lib : Libraries) (nextId : Nat) (limits : HttpServerLimits)
    (ending : Ending) (reads : List SocketRead) (entry : HttpRequestEntry)
    (haccepted : readTypedHttpRequestWithLimits lib nextId limits ending reads = .ok entry) :
    ∃ e request, headerEnd limits.maxHeaderBytes (delivered reads) = some e ∧
      lib.httparse ((delivered reads).take e) limits.maxHeaders = .ok request ∧
      (∃ sizeLines, BodySizeLines limits request.headers ((delivered reads).drop e) sizeLines) ∧
      ∀ sizeLines, BodySizeLines limits request.headers ((delivered reads).drop e) sizeLines →
        (Unambiguous request.headers sizeLines ↔ PlainSizes request.headers sizeLines) := by
  obtain ⟨e, he, head, body, hhead, hbody, rfl⟩ :=
    (outcome_eq_some_iff rfl).mp (toOption_eq_some_iff.mpr haccepted)
  obtain ⟨request, hrequest, hcount, ⟨length, hlengths⟩, hexclusive, hframing⟩ :=
    requestHead_eq_ok hhead
  refine ⟨e, request, he, hrequest, ?_, ?_⟩
  · by_cases hcoding : rawValues "transfer-encoding" request.headers = []
    · exact ⟨[], .plain hcoding⟩
    · obtain ⟨f, rest, htext, hf⟩ := exists_frame_of_body_chunked (hframing.mpr hcoding) hbody
      exact ⟨f.sizeLines, .chunked f rest hcoding htext (hcount ▸ hf)⟩
  intro sizeLines hlines
  constructor
  · exact fun hclear => ⟨fun v hv => (hclear.lengthDigits v hv).plain,
      fun line hline => (hclear.chunkDigits line hline).plain⟩
  intro hplain
  have hlength : ∀ v ∈ rawValues "content-length" request.headers,
      Digits 10 (token v) ∧ value 10 (latin (token v)) = length := by
    intro v hv
    obtain ⟨text, rfl, hparsed⟩ := hlengths v hv
    exact (hplain.lengths _ hv).digits (by decide) hparsed
  refine ⟨hexclusive, fun v hv => (hlength v hv).1, ?_, ?_⟩
  · intro v hv w hw
    rw [(hlength v hv).2, (hlength w hw).2]
  · intro line hline
    cases hlines with
    | chunked f rest hcoding hbytes hf =>
      obtain ⟨text, n, rfl, hparsed⟩ := fromStrRadix_of_mem_sizeLines hf hline
      have hsize := hplain.chunks _ hline
      rw [sizeBytes, ← encode_takeWhile] at hsize ⊢
      exact (hsize.digits (by decide) hparsed).1
    | plain hcoding => cases hline

/-! A length and chunk sizes that are accepted. -/

def plusHeader : List UInt8 :=
  ascii "POST / HTTP/1.1\r\nHost: a\r\nContent-Length: +1\r\n\r\n"

def plusParsed : ParsedRequest where
  complete := true
  method := some "POST".toList
  path := some "/".toList
  version := some 1
  headers := [("Host".toList, ascii "a"), ("Content-Length".toList, ascii "+1")]

def plusLibraries : Libraries where
  httparse slice _ := if slice = plusHeader then .ok plusParsed else .error "invalid"
  parseUrl := sampleLibraries.parseUrl

def plusRead : SocketRead :=
  ⟨plusHeader ++ ascii "x", by decide +kernel, by decide +kernel⟩

def plusEntry : HttpRequestEntry :=
  requestEntry 0
    ⟨"POST".toList, "/".toList, [("host".toList, ['a']), ("content-length".toList, ['+', '1'])],
      .length 1⟩ (ascii "x")

lemma plusRead_accepted :
    readTypedHttpRequestWithLimits plusLibraries 0 defaultLimits .closed [plusRead] =
      .ok plusEntry := by
  decide +kernel

/-- The request with a plus sign in its length. -/
theorem accepted_unambiguous_iff_plusRead :
    ∃ e request, headerEnd defaultLimits.maxHeaderBytes (delivered [plusRead]) = some e ∧
      plusLibraries.httparse ((delivered [plusRead]).take e) defaultLimits.maxHeaders = .ok request ∧
      (∃ sizeLines, BodySizeLines defaultLimits request.headers ((delivered [plusRead]).drop e)
        sizeLines) ∧
      ∀ sizeLines, BodySizeLines defaultLimits request.headers ((delivered [plusRead]).drop e)
          sizeLines →
        (Unambiguous request.headers sizeLines ↔ PlainSizes request.headers sizeLines) :=
  accepted_unambiguous_iff plusLibraries 0 defaultLimits .closed [plusRead] plusEntry
    plusRead_accepted

/-- A plus sign is accepted in a length and in a chunk size, and so is a no-break space before
a chunk size. -/
theorem plus_sign_accepted :
    (readTypedHttpRequestWithLimits plusLibraries 0 defaultLimits .closed [plusRead] =
        .ok plusEntry ∧
      rawValues "content-length" plusParsed.headers = [ascii "+1"]) ∧
    readChunkedHttpRequestBody .closed 65536 16777216 (ascii "+1\r\nx\r\n0\r\n\r\n") 128 [] =
      .ok (ascii "x") ∧
    readChunkedHttpRequestBody .closed 65536 16777216 (ascii "\u00a01\r\nx\r\n0\r\n\r\n") 128 [] =
      .ok (ascii "x") := by
  decide +kernel

end MuxRuntime.Http
