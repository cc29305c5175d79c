import MuxRuntime.Http.Chunked

/-!
# Sending a chunked body

What a sender may write: size lines in hexadecimal of either case with optional
extensions, non-empty chunks, and a trailer section of permitted fields. The reader
returns exactly the data that was sent, however the bytes are cut into reads.
-/

namespace MuxRuntime.Http

open List Utf8 Reads Str

/-! ## Size lines -/

/-- A size line: hexadecimal digits, then perhaps an extension after a semicolon. -/
structure SizeLine where
  digits : List Char
  extension : List Char
  digits_ne : digits ≠ []
  hexadecimal : ∀ c ∈ digits, isDigit 16 c = true
  extension_head : ∀ c ∈ extension.head?, c = ';'
  extension_line : ∀ c ∈ extension, c ≠ '\r' ∧ c ≠ '\n'

/-- The size that the digits stand for. -/
def SizeLine.size (l : SizeLine) : Nat :=
  value 16 l.digits

def SizeLine.bytes (l : SizeLine) : List UInt8 :=
  encode (l.digits ++ l.extension)

lemma ne_of_isDigit {radix : Nat} {c d : Char} (h : isDigit radix c = true)
    (hd : isDigit radix d = false) : c ≠ d := by
  rintro rfl
  rw [h] at hd
  cases hd

lemma isDigit_semicolon : isDigit 16 ';' = false := by decide

lemma isDigit_return : isDigit 16 '\r' = false := by decide

lemma SizeLine.isLine (l : SizeLine) : IsLine l.bytes := by
  apply Search.position_eq_none_of_not_mem
  rw [SizeLine.bytes, byte_mem_encode (by decide), mem_append]
  rintro (h | h)
  · exact ne_of_isDigit (l.hexadecimal _ h) isDigit_return rfl
  · exact (l.extension_line _ h).1 rfl

/-- The extension is cut off, and the digits are all that is left. -/
lemma SizeLine.sizeToken_eq (l : SizeLine) : sizeToken (l.digits ++ l.extension) = l.digits := by
  have hrun : (l.digits ++ l.extension).takeWhile (· != ';') = l.digits := by
    apply Cursor.takeWhile_run
    · intro c hc
      simpa using ne_of_isDigit (l.hexadecimal c hc) isDigit_semicolon
    · intro c hc
      simp [l.extension_head c hc]
  rw [sizeToken, hrun]
  exact trim_eq_self fun c hc => isWhitespace_of_isDigit (l.hexadecimal c hc)

lemma SizeLine.chunkSize_eq (l : SizeLine) (hsize : l.size ≤ usizeMax) :
    chunkSize l.bytes = .ok l.size := by
  have hparsed : fromStrRadix usizeMax 16 l.digits = some l.size :=
    (fromStrRadix_eq_some_iff (by decide)).mpr
      ⟨l.digits, .inl rfl, l.digits_ne, l.hexadecimal, rfl, hsize⟩
  rw [chunkSize, SizeLine.bytes, fromUtf8_encode]
  dsimp only
  rw [l.sizeToken_eq, hparsed]

/-! ## Trailer fields -/

/-- A field that a trailer section may hold. -/
structure TrailerField where
  name : List Char
  value : List Char
  token : isHttpToken name = true
  printable : (encode (trim value)).any isControlByte = false
  not_length : eqIgnoreAsciiCase (toAsciiLowercase name) "content-length".toList = false
  not_coding : eqIgnoreAsciiCase (toAsciiLowercase name) "transfer-encoding".toList = false

def TrailerField.bytes (t : TrailerField) : List UInt8 :=
  encode t.name ++ byte ':' :: encode t.value

lemma TrailerField.bytes_ne_nil (t : TrailerField) : t.bytes ≠ [] := by simp [TrailerField.bytes]

/-- No colon is part of a name. -/
lemma colon_not_mem_token {name : List Char} (h : isHttpToken name = true) :
    byte ':' ∉ encode name := by
  intro hcolon
  have hall : ∀ b ∈ encode name, isTokenByte b = true := by
    rw [isHttpToken, Bool.and_eq_true, all_eq_true] at h
    exact h.2
  have hnot : isTokenByte (byte ':') = false := by decide
  rw [hall _ hcolon] at hnot
  cases hnot

/-- The first colon separates the name from the value. -/
lemma findIdx?_colon {name rest : List UInt8} (h : byte ':' ∉ name) :
    (name ++ byte ':' :: rest).findIdx? (· == byte ':') = some name.length := by
  have hnone : name.findIdx? (· == byte ':') = none := by
    rw [List.findIdx?_eq_none_iff]
    intro b hb
    rw [beq_eq_false_iff_ne]
    rintro rfl
    exact h hb
  simp [hnone, List.findIdx?_cons]

/-- The reader permits exactly the trailer fields. -/
theorem validateHttpRequestTrailer_eq_ok_iff {line : List UInt8} :
    validateHttpRequestTrailer line = .ok () ↔ ∃ t : TrailerField, line = t.bytes := by
  constructor
  · intro h
    unfold validateHttpRequestTrailer at h
    split at h
    · cases h
    rename_i separator hseparator
    obtain ⟨hlt, hcolon, -⟩ := List.findIdx?_eq_some_iff_getElem.mp hseparator
    split at h
    · cases h
    rename_i name hname
    split at h
    · cases h
    rename_i value hvalue
    obtain ⟨name', hlower, h⟩ := Loop.bind_eq_ok h
    obtain ⟨_, hprintable, h⟩ := Loop.bind_eq_ok h
    unfold headerName at hlower
    split_ifs at hlower with htoken
    cases hlower
    unfold headerValue at hprintable
    split_ifs at hprintable with hcontrol
    split_ifs at h with hframing
    simp only [Bool.or_eq_true, not_or, Bool.not_eq_true] at hframing
    refine ⟨⟨name, value, htoken, by simpa using hcontrol, hframing.1, hframing.2⟩, ?_⟩
    rw [TrailerField.bytes, ← fromUtf8_eq_some_iff.mp hname, ← fromUtf8_eq_some_iff.mp hvalue,
      ← beq_iff_eq.mp hcolon, List.getElem_cons_drop, take_append_drop]
  · rintro ⟨t, rfl⟩
    have htake : (encode t.name ++ byte ':' :: encode t.value).take (encode t.name).length =
        encode t.name := take_left
    have hdrop : (encode t.name ++ byte ':' :: encode t.value).drop ((encode t.name).length + 1) =
        encode t.value := by
      rw [← drop_drop, drop_left]
      rfl
    unfold validateHttpRequestTrailer
    rw [TrailerField.bytes, findIdx?_colon (colon_not_mem_token t.token)]
    dsimp only
    rw [htake, hdrop, fromUtf8_encode, fromUtf8_encode]
    dsimp only
    rw [headerName, if_pos t.token]
    rw [headerValue, t.printable]
    change (if _ then _ else _) = _
    rw [t.not_length, t.not_coding]
    rfl

/-! ## Whole bodies -/

/-- A chunk as it is sent. -/
structure SentChunk where
  sizeLine : SizeLine
  data : List UInt8
  nonempty : data ≠ []
  announced : sizeLine.size = data.length

/-- A chunked body as it is sent. -/
structure SentBody where
  chunks : List SentChunk
  lastLine : SizeLine
  lastSize : lastLine.size = 0
  trailers : List TrailerField
  trailerLines : ∀ t ∈ trailers, IsLine t.bytes

def SentBody.frame (b : SentBody) : Frame where
  chunks := b.chunks.map fun c => ⟨c.sizeLine.bytes, c.data⟩
  lastLine := b.lastLine.bytes
  trailers := b.trailers.map TrailerField.bytes

/-- The bytes on the wire. -/
def SentBody.encode (b : SentBody) : List UInt8 :=
  b.frame.encode

/-- The data that is sent. -/
def SentBody.data (b : SentBody) : List UInt8 :=
  b.chunks.flatMap SentChunk.data

lemma SentBody.frame_body (b : SentBody) : b.frame.body = b.data := by
  simp [SentBody.frame, Frame.body, SentBody.data, flatMap_map]

/-- What the limits ask of a body. -/
structure SentBody.Within (maxHeaderBytes maxBodyBytes maxTrailers : Nat) (b : SentBody) :
    Prop where
  lines : ∀ line ∈ b.frame.sizeLines, line.length < maxHeaderBytes
  data : b.data.length ≤ maxBodyBytes
  encoded : b.encode.length ≤ maxBodyBytes + maxHeaderBytes
  trailerBytes : (b.trailers.map fun t => t.bytes.length + 2).sum ≤ maxHeaderBytes
  trailerCount : b.trailers.length ≤ maxTrailers

variable {maxHeader maxBody maxTrailers : Nat}

lemma data_length_le {b : SentBody} {c : SentChunk} (hc : c ∈ b.chunks) :
    c.data.length ≤ b.data.length := by
  obtain ⟨before, after, hchunks⟩ := append_of_mem hc
  rw [SentBody.data, hchunks, flatMap_append, flatMap_cons, length_append, length_append]
  omega

lemma SentBody.frame_valid {b : SentBody} (hb : b.Within maxHeader maxBody maxTrailers)
    (husize : maxBody ≤ usizeMax) : b.frame.Valid maxHeader maxBody maxTrailers where
  chunks := by
    intro c hc
    obtain ⟨sent, hsent, rfl⟩ := mem_map.mp hc
    have hlength : sent.data.length ≤ usizeMax :=
      le_trans (data_length_le hsent) (le_trans hb.data husize)
    refine ⟨sent.sizeLine.isLine, ?_, sent.nonempty⟩
    rw [sent.sizeLine.chunkSize_eq (by rw [sent.announced]; exact hlength), sent.announced]
  lastLine := b.lastLine.isLine
  lastSize := by
    change chunkSize b.lastLine.bytes = .ok 0
    rw [b.lastLine.chunkSize_eq (by rw [b.lastSize]; exact Nat.zero_le _), b.lastSize]
  trailers := by
    refine ⟨?_, ?_, ?_, ?_, ?_⟩
    · intro t ht
      obtain ⟨field, hfield, rfl⟩ := mem_map.mp ht
      exact b.trailerLines field hfield
    · intro t ht
      obtain ⟨field, -, rfl⟩ := mem_map.mp ht
      exact field.bytes_ne_nil
    · intro t ht
      obtain ⟨field, -, rfl⟩ := mem_map.mp ht
      exact validateHttpRequestTrailer_eq_ok_iff.mpr ⟨field, rfl⟩
    · simpa [SentBody.frame, Function.comp_def] using hb.trailerBytes
    · simpa [SentBody.frame] using hb.trailerCount
  body := by
    rw [b.frame_body]
    exact hb.data

/-- A body that is sent within the limits is received, and a body that is received
fits its limit. The bytes may come before the first read or in any reads. -/
theorem sent_body_is_received : (∀ (maxHeader maxBody maxTrailers : Nat) (b : SentBody),
      maxBody ≤ usizeMax → b.Within maxHeader maxBody maxTrailers →
      ∀ (ending : Ending) (initialBody : List UInt8) (reads : List SocketRead),
        initialBody ++ delivered reads = b.encode →
        readChunkedHttpRequestBody ending maxHeader maxBody initialBody maxTrailers
          reads = .ok b.data) ∧
    ∀ (maxHeader maxBody maxTrailers : Nat) (ending : Ending)
      (initialBody : List UInt8) (reads : List SocketRead) (body : List UInt8),
      readChunkedHttpRequestBody ending maxHeader maxBody initialBody maxTrailers
        reads = .ok body → body.length ≤ maxBody := by
  constructor
  · intro maxHeader maxBody maxTrailers b husize hb ending initialBody reads htext
    have hframe : initialBody ++ delivered reads = b.frame.encode ++ [] := by
      rw [append_nil]
      exact htext
    have hlength : initialBody.length + (delivered reads).length = b.frame.encode.length := by
      rw [← length_append, htext]
      rfl
    have hencoded : b.frame.encode.length ≤ maxBody + maxHeader := hb.encoded
    rw [readChunkedHttpRequestBody_eq_ok_iff hframe (b.frame_valid hb husize)]
    refine ⟨b.frame_body.symm, ?_⟩
    apply allowed_of_forall (by omega)
    intro m m' _ _ _ _ htotal
    apply permits_of_short
    · intro p hp
      obtain ⟨line, hline, hspan⟩ := exists_line_of_mem_lineSpans hp
      rw [hspan]
      exact hb.lines line hline
    · omega
  · intro maxHeader maxBody maxTrailers ending initialBody reads body h
    obtain ⟨f, rest, -, hf, rfl⟩ := exists_frame_of_readChunkedHttpRequestBody h
    exact hf.body

/-! A body of two chunks, one with an extension and one with a size in capitals, and
a trailer field; it arrives in reads that cut a size line and a line end. -/

def sampleLine (digits extension : String) (hne : digits.toList ≠ [])
    (hhex : digits.toList.all (isDigit 16) = true)
    (hhead : extension.toList.head?.all (· == ';') = true)
    (hline : extension.toList.all (fun c => c != '\r' && c != '\n') = true) : SizeLine where
  digits := digits.toList
  extension := extension.toList
  digits_ne := hne
  hexadecimal := all_eq_true.mp hhex
  extension_head := by
    intro c hc
    rcases hchars : extension.toList with _ | ⟨d, rest⟩
    · simp [hchars] at hc
    rw [hchars] at hc hhead
    simp only [List.head?_cons, Option.mem_def, Option.some.injEq] at hc
    subst hc
    simpa using hhead
  extension_line := by
    intro c hc
    have hboth := all_eq_true.mp hline c hc
    simpa using hboth

def sampleBody : SentBody where
  chunks :=
    [⟨sampleLine "3" ";name=é" (by decide) rfl rfl rfl, ascii "abc", by decide, rfl⟩,
      ⟨sampleLine "0A" "" (by decide) rfl rfl rfl, ascii "0123456789", by decide, rfl⟩]
  lastLine := sampleLine "0" "" (by decide) rfl rfl rfl
  lastSize := rfl
  trailers := [⟨"Checksum".toList, " 17".toList, rfl, rfl, rfl, rfl⟩]
  trailerLines := by
    intro t ht
    cases mem_singleton.mp ht
    rfl

def sampleReads : List SocketRead :=
  [⟨(sampleBody.encode.drop 2).take 9, by decide +kernel, by decide +kernel⟩,
    ⟨sampleBody.encode.drop 11, by decide +kernel, by decide +kernel⟩]

lemma sampleBody_within : sampleBody.Within 32 64 4 where
  lines := by decide +kernel
  data := by decide +kernel
  encoded := by decide +kernel
  trailerBytes := by decide +kernel
  trailerCount := by decide

theorem sent_body_is_received_sample :
    readChunkedHttpRequestBody .closed 32 64 (sampleBody.encode.take 2) 4 sampleReads =
        .ok (ascii "abc0123456789") ∧
      (ascii "abc0123456789").length ≤ 64 := by
  have hreceived := sent_body_is_received.1 32 64 4 sampleBody (by decide) sampleBody_within .closed
    (sampleBody.encode.take 2) sampleReads (by decide +kernel)
  exact ⟨hreceived, sent_body_is_received.2 32 64 4 .closed _ _ _ hreceived⟩

end MuxRuntime.Http
