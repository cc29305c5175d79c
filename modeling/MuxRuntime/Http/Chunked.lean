import MuxRuntime.Http.Request

/-!
# Chunked bodies on the wire

A chunked body is a list of chunks, each a size line and its data, then a size line
for zero and a trailer section. The reader accepts a body exactly when the bytes
have this form and every read that it makes on the way stays within its limits.
-/

namespace MuxRuntime.Http

open List Utf8 Reads Str Source Loop

/-! ## Frames -/

/-- A size line and the data that it announces. -/
structure Chunk where
  line : List UInt8
  data : List UInt8
  deriving DecidableEq, Repr

def Chunk.encode (c : Chunk) : List UInt8 :=
  (c.line ++ crlf) ++ (c.data ++ crlf)

/-- A whole chunked body. -/
structure Frame where
  chunks : List Chunk
  lastLine : List UInt8
  trailers : List (List UInt8)
  deriving DecidableEq, Repr

def encodeTrailers (trailers : List (List UInt8)) : List UInt8 :=
  trailers.flatMap (· ++ crlf) ++ crlf

def Frame.encode (f : Frame) : List UInt8 :=
  f.chunks.flatMap Chunk.encode ++ ((f.lastLine ++ crlf) ++ encodeTrailers f.trailers)

def Frame.body (f : Frame) : List UInt8 :=
  f.chunks.flatMap Chunk.data

/-- All size lines, the last one included. -/
def Frame.sizeLines (f : Frame) : List (List UInt8) :=
  f.chunks.map Chunk.line ++ [f.lastLine]

/-- A line has no line end inside. -/
def IsLine (line : List UInt8) : Prop :=
  Search.position crlf line = none

/-- A chunk that is read. -/
structure Chunk.Valid (c : Chunk) : Prop where
  line : IsLine c.line
  size : chunkSize c.line = .ok c.data.length
  nonempty : c.data ≠ []

structure ValidTrailers (maxHeaderBytes maxTrailers : Nat) (trailers : List (List UInt8)) :
    Prop where
  line : ∀ t ∈ trailers, IsLine t
  nonempty : ∀ t ∈ trailers, t ≠ []
  field : ∀ t ∈ trailers, validateHttpRequestTrailer t = .ok ()
  bytes : (trailers.map fun t => t.length + 2).sum ≤ maxHeaderBytes
  count : trailers.length ≤ maxTrailers

/-- A body that is read. -/
structure Frame.Valid (maxHeaderBytes maxBodyBytes maxTrailers : Nat) (f : Frame) : Prop where
  chunks : ∀ c ∈ f.chunks, c.Valid
  lastLine : IsLine f.lastLine
  lastSize : chunkSize f.lastLine = .ok 0
  trailers : ValidTrailers maxHeaderBytes maxTrailers f.trailers
  body : f.body.length ≤ maxBodyBytes

/-! ## Sources -/

/-- The source after it has been filled up to a position and moved there. -/
def Source.advance (s : Source) (t : Nat) : Source :=
  ⟨(fill t s.buffer s.reads).1, t, (fill t s.buffer s.reads).2⟩

/-- The reads of a source on the way to a position are allowed. -/
def Source.Allows (s : Source) (P : Nat → Nat → Prop) (stop : Nat) : Prop :=
  Allowed P stop s.buffer.length s.reads

/-- The cursor is inside the buffer, and `rest` is ahead of it. -/
structure Source.At (s : Source) (rest : List UInt8) : Prop where
  cursor_le : s.cursor ≤ s.buffer.length
  ahead_eq : s.ahead = rest

variable {s : Source} {rest : List UInt8}

@[simp]
lemma Source.advance_cursor (s : Source) (t : Nat) : (s.advance t).cursor = t := rfl

lemma Source.advance_advance (s : Source) {t t' : Nat} (h : t ≤ t') :
    (s.advance t).advance t' = s.advance t' := by
  simp only [Source.advance, fill_fill h]

lemma Source.allows_iff_advance {P : Nat → Nat → Prop} {t t' : Nat} (h : t ≤ t') :
    s.Allows P t' ↔ s.Allows P t ∧ (s.advance t).Allows P t' :=
  allowed_iff_fill h s.buffer

lemma Source.length_eq (h : s.At rest) :
    (s.buffer ++ delivered s.reads).length = s.cursor + rest.length := by
  have hcursor := h.cursor_le
  rw [← h.ahead_eq, Source.ahead, length_drop, length_append]
  omega

/-- Moving past a piece of text leaves what follows it. -/
lemma Source.At.advance {piece : List UInt8} (h : s.At (piece ++ rest)) :
    (s.advance (s.cursor + piece.length)).At rest where
  cursor_le := by
    rw [advance_cursor]
    apply le_fill_length
    rw [Source.length_eq h, length_append]
    omega
  ahead_eq := by
    rw [Source.ahead, Source.advance, fill_text, ← drop_drop]
    have hahead : (s.buffer ++ delivered s.reads).drop s.cursor = piece ++ rest := h.ahead_eq
    rw [hahead, drop_left]

/-- A piece that is buffered is read off the buffer. -/
lemma slice_of_initial {buffer more piece : List UInt8} {cursor : Nat}
    (hpiece : piece <+: (buffer ++ more).drop cursor)
    (hbuffer : cursor + piece.length ≤ buffer.length) :
    Cursor.slice buffer cursor (cursor + piece.length) = piece := by
  rw [drop_append_of_le_length (by omega)] at hpiece
  have hinit : piece <+: buffer.drop cursor := by
    apply prefix_of_prefix_length_le hpiece (prefix_append _ _)
    rw [length_drop]
    omega
  rw [Cursor.slice, Nat.add_sub_cancel_left]
  exact (prefix_iff_eq_take.mp hinit).symm

lemma Source.slice_advance {before piece after : List UInt8} {t : Nat}
    (h : s.At (before ++ (piece ++ after))) (ht : s.cursor + before.length + piece.length ≤ t)
    (htext : t ≤ s.cursor + (before ++ (piece ++ after)).length) :
    Cursor.slice (s.advance t).buffer (s.cursor + before.length)
      (s.cursor + before.length + piece.length) = piece := by
  have hfilled : t ≤ (s.advance t).buffer.length := by
    apply le_fill_length
    rw [Source.length_eq h]
    exact htext
  have hahead : (s.buffer ++ delivered s.reads).drop s.cursor = before ++ (piece ++ after) :=
    h.ahead_eq
  have hinit : piece <+: ((s.advance t).buffer ++ delivered (s.advance t).reads).drop
      (s.cursor + before.length) := by
    rw [Source.advance, fill_text, ← drop_drop, hahead, drop_left]
    exact prefix_append _ _
  exact slice_of_initial hinit (by omega)

/-- The piece at the cursor. -/
lemma Source.slice_cursor {piece after : List UInt8} {t : Nat} (h : s.At (piece ++ after))
    (ht : s.cursor + piece.length ≤ t) (htext : t ≤ s.cursor + (piece ++ after).length) :
    Cursor.slice (s.advance t).buffer s.cursor (s.cursor + piece.length) = piece :=
  @Source.slice_advance s [] piece after t h ht htext

/-! ## One wait -/

section Waits

variable {ending : Ending} {maxHeader maxBody : Nat}

lemma readMoreHttpBytes_eq_ok_iff {buffer chunk buffer' : List UInt8} :
    readMoreHttpBytes maxHeader maxBody buffer chunk = .ok buffer' ↔
      buffer' = buffer ++ chunk ∧ (buffer ++ chunk).length ≤ maxBody + maxHeader := by
  unfold readMoreHttpBytes
  split_ifs with h
  · simp only [false_iff]
    rintro ⟨-, hle⟩
    omega
  · simp only [Except.ok.injEq]
    constructor
    · rintro rfl
      exact ⟨rfl, by omega⟩
    · exact fun hok => hok.1.symm

lemma crlf_ne_nil : crlf ≠ [] := by simp [crlf]

@[simp]
lemma crlf_length : crlf.length = 2 := rfl

variable {line : List UInt8}

lemma Source.slice_line (h : s.At ((line ++ crlf) ++ rest)) :
    Cursor.slice (fill (s.cursor + line.length + 2) s.buffer s.reads).1 s.cursor
      (s.cursor + line.length) = line := by
  rw [append_assoc] at h
  apply slice_cursor h
  · omega
  · rw [length_append, length_append, crlf_length]
    omega

/-- The end of a line is seen as soon as it is buffered. -/
lemma position_lineEnd {text line : List UInt8} {cursor : Nat}
    (htext : text.drop cursor = (line ++ crlf) ++ rest) (hline : IsLine line) (n : Nat) :
    (Search.position crlf ((text.take n).drop cursor)).map (cursor + ·) =
      if cursor + line.length + 2 ≤ n then some (cursor + line.length) else none := by
  have hfirst : Search.position crlf (text.drop cursor) = some line.length := by
    rw [htext, append_assoc]
    exact Search.position_line (by decide) hline rest
  rw [drop_take, Search.position_take crlf_ne_nil hfirst, crlf_length]
  by_cases hn : cursor + line.length + 2 ≤ n
  · rw [if_pos hn, if_pos (by omega)]
    rfl
  · rw [if_neg hn, if_neg (by omega)]
    rfl

/-- A wait for a line end that starts at `cursor`. -/
def LineWait (maxHeader maxBody : Nat) (guarded : Bool) (cursor : Nat) (m m' : Nat) :
    Prop :=
  (guarded = true → m ≤ cursor + maxHeader) ∧ m' ≤ maxBody + maxHeader

lemma readHttpLineEnd_eq_ok_iff {message : Option String} (h : s.At ((line ++ crlf) ++ rest))
    (hline : IsLine line) {result : Nat × List UInt8 × List SocketRead} :
    readHttpLineEnd ending maxHeader maxBody s.cursor message s.buffer s.reads =
        .ok result ↔
      result = (s.cursor + line.length, fill (s.cursor + line.length + 2) s.buffer s.reads) ∧
        s.Allows (LineWait maxHeader maxBody message.isSome s.cursor)
          (s.cursor + line.length + 2) := by
  apply readUntil_eq_ok_iff (fun n => message.isSome = true → n ≤ s.cursor + maxHeader)
    (fun n => n ≤ maxBody + maxHeader) _ _ _ rfl
  · intro n _
    exact position_lineEnd h.ahead_eq hline n
  · intro b
    rcases message with _ | message
    · simp
    simp only [Option.bind_some, Option.isSome_some, true_imp_iff, ite_eq_right_iff,
      reduceCtorEq, imp_false]
    omega
  · intro b d b'
    exact readMoreHttpBytes_eq_ok_iff

lemma eq_ok_iff {α : Type} {a b : α} : (Except.ok a : Except String α) = .ok b ↔ b = a := by
  rw [Except.ok.injEq, eq_comm]

/-- The next size line is parsed once it is buffered. -/
lemma readChunkSize_line_eq_ok_iff (h : s.At ((line ++ crlf) ++ rest)) (hline : IsLine line)
    {result : Nat × Source} :
    readChunkSize ending maxHeader maxBody s = .ok result ↔
      s.Allows (LineWait maxHeader maxBody true s.cursor)
          (s.cursor + (line ++ crlf).length) ∧
        (chunkSize line >>= fun size =>
          Except.ok (size, s.advance (s.cursor + (line ++ crlf).length))) = .ok result := by
  rw [readChunkSize, bind_eq_ok_iff_of fun _ => readHttpLineEnd_eq_ok_iff h hline,
    length_append, crlf_length, ← Nat.add_assoc]
  dsimp only
  rw [slice_line h]
  rfl

/-- The size of the next chunk. -/
lemma readChunkSize_eq_ok_iff {size : Nat} (h : s.At ((line ++ crlf) ++ rest))
    (hline : IsLine line) (hsize : chunkSize line = .ok size) {result : Nat × Source} :
    readChunkSize ending maxHeader maxBody s = .ok result ↔
      result = (size, s.advance (s.cursor + (line ++ crlf).length)) ∧
        s.Allows (LineWait maxHeader maxBody true s.cursor)
          (s.cursor + (line ++ crlf).length) := by
  rw [readChunkSize_line_eq_ok_iff h hline, hsize, and_comm]
  exact and_congr_left' eq_ok_iff

/-- A wait that only the size of the buffer can end. -/
def Roomy (maxHeader maxBody : Nat) (_ m' : Nat) : Prop :=
  m' ≤ maxBody + maxHeader

lemma lineWait_false (cursor : Nat) :
    LineWait maxHeader maxBody false cursor = Roomy maxHeader maxBody := by
  funext m m'
  simp [LineWait, Roomy]

/-- The data of a chunk and the line end after it. -/
lemma readChunkData_eq_ok_iff {data body : List UInt8} (h : s.At ((data ++ crlf) ++ rest))
    {result : List UInt8 × Source} :
    readChunkData ending maxHeader maxBody data.length s body = .ok result ↔
      result = (body ++ data, s.advance (s.cursor + (data ++ crlf).length)) ∧
        s.Allows (Roomy maxHeader maxBody) (s.cursor + (data ++ crlf).length) := by
  have hshort : ∀ buffer : List UInt8, buffer.length - s.cursor < data.length + 2 ↔
      buffer.length < s.cursor + data.length + 2 := by
    omega
  rw [append_assoc] at h
  have hlength : (data ++ (crlf ++ rest)).length = data.length + 2 + rest.length := by
    rw [length_append, length_append, crlf_length]
    omega
  have hdata := slice_cursor h (t := s.cursor + data.length + 2) (by omega) (by omega)
  have hend := slice_advance h (t := s.cursor + data.length + 2) (by simp) (by omega)
  rw [crlf_length] at hend
  unfold readChunkData
  rw [bind_eq_ok_iff_of (readUntil_length_iff (fun n => n ≤ maxBody + maxHeader) _ hshort
    (fun _ _ _ => readMoreHttpBytes_eq_ok_iff) s.reads)]
  simp only [true_and]
  change _ ∧ (if Cursor.slice (s.advance (s.cursor + data.length + 2)).buffer
    (s.cursor + data.length) (s.cursor + data.length + 2) ≠ crlf then _
    else Except.ok (body ++ Cursor.slice (s.advance (s.cursor + data.length + 2)).buffer s.cursor
      (s.cursor + data.length), s.advance (s.cursor + data.length + 2))) = _ ↔ _
  rw [if_neg (not_not.mpr hend), hdata, length_append, crlf_length, ← Nat.add_assoc, and_comm]
  exact and_congr_left' eq_ok_iff

/-- One trailer line before the rest of the section. -/
lemma encodeTrailers_cons (t : List UInt8) (trailers : List (List UInt8)) :
    encodeTrailers (t :: trailers) = (t ++ crlf) ++ encodeTrailers trailers := by
  simp [encodeTrailers]

lemma isLine_nil : IsLine [] := rfl

lemma length_le_encodeTrailers (trailers : List (List UInt8)) :
    trailers.length ≤ (encodeTrailers trailers).length := by
  induction trailers with
  | nil => simp
  | cons t trailers ih =>
    rw [encodeTrailers_cons, length_append, length_append, crlf_length, length_cons]
    omega

/-- One iteration of the trailer loop, on a line that is at the cursor. -/
lemma readTrailers_succ_eq_ok_iff {maxTrailers bound bytes count : Nat}
    (h : s.At ((line ++ crlf) ++ rest)) (hline : IsLine line) {result : Source} :
    readTrailers ending maxHeader maxBody maxTrailers (bound + 1) bytes count s =
        .ok result ↔
      s.Allows (Roomy maxHeader maxBody) (s.cursor + (line ++ crlf).length) ∧
        (if line.isEmpty then
          Except.ok (s.advance (s.cursor + (line ++ crlf).length))
        else if bytes + line.length + 2 > maxHeader then
          .error "chunked request trailers too large"
        else if count + 1 > maxTrailers then .error "too many HTTP request trailer fields"
        else validateHttpRequestTrailer line >>= fun _ =>
          readTrailers ending maxHeader maxBody maxTrailers bound
            (bytes + line.length + 2) (count + 1)
            (s.advance (s.cursor + (line ++ crlf).length))) = .ok result := by
  rw [readTrailers, bind_eq_ok_iff_of fun _ => readHttpLineEnd_eq_ok_iff h hline,
    length_append, crlf_length, ← Nat.add_assoc, Option.isSome_none, lineWait_false]
  apply and_congr_right
  intro _
  simp only [slice_line h]
  rfl

/-- A valid trailer section is read to its end. -/
lemma readTrailers_eq_ok_iff {maxTrailers bound bytes count : Nat}
    {trailers : List (List UInt8)} (h : s.At (encodeTrailers trailers ++ rest))
    (hline : ∀ t ∈ trailers, IsLine t) (hne : ∀ t ∈ trailers, t ≠ [])
    (hfield : ∀ t ∈ trailers, validateHttpRequestTrailer t = .ok ())
    (hbytes : bytes + (trailers.map fun t => t.length + 2).sum ≤ maxHeader)
    (hcount : count + trailers.length ≤ maxTrailers) (hbound : trailers.length < bound)
    {result : Source} :
    readTrailers ending maxHeader maxBody maxTrailers bound bytes count s = .ok result ↔
      result = s.advance (s.cursor + (encodeTrailers trailers).length) ∧
        s.Allows (Roomy maxHeader maxBody)
          (s.cursor + (encodeTrailers trailers).length) := by
  induction trailers generalizing s bytes count bound with
  | nil =>
    cases bound with
    | zero => omega
    | succ bound =>
      rw [readTrailers_succ_eq_ok_iff (show s.At (([] ++ crlf) ++ rest) from h) isLine_nil, and_comm]
      exact and_congr_left' eq_ok_iff
  | cons t trailers ih => ?_
  rcases bound with _ | bound
  · omega
  rw [map_cons, sum_cons] at hbytes
  rw [length_cons] at hcount hbound
  have hempty : ¬ t.isEmpty = true := by
    rw [List.isEmpty_iff]
    exact hne t (by simp)
  rw [encodeTrailers_cons, append_assoc] at h
  have hlength : (encodeTrailers (t :: trailers)).length =
      (t ++ crlf).length + (encodeTrailers trailers).length := by
    rw [encodeTrailers_cons, length_append]
  have hstop : s.cursor + (t ++ crlf).length ≤
      s.cursor + (encodeTrailers (t :: trailers)).length := by omega
  have hnext : s.cursor + (t ++ crlf).length + (encodeTrailers trailers).length =
      s.cursor + (encodeTrailers (t :: trailers)).length := by omega
  have hrest := @ih (s.advance (s.cursor + (t ++ crlf).length)) bound
    (bytes + t.length + 2) (count + 1) h.advance
    (fun u hu => hline u (by simp [hu])) (fun u hu => hne u (by simp [hu]))
    (fun u hu => hfield u (by simp [hu])) (by omega) (by omega) (by omega)
  rw [readTrailers_succ_eq_ok_iff h (hline t (by simp)), if_neg hempty, if_neg (by omega),
    if_neg (by omega), hfield t (by simp), allows_iff_advance hstop]
  change _ ∧ readTrailers _ _ _ _ _ _ _ _ = _ ↔ _
  rw [hrest, advance_cursor, hnext, advance_advance s hstop]
  tauto

end Waits

/-! ## Whole frames -/

/-- Where a size line lies: its first byte, and the bytes before its line end. -/
structure Span where
  start : Nat
  length : Nat
  deriving DecidableEq, Repr

/-- The position after the line end. -/
def Span.stop (p : Span) : Nat :=
  p.start + p.length + 2

/-- The size lines of a frame that starts at `start`. -/
def lineSpans (start : Nat) : List Chunk → List UInt8 → List Span
  | [], lastLine => [⟨start, lastLine.length⟩]
  | c :: chunks, lastLine =>
    ⟨start, c.line.length⟩ :: lineSpans (start + c.encode.length) chunks lastLine

def Frame.spans (f : Frame) : List Span :=
  lineSpans 0 f.chunks f.lastLine

/-- A read is permitted when no unfinished size line is buffered beyond the header
limit, and the buffer stays within both limits together. -/
def Permits (maxHeader maxBody : Nat) (spans : List Span) (m m' : Nat) : Prop :=
  (∀ p ∈ spans, m ≤ p.start + maxHeader ∨ p.stop ≤ m) ∧ m' ≤ maxBody + maxHeader

lemma le_start_of_mem_lineSpans {start : Nat} {chunks : List Chunk} {lastLine : List UInt8}
    {p : Span} (hp : p ∈ lineSpans start chunks lastLine) : start ≤ p.start := by
  induction chunks generalizing start with
  | nil =>
    cases mem_singleton.mp hp
    exact le_refl _
  | cons c chunks ih =>
    rcases mem_cons.mp hp with rfl | hp
    · exact le_refl _
    · have hlater := ih hp
      omega

/-- Every span is as long as one of the size lines. -/
lemma exists_line_of_mem_lineSpans {start : Nat} {chunks : List Chunk} {lastLine : List UInt8}
    {p : Span} (hp : p ∈ lineSpans start chunks lastLine) :
    ∃ line ∈ chunks.map Chunk.line ++ [lastLine], p.length = line.length := by
  induction chunks generalizing start with
  | nil =>
    cases mem_singleton.mp hp
    exact ⟨lastLine, by simp, rfl⟩
  | cons c chunks ih =>
    rcases mem_cons.mp hp with rfl | hp
    · exact ⟨c.line, by simp, rfl⟩
    · obtain ⟨line, hline, hlength⟩ := ih hp
      exact ⟨line, mem_cons_of_mem _ hline, hlength⟩

/-- Short size lines never stop a read. -/
lemma permits_of_short {maxHeader maxBody : Nat} {spans : List Span}
    (hshort : ∀ p ∈ spans, p.length < maxHeader) {m m' : Nat}
    (hm' : m' ≤ maxBody + maxHeader) :
    Permits maxHeader maxBody spans m m' := by
  refine ⟨?_, hm'⟩
  intro p hp
  have hlength := hshort p hp
  rw [Span.stop]
  omega

lemma Frame.encode_cons (c : Chunk) (chunks : List Chunk) (lastLine : List UInt8)
    (trailers : List (List UInt8)) : Frame.encode ⟨c :: chunks, lastLine, trailers⟩ =
      (c.line ++ crlf) ++ ((c.data ++ crlf) ++ Frame.encode ⟨chunks, lastLine, trailers⟩) := by
  simp [Frame.encode, Chunk.encode]

section Frames

variable {ending : Ending} {maxHeader maxBody : Nat}

/-- The buffer covers a position that the source was advanced to. -/
lemma Source.le_advance_length {t : Nat} (h : s.At rest) (ht : t ≤ s.cursor + rest.length) :
    t ≤ (s.advance t).buffer.length := by
  apply le_fill_length
  rw [Source.length_eq h]
  exact ht

/-- Up to the end of the first size line it alone counts, and afterwards the others. -/
lemma allows_permits_cons {line : List UInt8} {spans : List Span} {t : Nat}
    (h : s.At ((line ++ crlf) ++ rest)) (hspans : ∀ p ∈ spans, s.cursor + (line ++ crlf).length ≤ p.start)
    (ht : s.cursor + (line ++ crlf).length ≤ t) :
    s.Allows (Permits maxHeader maxBody (⟨s.cursor, line.length⟩ :: spans)) t ↔
      s.Allows (LineWait maxHeader maxBody true s.cursor)
          (s.cursor + (line ++ crlf).length) ∧
        (s.advance (s.cursor + (line ++ crlf).length)).Allows
          (Permits maxHeader maxBody spans) t := by
  have hline : (line ++ crlf).length = line.length + 2 := length_append
  rw [allows_iff_advance ht]
  apply and_congr
  · apply Allowed.congr
    intro m m' hm hstop
    have hlater : ∀ p ∈ spans, m ≤ p.start + maxHeader ∨ p.stop ≤ m := by
      intro p hp
      have hstart := hspans p hp
      left
      omega
    have hfirst : ¬ (s.cursor + line.length + 2 ≤ m) := by omega
    simp only [Permits, LineWait, forall_mem_cons, Span.stop, hfirst, or_false, true_imp_iff,
      and_assoc]
    apply and_congr_right
    intro _
    exact and_iff_right hlater
  · apply Allowed.congr
    intro m m' hm _
    have hcovered : s.cursor + (line ++ crlf).length ≤
        (s.advance (s.cursor + (line ++ crlf).length)).buffer.length := by
      apply le_advance_length h
      rw [@List.length_append _ (line ++ crlf)]
      omega
    have hpassed : s.cursor + line.length + 2 ≤ m := by omega
    simp [Permits, Span.stop, hpassed]

/-- Before the next size line begins, only the size of the buffer counts. -/
lemma allows_permits_roomy {spans : List Span} {t : Nat} (hspans : ∀ p ∈ spans, t ≤ p.start) :
    s.Allows (Permits maxHeader maxBody spans) t ↔
      s.Allows (Roomy maxHeader maxBody) t := by
  apply Allowed.congr
  intro m m' _ hstop
  have hlater : ∀ p ∈ spans, m ≤ p.start + maxHeader ∨ p.stop ≤ m := by
    intro p hp
    have hstart := hspans p hp
    left
    omega
  simp only [Permits, Roomy, and_iff_right_iff_imp]
  exact fun _ => hlater

variable {body result : List UInt8}

/-- The last size line and the trailer section. -/
lemma readChunks_last_eq_ok_iff {maxTrailers bound : Nat} {lastLine : List UInt8}
    {trailers : List (List UInt8)}
    (h : s.At ((lastLine ++ crlf) ++ (encodeTrailers trailers ++ rest))) (hline : IsLine lastLine)
    (hsize : chunkSize lastLine = .ok 0)
    (htrailers : ValidTrailers maxHeader maxTrailers trailers) :
    readChunks ending maxHeader maxBody maxTrailers (bound + 1) s body = .ok result ↔
      s.Allows (LineWait maxHeader maxBody true s.cursor)
          (s.cursor + (lastLine ++ crlf).length) ∧
        (s.advance (s.cursor + (lastLine ++ crlf).length)).Allows (Roomy maxHeader maxBody)
          (s.cursor + (lastLine ++ crlf).length + (encodeTrailers trailers).length) ∧
        result = body := by
  have hbound : trailers.length <
      (s.advance (s.cursor + (lastLine ++ crlf).length)).ahead.length + 1 := by
    have hlong := length_le_encodeTrailers trailers
    rw [h.advance.ahead_eq, length_append]
    omega
  rw [readChunks, bind_eq_ok_iff_of fun _ => readChunkSize_eq_ok_iff h hline hsize]
  change _ ∧ (readChunkedRequestTrailers ending maxHeader maxBody maxTrailers
    (s.advance (s.cursor + (lastLine ++ crlf).length)) >>= fun _ => Except.ok body) = _ ↔ _
  rw [readChunkedRequestTrailers, bind_eq_ok_iff_of fun _ =>
    readTrailers_eq_ok_iff h.advance htrailers.line htrailers.nonempty htrailers.field
      (by simpa using htrailers.bytes) (by simpa using htrailers.count) hbound, eq_ok_iff]
  rfl

/-- One chunk before the rest of the body. -/
lemma readChunks_chunk_eq_ok_iff {maxTrailers bound : Nat} {c : Chunk} (hc : c.Valid)
    (h : s.At ((c.line ++ crlf) ++ ((c.data ++ crlf) ++ rest)))
    (hbody : body.length + c.data.length ≤ maxBody) :
    readChunks ending maxHeader maxBody maxTrailers (bound + 1) s body = .ok result ↔
      s.Allows (LineWait maxHeader maxBody true s.cursor)
          (s.cursor + (c.line ++ crlf).length) ∧
        (s.advance (s.cursor + (c.line ++ crlf).length)).Allows (Roomy maxHeader maxBody)
          (s.cursor + (c.line ++ crlf).length + (c.data ++ crlf).length) ∧
        readChunks ending maxHeader maxBody maxTrailers bound
          (s.advance (s.cursor + (c.line ++ crlf).length + (c.data ++ crlf).length))
          (body ++ c.data) = .ok result := by
  have hne : ¬ c.data.length = 0 := by
    rw [length_eq_zero_iff]
    exact hc.nonempty
  rw [readChunks, bind_eq_ok_iff_of fun _ => readChunkSize_eq_ok_iff h hc.line hc.size]
  dsimp only
  rw [if_neg hne, if_neg (by omega),
    bind_eq_ok_iff_of fun _ => readChunkData_eq_ok_iff h.advance, advance_cursor,
    advance_advance s (by omega)]

/-- On bytes that start with a valid frame, the chunk loop returns its data exactly
when every read up to its end is permitted. -/
theorem readChunks_eq_ok_iff {maxTrailers bound : Nat} {f : Frame}
    (h : s.At (f.encode ++ rest)) (hchunks : ∀ c ∈ f.chunks, c.Valid)
    (hlastLine : IsLine f.lastLine) (hlastSize : chunkSize f.lastLine = .ok 0)
    (htrailers : ValidTrailers maxHeader maxTrailers f.trailers) {body : List UInt8}
    (hbody : (body ++ f.body).length ≤ maxBody) (hbound : f.chunks.length < bound)
    {result : List UInt8} :
    readChunks ending maxHeader maxBody maxTrailers bound s body = .ok result ↔
      result = body ++ f.body ∧
        s.Allows (Permits maxHeader maxBody (lineSpans s.cursor f.chunks f.lastLine))
          (s.cursor + f.encode.length) := by
  obtain ⟨chunks, lastLine, trailers⟩ := f
  dsimp only at hchunks hlastLine hlastSize htrailers hbound ⊢
  induction chunks generalizing s body bound with
  | nil =>
    rcases bound with _ | bound
    · omega
    have hencode : Frame.encode ⟨[], lastLine, trailers⟩ =
        (lastLine ++ crlf) ++ encodeTrailers trailers := rfl
    have hbody' : body ++ Frame.body ⟨[], lastLine, trailers⟩ = body := append_nil body
    rw [hencode, append_assoc] at h
    have hlength : s.cursor + (lastLine ++ crlf).length + (encodeTrailers trailers).length =
        s.cursor + (Frame.encode ⟨[], lastLine, trailers⟩).length := by
      rw [hencode, @List.length_append _ (lastLine ++ crlf), Nat.add_assoc]
    rw [readChunks_last_eq_ok_iff h hlastLine hlastSize htrailers, hlength, hbody', lineSpans,
      allows_permits_cons h (by simp) (by omega), allows_permits_roomy (by simp)]
    tauto
  | cons c chunks ih => ?_
  rcases bound with _ | bound
  · omega
  rw [Frame.encode_cons, append_assoc (c.line ++ crlf), append_assoc (c.data ++ crlf)] at h
  rw [length_cons] at hbound
  have hbody' : body ++ Frame.body ⟨c :: chunks, lastLine, trailers⟩ =
      (body ++ c.data) ++ Frame.body ⟨chunks, lastLine, trailers⟩ := by
    simp [Frame.body]
  have hchunk : s.cursor + c.encode.length =
      s.cursor + (c.line ++ crlf).length + (c.data ++ crlf).length := by
    rw [Chunk.encode, @List.length_append _ (c.line ++ crlf), Nat.add_assoc]
  have hlength : s.cursor + (c.line ++ crlf).length + (c.data ++ crlf).length +
        (Frame.encode ⟨chunks, lastLine, trailers⟩).length =
      s.cursor + (Frame.encode ⟨c :: chunks, lastLine, trailers⟩).length := by
    rw [Frame.encode_cons, @List.length_append _ (c.line ++ crlf),
      @List.length_append _ (c.data ++ crlf)]
    omega
  have hlater : ∀ p ∈ lineSpans (s.cursor + c.encode.length) chunks lastLine,
      s.cursor + (c.line ++ crlf).length + (c.data ++ crlf).length ≤ p.start := by
    intro p hp
    rw [← hchunk]
    exact le_start_of_mem_lineSpans hp
  rw [hbody'] at hbody ⊢
  have hsize : body.length + c.data.length ≤ maxBody := by
    rw [length_append, length_append] at hbody
    omega
  -- after the size line: first the data, then the rest of the frame
  have hsplit : (s.advance (s.cursor + (c.line ++ crlf).length)).Allows
      (Permits maxHeader maxBody (lineSpans (s.cursor + c.encode.length) chunks lastLine))
      (s.cursor + (Frame.encode ⟨c :: chunks, lastLine, trailers⟩).length) ↔ _ :=
    allows_iff_advance
      (show s.cursor + (c.line ++ crlf).length + (c.data ++ crlf).length ≤ _ by omega)
  rw [allows_permits_roomy hlater, advance_advance s (by omega)] at hsplit
  have hrest := h.advance.advance
  rw [advance_cursor, advance_advance s (by omega)] at hrest
  rw [readChunks_chunk_eq_ok_iff (hchunks c (by simp)) h hsize,
    ih hrest (fun d hd => hchunks d (by simp [hd])) hbody (by omega), advance_cursor,
    hlength, lineSpans,
    allows_permits_cons h (fun p hp => le_trans (by omega) (hlater p hp)) (by omega), hsplit,
    hchunk]
  tauto

/-! ## What is accepted is a frame -/

lemma readMoreHttpBytes_eq_ok {buffer chunk buffer' : List UInt8}
    (h : readMoreHttpBytes maxHeader maxBody buffer chunk = .ok buffer') :
    buffer' = buffer ++ chunk :=
  (readMoreHttpBytes_eq_ok_iff.mp h).1

section

variable (hcursor : s.cursor ≤ s.buffer.length)

include hcursor

/-- A line end that was found ends a line of the text. -/
lemma exists_line_of_readHttpLineEnd {message : Option String}
    {result : Nat × List UInt8 × List SocketRead}
    (h : readHttpLineEnd ending maxHeader maxBody s.cursor message s.buffer s.reads = .ok result) :
    ∃ line rest, IsLine line ∧ s.At ((line ++ crlf) ++ rest) := by
  obtain ⟨lineEnd, buffer', reads'⟩ := result
  obtain ⟨hready, htext, hlength⟩ := readUntil_eq_ok (fun _ _ _ => readMoreHttpBytes_eq_ok) h
  obtain ⟨i, hi, -⟩ := Option.map_eq_some_iff.mp hready
  obtain ⟨hline, hsplit⟩ := Search.position_eq_some_split crlf_ne_nil hi
  rw [← append_assoc] at hsplit
  refine ⟨_, (buffer'.drop s.cursor).drop (i + crlf.length) ++ delivered reads', hline, hcursor, ?_⟩
  rw [Source.ahead, ← htext, drop_append_of_le_length (by omega), ← append_assoc, ← hsplit]

lemma exists_line_of_readChunkSize {size : Nat} {s' : Source}
    (h : readChunkSize ending maxHeader maxBody s = .ok (size, s')) :
    ∃ line rest, IsLine line ∧ chunkSize line = .ok size ∧ s.At ((line ++ crlf) ++ rest) ∧
      s' = s.advance (s.cursor + (line ++ crlf).length) := by
  obtain ⟨_, hlineEnd, -⟩ := bind_eq_ok h
  obtain ⟨line, rest, hline, hat⟩ := exists_line_of_readHttpLineEnd hcursor hlineEnd
  obtain ⟨-, hsize⟩ := (readChunkSize_line_eq_ok_iff hat hline).mp h
  obtain ⟨size', hsize', heq⟩ := bind_eq_ok hsize
  cases heq
  exact ⟨line, rest, hline, hsize', hat, rfl⟩

lemma exists_data_of_readChunkData {size : Nat} {body body' : List UInt8} {s' : Source}
    (h : readChunkData ending maxHeader maxBody size s body = .ok (body', s')) :
    ∃ data rest, data.length = size ∧ s.At ((data ++ crlf) ++ rest) ∧ body' = body ++ data ∧
      s' = s.advance (s.cursor + (data ++ crlf).length) := by
  obtain ⟨⟨_, buffer', reads'⟩, hwait, hdata⟩ := bind_eq_ok h
  obtain ⟨hready, htext, hlength⟩ := readUntil_eq_ok (fun _ _ _ => readMoreHttpBytes_eq_ok) hwait
  have henough : size + 2 ≤ (buffer'.drop s.cursor).length := by
    split_ifs at hready with hshort
    rw [length_drop]
    omega
  have hend : Cursor.slice buffer' (s.cursor + size) (s.cursor + size + 2) = crlf := by
    dsimp only at hdata
    split_ifs at hdata with hmissing
    exact not_not.mp hmissing
  have hsplit : buffer'.drop s.cursor =
      ((buffer'.drop s.cursor).take size ++ crlf) ++ (buffer'.drop s.cursor).drop (size + 2) := by
    rw [Cursor.slice, Nat.add_sub_cancel_left, ← drop_drop] at hend
    rw [← hend, append_assoc, ← drop_drop, take_append_drop, take_append_drop]
  have hat : s.At (((buffer'.drop s.cursor).take size ++ crlf) ++
      ((buffer'.drop s.cursor).drop (size + 2) ++ delivered reads')) := by
    refine ⟨hcursor, ?_⟩
    rw [Source.ahead, ← htext, drop_append_of_le_length (by omega), ← append_assoc, ← hsplit]
  have hsize : ((buffer'.drop s.cursor).take size).length = size := by
    rw [length_take]
    omega
  obtain ⟨hresult, -⟩ := (readChunkData_eq_ok_iff hat).mp (by rw [hsize]; exact h)
  cases hresult
  exact ⟨_, _, hsize, hat, rfl, rfl⟩

/-- Trailers that are accepted form a valid section. -/
lemma exists_trailers_of_readTrailers {maxTrailers bound bytes count : Nat}
    (hbytes : bytes ≤ maxHeader) (hcount : count ≤ maxTrailers) {s' : Source}
    (h : readTrailers ending maxHeader maxBody maxTrailers bound bytes count s = .ok s') :
    ∃ trailers rest, s.At (encodeTrailers trailers ++ rest) ∧ (∀ t ∈ trailers, IsLine t) ∧
      (∀ t ∈ trailers, t ≠ []) ∧ (∀ t ∈ trailers, validateHttpRequestTrailer t = .ok ()) ∧
      bytes + (trailers.map fun t => t.length + 2).sum ≤ maxHeader ∧
      count + trailers.length ≤ maxTrailers := by
  induction bound generalizing s bytes count with
  | zero => cases h
  | succ bound ih => ?_
  have hline := h
  obtain ⟨_, hlineEnd, -⟩ := bind_eq_ok hline
  obtain ⟨line, rest, hline, hat⟩ := exists_line_of_readHttpLineEnd hcursor hlineEnd
  obtain ⟨-, h⟩ := (readTrailers_succ_eq_ok_iff hat hline).mp h
  split_ifs at h with hempty hlong hmany
  · cases List.isEmpty_iff.mp hempty
    exact ⟨[], rest, hat, by simp, by simp, by simp, by simpa using hbytes, by simpa using hcount⟩
  obtain ⟨_, hfield, hrest⟩ := bind_eq_ok h
  obtain ⟨trailers, rest', hat', hlines, hnes, hfields, hbytes', hcount'⟩ :=
    ih hat.advance.cursor_le (by omega) (by omega) hrest
  refine ⟨line :: trailers, rest', ⟨hcursor, ?_⟩, ?_, ?_, ?_, ?_, ?_⟩
  · rw [encodeTrailers_cons, append_assoc, ← hat'.ahead_eq, hat.advance.ahead_eq, hat.ahead_eq]
  · exact forall_mem_cons.mpr ⟨hline, hlines⟩
  · exact forall_mem_cons.mpr ⟨fun hnil => hempty (List.isEmpty_iff.mpr hnil), hnes⟩
  · exact forall_mem_cons.mpr ⟨hfield, hfields⟩
  · rw [map_cons, sum_cons]
    omega
  · rw [length_cons]
    omega

/-- What the chunk loop returns is the data of a valid frame at the cursor. -/
theorem exists_frame_of_readChunks {maxTrailers bound : Nat} (hbody : body.length ≤ maxBody)
    (h : readChunks ending maxHeader maxBody maxTrailers bound s body = .ok result) :
    ∃ (f : Frame) (rest : List UInt8), s.At (f.encode ++ rest) ∧ (∀ c ∈ f.chunks, c.Valid) ∧ IsLine f.lastLine ∧
      chunkSize f.lastLine = .ok 0 ∧ ValidTrailers maxHeader maxTrailers f.trailers ∧
      result = body ++ f.body ∧ (body ++ f.body).length ≤ maxBody := by
  induction bound generalizing s body with
  | zero => cases h
  | succ bound ih => ?_
  obtain ⟨⟨size, s'⟩, hsize, h⟩ := bind_eq_ok h
  obtain ⟨line, rest, hline, hchunkSize, hat, rfl⟩ := exists_line_of_readChunkSize hcursor hsize
  dsimp only at h
  split_ifs at h with hzero hlarge
  · subst hzero
    obtain ⟨s', htrailers, hresult⟩ := bind_eq_ok h
    obtain ⟨trailers, rest', hat', hlines, hnes, hfields, hbytes, hcount⟩ :=
      exists_trailers_of_readTrailers hat.advance.cursor_le (Nat.zero_le _) (Nat.zero_le _)
        htrailers
    rw [Nat.zero_add] at hbytes hcount
    have hbody' : body ++ Frame.body ⟨[], line, trailers⟩ = body := append_nil body
    refine ⟨⟨[], line, trailers⟩, rest', ⟨hcursor, ?_⟩, by simp, hline, hchunkSize,
      ⟨hlines, hnes, hfields, hbytes, hcount⟩, (eq_ok_iff.mp hresult).trans hbody'.symm, ?_⟩
    · change _ = ((line ++ crlf) ++ encodeTrailers trailers) ++ rest'
      rw [append_assoc, ← hat'.ahead_eq, hat.advance.ahead_eq, hat.ahead_eq]
    · rwa [hbody']
  · obtain ⟨⟨body', s'⟩, hdata, hrest⟩ := bind_eq_ok h
    obtain ⟨data, rest', hlength, hat', rfl, rfl⟩ :=
      exists_data_of_readChunkData hat.advance.cursor_le hdata
    obtain ⟨f, rest'', hat'', hchunks, hlast, hlastSize, htrailers, hresult, hfits⟩ :=
      ih hat'.advance.cursor_le (by rw [length_append]; omega) hrest
    refine ⟨⟨⟨line, data⟩ :: f.chunks, f.lastLine, f.trailers⟩, rest'', ⟨hcursor, ?_⟩, ?_, hlast,
      hlastSize, htrailers, ?_, ?_⟩
    · rw [Frame.encode_cons, append_assoc, append_assoc (data ++ crlf),
        ← hat''.ahead_eq, hat'.advance.ahead_eq, ← hat'.ahead_eq, hat.advance.ahead_eq,
        hat.ahead_eq]
    · refine forall_mem_cons.mpr ⟨⟨hline, ?_, ?_⟩, hchunks⟩
      · rw [hlength]
        exact hchunkSize
      · rintro rfl
        exact hzero hlength.symm
    · rw [hresult]
      simp [Frame.body]
    · simpa [Frame.body] using hfits

end

end Frames

/-! ## The body reader -/

section Body

variable {ending : Ending} {maxHeader maxBody maxTrailers : Nat}
  {initialBody : List UInt8} {reads : List SocketRead}

lemma chunks_length_le_encode (f : Frame) : f.chunks.length ≤ f.encode.length := by
  obtain ⟨chunks, lastLine, trailers⟩ := f
  induction chunks with
  | nil => exact Nat.zero_le _
  | cons c chunks ih =>
    rw [Frame.encode_cons, length_append, length_append, crlf_length, length_append]
    simp only [length_cons] at ih ⊢
    omega

/-- On bytes that start with a valid frame, the body reader returns its data exactly
when every read up to the end of the frame is permitted. -/
lemma readChunkedHttpRequestBody_eq_ok_iff {f : Frame} {rest : List UInt8}
    (htext : initialBody ++ delivered reads = f.encode ++ rest)
    (hf : f.Valid maxHeader maxBody maxTrailers) {result : List UInt8} :
    readChunkedHttpRequestBody ending maxHeader maxBody initialBody maxTrailers reads =
        .ok result ↔
      result = f.body ∧
        Allowed (Permits maxHeader maxBody f.spans) f.encode.length initialBody.length
          reads := by
  have hat : Source.At ⟨initialBody, 0, reads⟩ (f.encode ++ rest) := ⟨Nat.zero_le _, htext⟩
  have hbound : f.chunks.length < (initialBody ++ delivered reads).length + 1 := by
    have hlong := chunks_length_le_encode f
    rw [htext, length_append]
    omega
  have hloop : readChunks ending maxHeader maxBody maxTrailers
      ((initialBody ++ delivered reads).length + 1) ⟨initialBody, 0, reads⟩ [] = .ok result ↔ _ :=
    readChunks_eq_ok_iff hat hf.chunks hf.lastLine hf.lastSize hf.trailers hf.body hbound
  simp only [nil_append, Nat.zero_add] at hloop
  exact hloop

/-- Whatever the body reader returns is the data of a valid frame. -/
lemma exists_frame_of_readChunkedHttpRequestBody {result : List UInt8}
    (h : readChunkedHttpRequestBody ending maxHeader maxBody initialBody maxTrailers
      reads = .ok result) :
    ∃ (f : Frame) (rest : List UInt8), initialBody ++ delivered reads = f.encode ++ rest ∧
      f.Valid maxHeader maxBody maxTrailers ∧ result = f.body := by
  obtain ⟨f, rest, hat, hchunks, hlast, hsize, htrailers, hresult, hbody⟩ :=
    exists_frame_of_readChunks (Nat.zero_le _) (Nat.zero_le _) h
  exact ⟨f, rest, hat.ahead_eq, ⟨hchunks, hlast, hsize, htrailers, hbody⟩, hresult⟩

end Body

end MuxRuntime.Http
