import MuxRuntime.Http.Chunked

/-!
# Requests and the reads that bring them

Whether a request is accepted should not depend on how many bytes each read brings. This
holds for the header block and for bodies of a given length. A request without a body
length is refused when a read goes past its header block, and a chunked body can be
refused for bytes that happen to be buffered.
-/

namespace MuxRuntime.Http

open List Utf8 Reads Str Loop

/-! ## The header block -/

/-- Where the header block ends, if it ends within its limit. -/
def headerEnd (maxHeader : Nat) (text : List UInt8) : Option Nat :=
  ((findDoubleCrlf text).map (· + 4)).filter (· ≤ maxHeader)

variable {e : Nat}

lemma headerEnd_eq_some_iff {maxHeader : Nat} {text : List UInt8} :
    headerEnd maxHeader text = some e ↔
      ∃ p, findDoubleCrlf text = some p ∧ e = p + 4 ∧ p + 4 ≤ maxHeader := by
  unfold headerEnd
  rcases findDoubleCrlf text with _ | p
  · simp
  simp only [Option.map_some, Option.filter_some, decide_eq_true_eq, Option.some.injEq,
    exists_eq_left']
  split_ifs with hfits
  · simp [hfits, eq_comm]
  · simp [hfits]

lemma doubleCrlf_ne_nil : crlf ++ crlf ≠ [] := by simp [crlf]

/-- A prefix of the text shows the end of the header block once it contains it. -/
lemma findDoubleCrlf_initial {buffer rest text : List UInt8} (htext : buffer ++ rest = text) :
    findDoubleCrlf buffer =
      (findDoubleCrlf text).bind fun p => if p + 4 ≤ buffer.length then some p else none := by
  have hinit : text.take buffer.length = buffer := by rw [← htext, take_left]
  cases hfind : findDoubleCrlf text with
  | none =>
    have hnone := Search.position_take_of_none doubleCrlf_ne_nil hfind buffer.length
    rw [hinit] at hnone
    exact hnone
  | some p =>
    have hsome := Search.position_take doubleCrlf_ne_nil hfind buffer.length
    rw [hinit] at hsome
    exact hsome

variable {reads : List SocketRead}

/-- The header block is read up to the first read that completes it. -/
theorem readHttpRequestHeaders_eq_ok_iff {ending : Ending} {maxHeader : Nat}
    {buffer text : List UInt8} (htext : buffer ++ delivered reads = text)
    (hbuffer : findDoubleCrlf buffer = none) {result : List UInt8 × Nat × List SocketRead} :
    readHttpRequestHeaders ending maxHeader buffer reads = .ok result ↔
      ∃ e, headerEnd maxHeader text = some e ∧
        result = ((fill e buffer reads).1, e, (fill e buffer reads).2) := by
  induction reads generalizing buffer with
  | nil =>
    subst htext
    simp [readHttpRequestHeaders, headerEnd, hbuffer]
  | cons r reads ih => ?_
  have hbefore := findDoubleCrlf_initial htext
  rw [delivered_cons, ← append_assoc] at htext
  have hafter := findDoubleCrlf_initial htext
  unfold readHttpRequestHeaders httpHeaderEndWithinLimit
  cases hfind : findDoubleCrlf text with
  | none =>
    have hnever : ∀ e, headerEnd maxHeader text ≠ some e := by simp [headerEnd, hfind]
    rw [hfind] at hafter
    simp only [hafter, Option.bind_none]
    split_ifs with hlong
    · simp [hnever]
    · simp only [ih htext (by simpa using hafter), hnever, false_and, exists_false]
  | some p => ?_
  have hend : ∀ e, headerEnd maxHeader text = some e ↔ e = p + 4 ∧ p + 4 ≤ maxHeader := by
    intro e
    rw [headerEnd_eq_some_iff, hfind]
    simp
  rw [hfind, Option.bind_some] at hafter hbefore
  have hnotyet : ¬ p + 4 ≤ buffer.length := by
    intro hle
    rw [if_pos hle, hbuffer] at hbefore
    cases hbefore
  by_cases hfound : p + 4 ≤ (buffer ++ r.data).length
  · rw [if_pos hfound] at hafter
    simp only [hafter, hend]
    split_ifs with hlarge
    · simp only [false_iff]
      rintro ⟨e, ⟨-, hfits⟩, -⟩
      omega
    · simp only [Except.ok.injEq]
      constructor
      · rintro rfl
        refine ⟨p + 4, ⟨rfl, by omega⟩, ?_⟩
        rw [fill, if_neg hnotyet, fill_of_le hfound]
      · rintro ⟨e, ⟨rfl, -⟩, rfl⟩
        rw [fill, if_neg hnotyet, fill_of_le hfound]
  · rw [if_neg hfound] at hafter
    simp only [hafter]
    split_ifs with hlong
    · simp only [hend, false_iff]
      rintro ⟨e, ⟨-, hfits⟩, -⟩
      omega
    · simp only [ih htext hafter, hend]
      constructor
      all_goals
        rintro ⟨e, ⟨rfl, hfits⟩, rfl⟩
        refine ⟨p + 4, ⟨rfl, hfits⟩, ?_⟩
        rw [fill, if_neg hnotyet]

/-! ## Bodies of a given length -/

lemma allowed_true_iff {stop n : Nat} :
    Allowed (fun _ _ => True ∧ True) stop n reads ↔ stop ≤ n + (delivered reads).length := by
  constructor
  · exact Allowed.stop_le
  · intro henough
    exact allowed_of_forall henough fun _ _ _ _ _ _ _ => ⟨trivial, trivial⟩

/-- A body of a given length is the text up to that length. -/
lemma readHttpRequestBody_eq_ok_iff {ending : Ending} {initialBody text : List UInt8}
    {contentLength maxBody : Nat} (htext : initialBody ++ delivered reads = text)
    {body : List UInt8} :
    readHttpRequestBody ending initialBody contentLength maxBody reads = .ok body ↔
      contentLength ≤ maxBody ∧ contentLength ≤ text.length ∧
        body = text.take contentLength := by
  have hlength : initialBody.length + (delivered reads).length = text.length := by
    rw [← length_append, htext]
  unfold readHttpRequestBody
  split_ifs with hlarge
  · simp only [false_iff]
    rintro ⟨hfits, -⟩
    omega
  rw [bind_eq_ok_iff_of (readUntil_length_iff (fun _ => True) _ (fun _ => Iff.rfl)
    (fun _ _ _ => by rw [eq_ok_iff]; simp) reads), allowed_true_iff, hlength]
  have hfits : contentLength ≤ maxBody := by omega
  simp only [hfits, true_and]
  apply and_congr_right
  intro henough
  have htake : (fill contentLength initialBody reads).1.take contentLength =
      text.take contentLength := by
    rw [← htext, ← fill_text contentLength initialBody reads, take_append_of_le_length]
    apply le_fill_length
    rw [htext]
    exact henough
  rw [htake]
  exact eq_ok_iff

/-! ## Positions of the size lines -/

lemma Chunk.encode_length (c : Chunk) :
    c.encode.length = c.line.length + 2 + (c.data.length + 2) := by
  rw [Chunk.encode, length_append, length_append, length_append, crlf_length]

/-- Every size line has its span. -/
lemma exists_span_of_mem_sizeLines {f : Frame} {line : List UInt8} (hline : line ∈ f.sizeLines) :
    ∃ p ∈ f.spans, p.length = line.length := by
  have hgeneral : ∀ (chunks : List Chunk) (start : Nat),
      line ∈ chunks.map Chunk.line ++ [f.lastLine] →
        ∃ p ∈ lineSpans start chunks f.lastLine, p.length = line.length := by
    intro chunks
    induction chunks with
    | nil =>
      intro start hmem
      cases mem_singleton.mp hmem
      exact ⟨_, mem_singleton.mpr rfl, rfl⟩
    | cons c chunks ih => ?_
    intro start hmem
    rcases mem_cons.mp hmem with rfl | hmem
    · exact ⟨_, mem_cons_self, rfl⟩
    · obtain ⟨p, hp, hlength⟩ := ih (start + c.encode.length) hmem
      exact ⟨p, mem_cons_of_mem _ hp, hlength⟩
  exact hgeneral f.chunks 0 hline

/-- One line ends before the other begins. -/
def Span.Apart (p q : Span) : Prop :=
  p.stop ≤ q.start ∨ q.stop ≤ p.start

instance : Std.Symm Span.Apart where
  symm _ _ h := h.symm

/-- Size lines lie one after another. -/
lemma lineSpans_pairwise (start : Nat) (chunks : List Chunk) (lastLine : List UInt8) :
    (lineSpans start chunks lastLine).Pairwise Span.Apart := by
  induction chunks generalizing start with
  | nil => exact pairwise_singleton _ _
  | cons c chunks ih => ?_
  refine pairwise_cons.mpr ⟨?_, ih _⟩
  intro q hq
  have hstart := le_start_of_mem_lineSpans hq
  rw [Chunk.encode_length] at hstart
  left
  change start + c.line.length + 2 ≤ q.start
  omega

/-- Two size lines are the same or do not overlap. -/
lemma spans_disjoint {f : Frame} {p q : Span} (hp : p ∈ f.spans) (hq : q ∈ f.spans)
    (hne : p ≠ q) : p.Apart q :=
  (lineSpans_pairwise 0 f.chunks f.lastLine).forall hp hq hne

/-- Every size line lies within the frame. -/
lemma span_stop_le {f : Frame} {p : Span} (hp : p ∈ f.spans) : p.stop ≤ f.encode.length := by
  obtain ⟨chunks, lastLine, trailers⟩ := f
  have hgeneral : ∀ start, p ∈ lineSpans start chunks lastLine →
      p.stop ≤ start + (Frame.encode ⟨chunks, lastLine, trailers⟩).length := by
    clear hp
    induction chunks with
    | nil =>
      intro start hp
      cases mem_singleton.mp hp
      simp [Span.stop, Frame.encode]
      omega
    | cons c chunks ih => ?_
    intro start hp
    have hlength : (Frame.encode ⟨c :: chunks, lastLine, trailers⟩).length =
        c.encode.length + (Frame.encode ⟨chunks, lastLine, trailers⟩).length := by
      simp [Frame.encode]
    rcases mem_cons.mp hp with rfl | hp
    · rw [hlength, Chunk.encode_length]
      change start + c.line.length + 2 ≤ _
      omega
    · have hlater := ih _ hp
      omega
  simpa using hgeneral 0 hp

/-! ## Which splits a chunked body survives -/

section Chunked

variable {maxHeader maxBody maxTrailers : Nat} {f : Frame} {rest : List UInt8}

/-- No split of the text makes the reader refuse the frame: every size line is shorter
than the header limit, and a read past the end of the frame fits the buffer. -/
def AlwaysRead (maxHeader maxBody : Nat) (f : Frame) (length : Nat) : Prop :=
  (∀ line ∈ f.sizeLines, line.length < maxHeader) ∧ (length ≤ maxBody + maxHeader ∨
      f.encode.length + 1023 ≤ maxBody + maxHeader)

/-- Some split of the text makes the reader accept the frame: it comes with the header
block, or it fits the buffer and one read can complete each size line. -/
def SometimesRead (maxHeader maxBody : Nat) (f : Frame) : Prop :=
  f.encode.length ≤ 1023 ∨ (f.encode.length ≤ maxBody + maxHeader ∧
      ∀ line ∈ f.sizeLines, line.length + 2 ≤ maxHeader + 1024)

/-- The reads that bring a body, after the bytes that came with the header block. -/
structure Arrival (text : List UInt8) where
  initialBody : List UInt8
  reads : List SocketRead
  text_eq : initialBody ++ delivered reads = text
  initial_le : initialBody.length ≤ 1023

/-- The reader gets through the frame. -/
def Arrival.Reads {text : List UInt8} (a : Arrival text) (maxHeader maxBody : Nat)
    (f : Frame) : Prop :=
  Allowed (Permits maxHeader maxBody f.spans) f.encode.length a.initialBody.length a.reads

lemma Arrival.reads_of_always {text : List UInt8} (a : Arrival text)
    (htext : text = f.encode ++ rest)
    (halways : AlwaysRead maxHeader maxBody f text.length) :
    a.Reads maxHeader maxBody f := by
  obtain ⟨hlines, hroom⟩ := halways
  have hlength : a.initialBody.length + (delivered a.reads).length = text.length := by
    rw [← length_append, a.text_eq]
  have hframe : f.encode.length ≤ text.length := by
    rw [htext, length_append]
    omega
  apply allowed_of_forall (by omega)
  intro m m' _ hm _ hread htotal
  apply permits_of_short
  · intro p hp
    obtain ⟨line, hline, hspan⟩ := exists_line_of_mem_lineSpans hp
    rw [hspan]
    exact hlines line hline
  · omega

lemma sometimes_of_reads {text : List UInt8} {a : Arrival text}
    (ha : a.Reads maxHeader maxBody f) : SometimesRead maxHeader maxBody f := by
  by_cases hshort : f.encode.length ≤ 1023
  · exact .inl hshort
  have hinitial := a.initial_le
  refine .inr ⟨?_, ?_⟩
  · obtain ⟨m, m', hpermits, -, hpassed, -⟩ := ha.crossing (by omega) (le_refl _)
    exact le_trans hpassed hpermits.2
  intro line hline
  obtain ⟨p, hp, hlength⟩ := exists_span_of_mem_sizeLines hline
  have hstop : p.stop = p.start + p.length + 2 := rfl
  by_cases hbuffered : p.stop ≤ a.initialBody.length
  · omega
  -- the read that completes the line starts before the line is too long
  obtain ⟨m, m', hpermits, hm, hpassed, hread⟩ := ha.crossing (by omega) (span_stop_le hp)
  rcases hpermits.1 p hp with hbefore | hafter <;> omega

/-- A position at which the reader may read again. -/
def Calm (maxHeader : Nat) (f : Frame) (m : Nat) : Prop :=
  ∀ p ∈ f.spans, m ≤ p.start + maxHeader ∨ p.stop ≤ m

/-- One read leads to the next byte or over one size line. -/
lemma exists_calm_step (hlines : ∀ line ∈ f.sizeLines, line.length + 2 ≤ maxHeader + 1024)
    {m : Nat} (hm : m < f.encode.length) :
    ∃ m', m < m' ∧ m' ≤ m + 1024 ∧ m' ≤ f.encode.length ∧ Calm maxHeader f m' := by
  by_cases hnext : Calm maxHeader f (m + 1)
  · exact ⟨m + 1, by omega, by omega, by omega, hnext⟩
  unfold Calm at hnext
  push Not at hnext
  obtain ⟨p, hp, hlate, hearly⟩ := hnext
  obtain ⟨line, hline, hlength⟩ := exists_line_of_mem_lineSpans hp
  have hfits := hlines line hline
  have hstop : p.stop = p.start + p.length + 2 := rfl
  have hwithin := span_stop_le hp
  refine ⟨p.stop, by omega, by omega, hwithin, ?_⟩
  intro q hq
  by_cases hsame : p = q
  · right
    rw [hsame]
  · rcases spans_disjoint hp hq hsame with hafter | hbefore
    · left
      omega
    · right
      omega

lemma exists_reads_of_sometimes {text : List UInt8} (htext : text = f.encode ++ rest)
    (hsometimes : SometimesRead maxHeader maxBody f) :
    ∃ a : Arrival text, a.Reads maxHeader maxBody f := by
  rcases hsometimes with hshort | ⟨hroom, hlines⟩
  · refine ⟨⟨f.encode, singles (by decide) rest, ?_, hshort⟩, allowed_of_le (le_refl _) _⟩
    rw [delivered_singles, htext]
  have hframe : f.encode.length ≤ 0 + text.length := by
    rw [htext, length_append]
    omega
  have hstart : Calm maxHeader f 0 := fun p _ => .inl (Nat.zero_le _)
  obtain ⟨reads, hdelivered, hallowed⟩ :=
    exists_delivery (k := 1024) (P := Permits maxHeader maxBody f.spans) (by decide)
      hframe hstart (by
        intro m _ hm hcalm
        obtain ⟨m', hless, hread, hend, hcalm'⟩ := exists_calm_step hlines hm
        exact ⟨m', hless, hread, by omega, ⟨hcalm, by omega⟩, hcalm'⟩)
  exact ⟨⟨[], reads, hdelivered, Nat.zero_le _⟩, hallowed⟩

/-- If every arrival is read, every read within the frame is permitted. -/
lemma permits_of_always_reads {text : List UInt8}
    (hall : ∀ a : Arrival text, a.Reads maxHeader maxBody f) {m m' : Nat}
    (hm : m < f.encode.length) (hless : m < m') (hread : m' ≤ m + 1024)
    (htotal : m' ≤ text.length) : Permits maxHeader maxBody f.spans m m' := by
  obtain ⟨before, after, r, hdelivered, hbefore, hr⟩ :=
    exists_cut (k := 1024) (by decide) hless hread htotal
  have hallowed := hall ⟨[], before ++ r :: after, hdelivered, Nat.zero_le _⟩
  have hlast : Allowed _ f.encode.length (0 + (delivered before).length) (r :: after) :=
    Allowed.of_append hallowed (by rw [hbefore]; omega)
  rw [Nat.zero_add, hbefore] at hlast
  rcases hlast with hlast | ⟨hpermits, -⟩
  · omega
  · rwa [hr] at hpermits

lemma always_of_reads {text : List UInt8} (htext : text = f.encode ++ rest)
    (hall : ∀ a : Arrival text, a.Reads maxHeader maxBody f) :
    AlwaysRead maxHeader maxBody f text.length := by
  have hframe : f.encode.length ≤ text.length := by
    rw [htext, length_append]
    omega
  have hpositive : 0 < f.encode.length := by simp [Frame.encode, encodeTrailers]
  constructor
  · intro line hline
    obtain ⟨p, hp, hlength⟩ := exists_span_of_mem_sizeLines hline
    have hstop : p.stop = p.start + p.length + 2 := rfl
    have hwithin := span_stop_le hp
    by_contra hlong
    -- a read inside the line, one byte beyond the header limit
    have hpermits : Permits maxHeader maxBody f.spans (p.start + maxHeader + 1)
        (p.start + maxHeader + 2) :=
      permits_of_always_reads hall (by omega) (by omega) (by omega) (by omega)
    have hcalm := hpermits.1 p hp
    omega
  · by_cases hmore : f.encode.length + 1023 ≤ text.length
    · have hpermits : Permits maxHeader maxBody f.spans (f.encode.length - 1)
          (f.encode.length + 1023) :=
        permits_of_always_reads hall (by omega) (by omega) (by omega) hmore
      exact .inr hpermits.2
    · have hpermits : Permits maxHeader maxBody f.spans (f.encode.length - 1)
          text.length :=
        permits_of_always_reads hall (by omega) (by omega) (by omega) (le_refl _)
      exact .inl hpermits.2

end Chunked

/-! ## Whole requests -/

section Requests

variable {lib : Libraries} {nextId : Nat} {limits : HttpServerLimits} {ending : Ending}
  {text : List UInt8}

/-- The accepted request, if there is one. -/
def outcome (lib : Libraries) (nextId : Nat) (limits : HttpServerLimits) (ending : Ending)
    (reads : List SocketRead) : Option HttpRequestEntry :=
  (readTypedHttpRequestWithLimits lib nextId limits ending reads).toOption

/-- The body that is read, if there is one. -/
def Arrival.body {text : List UInt8} (a : Arrival text) (ending : Ending)
    (limits : HttpServerLimits) (head : RequestHead) : Option (List UInt8) :=
  (readFramedBody ending limits head a.initialBody a.reads).toOption

/-- What the bytes after the header block must be like. -/
def SafeBody (limits : HttpServerLimits) (head : RequestHead) (text : List UInt8) : Prop :=
  match head.framing with
  | .length _ => True
  | .unannounced => text = []
  | .chunked =>
    ∀ (f : Frame) (rest : List UInt8), text = f.encode ++ rest →
      f.Valid limits.maxHeaderBytes limits.maxBodyBytes
        (limits.maxHeaders - head.headers.length) →
      AlwaysRead limits.maxHeaderBytes limits.maxBodyBytes f text.length ∨
        ¬ SometimesRead limits.maxHeaderBytes limits.maxBodyBytes f

lemma le_filled {e : Nat} {reads : List SocketRead} (htext : delivered reads = text)
    (he : e ≤ text.length) : e ≤ (fill e [] reads).1.length := by
  apply le_fill_length
  rwa [nil_append, htext]

/-- What remains of the stream after the header block. -/
def arrivalOf {e : Nat} {reads : List SocketRead} (htext : delivered reads = text)
    (he : e ≤ text.length) (hpos : 0 < e) : Arrival (text.drop e) where
  initialBody := (fill e [] reads).1.drop e
  reads := (fill e [] reads).2
  text_eq := by
    have hfilled := le_filled htext he
    rw [← htext, ← nil_append (delivered reads), ← fill_text e [] reads,
      drop_append_of_le_length hfilled]
  initial_le := by
    have hbound : (fill e [] reads).1.length < e + 1024 := fill_length_lt hpos reads
    rw [length_drop]
    omega

lemma headerEnd_le (h : headerEnd limits.maxHeaderBytes text = some e) :
    e ≤ text.length ∧ 0 < e := by
  obtain ⟨p, hfind, rfl, -⟩ := headerEnd_eq_some_iff.mp h
  obtain ⟨hinit, -⟩ := (Search.position_eq_some_iff doubleCrlf_ne_nil).mp hfind
  have hlength := hinit.length_le
  rw [length_drop, length_append, crlf_length] at hlength
  omega

lemma take_fill (htext : delivered reads = text) (he : e ≤ text.length) :
    (fill e [] reads).1.take e = text.take e := by
  have hfilled := le_filled htext he
  rw [← htext, ← nil_append (delivered reads), ← fill_text e [] reads,
    take_append_of_le_length hfilled]

/-- A request is decided by its header block and the arrival of the rest. -/
lemma outcome_eq_some_iff (htext : delivered reads = text) {entry : HttpRequestEntry} :
    outcome lib nextId limits ending reads = some entry ↔
      ∃ (e : Nat) (he : headerEnd limits.maxHeaderBytes text = some e) (head : RequestHead)
        (body : List UInt8), requestHead lib limits (text.take e) = .ok head ∧
        (arrivalOf htext (headerEnd_le he).1 (headerEnd_le he).2).body ending limits head =
          some body ∧
        entry = requestEntry nextId head body := by
  have hheaders : ∀ result, readHttpRequestHeaders ending limits.maxHeaderBytes [] reads =
      .ok result ↔ ∃ e, headerEnd limits.maxHeaderBytes text = some e ∧
        result = ((fill e [] reads).1, e, (fill e [] reads).2) := fun result =>
    readHttpRequestHeaders_eq_ok_iff htext rfl
  rw [outcome, toOption_eq_some_iff, readTypedHttpRequestWithLimits]
  constructor
  · intro h
    obtain ⟨result, hread, h⟩ := bind_eq_ok h
    obtain ⟨e, he, rfl⟩ := (hheaders result).mp hread
    obtain ⟨head, hhead, h⟩ := bind_eq_ok h
    obtain ⟨body, hbody, h⟩ := bind_eq_ok h
    cases h
    rw [take_fill htext (headerEnd_le he).1] at hhead
    exact ⟨e, he, head, body, hhead, toOption_eq_some_iff.mpr hbody, rfl⟩
  · rintro ⟨e, he, head, body, hhead, hbody, rfl⟩
    rw [(hheaders _).mpr ⟨e, he, rfl⟩]
    rw [← take_fill htext (headerEnd_le he).1] at hhead
    change (requestHead lib limits ((fill e [] reads).1.take e) >>= _) = _
    rw [hhead]
    have hread : readFramedBody ending limits head ((fill e [] reads).1.drop e)
        (fill e [] reads).2 = .ok body := toOption_eq_some_iff.mp hbody
    change (readFramedBody ending limits head ((fill e [] reads).1.drop e) (fill e [] reads).2 >>=
      _) = _
    rw [hread]
    rfl

/-- Every arrival of the rest can follow the header block. -/
lemma exists_reads_of_arrival (he : headerEnd limits.maxHeaderBytes text = some e)
    (a : Arrival (text.drop e)) : ∃ (reads : List SocketRead) (htext : delivered reads = text),
      arrivalOf htext (headerEnd_le he).1 (headerEnd_le he).2 = a := by
  obtain ⟨hle, hpos⟩ := headerEnd_le he
  have hinitial := a.initial_le
  -- the read that completes the header block brings its last byte and the initial body
  have hlast : ((text.drop (e - 1)).take 1).length = 1 := by
    rw [length_take, length_drop]
    omega
  have hheader : text.take (e - 1) ++ (text.drop (e - 1)).take 1 = text.take e := by
    rw [← take_add]
    congr 1
    omega
  let bridge : SocketRead := piece ((text.drop (e - 1)).take 1 ++ a.initialBody)
    (ne_nil_of_length_pos (by rw [length_append]; omega))
    (by rw [length_append]; omega)
  have htext : delivered (singles (by decide) (text.take (e - 1)) ++ bridge :: a.reads) = text := by
    rw [delivered_append, delivered_singles, delivered_cons]
    change text.take (e - 1) ++ (((text.drop (e - 1)).take 1 ++ a.initialBody) ++ _) = text
    rw [append_assoc, a.text_eq, ← append_assoc, hheader, take_append_drop]
  have hfill : fill e [] (singles (by decide) (text.take (e - 1)) ++ bridge :: a.reads) =
      (text.take e ++ a.initialBody, a.reads) := by
    have hbefore : ([] ++ delivered (singles (k := 1024) (by decide) (text.take (e - 1)))).length <
        e := by
      rw [delivered_singles, nil_append, length_take]
      omega
    have hwhole : text.take (e - 1) ++ bridge.data = text.take e ++ a.initialBody := by
      rw [← hheader, append_assoc]
      rfl
    rw [fill_append hbefore, delivered_singles, nil_append, fill,
      if_neg (by rw [length_take]; omega), hwhole, fill_of_le]
    rw [length_append, length_take]
    omega
  refine ⟨_, htext, ?_⟩
  have hdrop : (text.take e ++ a.initialBody).drop e = a.initialBody := by
    rw [drop_append_of_le_length (by rw [length_take]; omega), drop_take,
      Nat.sub_self, take_zero, nil_append]
  unfold arrivalOf
  simp only [hfill, hdrop]

/-- The outcome does not depend on how the bytes are cut into reads. -/
def SegmentationFree (lib : Libraries) (nextId : Nat) (limits : HttpServerLimits)
    (ending : Ending) (text : List UInt8) : Prop :=
  ∀ reads reads' : List SocketRead, delivered reads = text → delivered reads' = text →
    outcome lib nextId limits ending reads = outcome lib nextId limits ending reads'

/-- Only the body can make a difference. -/
lemma segmentationFree_iff_bodies : SegmentationFree lib nextId limits ending text ↔
      ∀ e head, headerEnd limits.maxHeaderBytes text = some e →
        requestHead lib limits (text.take e) = .ok head →
        ∀ a a' : Arrival (text.drop e), a.body ending limits head = a'.body ending limits head := by
  constructor
  · intro hfree e head he hhead
    have hone : ∀ (a a' : Arrival (text.drop e)) (body : List UInt8),
        a.body ending limits head = some body → a'.body ending limits head = some body := by
      intro a a' body hbody
      obtain ⟨reads, htext, rfl⟩ := exists_reads_of_arrival he a
      obtain ⟨reads', htext', rfl⟩ := exists_reads_of_arrival he a'
      have hsame := hfree reads reads' htext htext'
      rw [(outcome_eq_some_iff htext).mpr ⟨e, he, head, body, hhead, hbody, rfl⟩] at hsame
      obtain ⟨e', he', head', body', hhead', hbody', hentry⟩ :=
        (outcome_eq_some_iff htext').mp hsame.symm
      obtain rfl : e = e' := Option.some.inj (he.symm.trans he')
      obtain rfl : head = head' := Except.ok.inj (hhead.symm.trans hhead')
      obtain rfl : body = body' := Option.some.inj (congrArg HttpRequestEntry.body hentry)
      exact hbody'
    intro a a'
    apply Option.ext
    exact fun body => ⟨hone a a' body, hone a' a body⟩
  · intro hbodies
    have hone : ∀ reads reads', delivered reads = text → delivered reads' = text →
        ∀ entry, outcome lib nextId limits ending reads = some entry →
          outcome lib nextId limits ending reads' = some entry := by
      intro reads reads' htext htext' entry hentry
      obtain ⟨e, he, head, body, hhead, hbody, rfl⟩ := (outcome_eq_some_iff htext).mp hentry
      rw [hbodies e head he hhead _ (arrivalOf htext' (headerEnd_le he).1 (headerEnd_le he).2)]
        at hbody
      exact (outcome_eq_some_iff htext').mpr ⟨e, he, head, body, hhead, hbody, rfl⟩
    intro reads reads' htext htext'
    apply Option.ext
    exact fun entry => ⟨hone reads reads' htext htext' entry, hone reads' reads htext' htext entry⟩

/-! ## The three framings -/

section Framings

variable {head : RequestHead} {rest : List UInt8}

lemma body_length_eq {n : Nat} (hframing : head.framing = .length n) (a a' : Arrival text) :
    a.body ending limits head = a'.body ending limits head := by
  apply Option.ext
  intro body
  simp only [Arrival.body, toOption_eq_some_iff, readFramedBody, hframing,
    readHttpRequestBody_eq_ok_iff a.text_eq, readHttpRequestBody_eq_ok_iff a'.text_eq]

variable {body : List UInt8}

lemma body_unannounced_eq_some_iff (hframing : head.framing = .unannounced) (a : Arrival text) :
    a.body ending limits head = some body ↔ a.initialBody = [] ∧ body = [] := by
  simp only [Arrival.body, toOption_eq_some_iff, readFramedBody, hframing]
  split_ifs with hempty
  · rw [readHttpRequestBody_eq_ok_iff a.text_eq]
    simp [List.isEmpty_iff.mp hempty]
  · simp only [false_iff]
    rintro ⟨hnil, -⟩
    exact hempty (List.isEmpty_iff.mpr hnil)

/-- Without a body length the reads matter as soon as anything follows. -/
lemma bodies_unannounced_iff (hframing : head.framing = .unannounced) :
    (∀ a a' : Arrival text, a.body ending limits head = a'.body ending limits head) ↔
      text = [] := by
  constructor
  · intro hsame
    by_contra hne
    obtain ⟨b, more, rfl⟩ := exists_cons_of_ne_nil hne
    have hlater : Arrival.body ⟨[], singles (by decide) (b :: more),
        by rw [delivered_singles, nil_append], Nat.zero_le _⟩ ending limits head = some [] :=
      (body_unannounced_eq_some_iff hframing _).mpr ⟨rfl, rfl⟩
    rw [hsame _ ⟨[b], singles (by decide) more, by rw [delivered_singles, singleton_append],
      by simp⟩] at hlater
    obtain ⟨hnil, -⟩ := (body_unannounced_eq_some_iff hframing _).mp hlater
    cases hnil
  · rintro rfl a a'
    have hnil : ∀ a : Arrival [], a.initialBody = [] := fun a => (append_eq_nil_iff.mp a.text_eq).1
    apply Option.ext
    intro body
    rw [body_unannounced_eq_some_iff hframing, body_unannounced_eq_some_iff hframing, hnil a,
      hnil a']

section

variable (hframing : head.framing = .chunked)

include hframing

lemma body_chunked_eq_some_iff (a : Arrival text) {f : Frame} (htext : text = f.encode ++ rest)
    (hf : f.Valid limits.maxHeaderBytes limits.maxBodyBytes (limits.maxHeaders - head.headers.length)) :
    a.body ending limits head = some body ↔
      body = f.body ∧ a.Reads limits.maxHeaderBytes limits.maxBodyBytes f := by
  simp only [Arrival.body, toOption_eq_some_iff, readFramedBody, hframing]
  exact readChunkedHttpRequestBody_eq_ok_iff (a.text_eq.trans htext) hf

lemma exists_frame_of_body_chunked {a : Arrival text} (h : a.body ending limits head = some body) :
    ∃ (f : Frame) (rest : List UInt8), text = f.encode ++ rest ∧
      f.Valid limits.maxHeaderBytes limits.maxBodyBytes
        (limits.maxHeaders - head.headers.length) := by
  simp only [Arrival.body, toOption_eq_some_iff, readFramedBody, hframing] at h
  obtain ⟨f, rest, htext, hf, -⟩ := exists_frame_of_readChunkedHttpRequestBody h
  exact ⟨f, rest, a.text_eq.symm.trans htext, hf⟩

/-- A chunked body is read independently of the reads if it is always or never read. -/
lemma bodies_chunked_iff :
    (∀ a a' : Arrival text, a.body ending limits head = a'.body ending limits head) ↔
      SafeBody limits head text := by
  unfold SafeBody
  rw [hframing]
  constructor
  · intro hsame f rest htext hf
    by_cases hsometimes : SometimesRead limits.maxHeaderBytes limits.maxBodyBytes f
    · left
      obtain ⟨a, ha⟩ := exists_reads_of_sometimes htext hsometimes
      apply always_of_reads htext
      intro a'
      have hbody : a.body ending limits head = some f.body :=
        (body_chunked_eq_some_iff hframing a htext hf).mpr ⟨rfl, ha⟩
      rw [hsame a a'] at hbody
      exact ((body_chunked_eq_some_iff hframing a' htext hf).mp hbody).2
    · exact .inr hsometimes
  · intro hframes
    have hone : ∀ (a a' : Arrival text) (body : List UInt8),
        a.body ending limits head = some body → a'.body ending limits head = some body := by
      intro a a' body hbody
      obtain ⟨f, rest, htext, hf⟩ := exists_frame_of_body_chunked hframing hbody
      obtain ⟨rfl, ha⟩ := (body_chunked_eq_some_iff hframing a htext hf).mp hbody
      rcases hframes f rest htext hf with halways | hnever
      · exact (body_chunked_eq_some_iff hframing a' htext hf).mpr
          ⟨rfl, a'.reads_of_always htext halways⟩
      · exact absurd (sometimes_of_reads ha) hnever
    intro a a'
    apply Option.ext
    exact fun body => ⟨hone a a' body, hone a' a body⟩

end

end Framings

/-- The byte streams whose outcome does not depend on the reads: those refused by
their header block, those with a body length, those that end with their header block,
and those with a chunked body that is read under every split or under none. -/
theorem segmentation_free_iff (lib : Libraries) (nextId : Nat) (limits : HttpServerLimits)
    (ending : Ending) (text : List UInt8) : SegmentationFree lib nextId limits ending text ↔
      ∀ e head, headerEnd limits.maxHeaderBytes text = some e →
        requestHead lib limits (text.take e) = .ok head →
        SafeBody limits head (text.drop e) := by
  rw [segmentationFree_iff_bodies]
  have hbody : ∀ (head : RequestHead) (rest : List UInt8),
      (∀ a a' : Arrival rest, a.body ending limits head = a'.body ending limits head) ↔
        SafeBody limits head rest := by
    intro head rest
    cases hframing : head.framing with
    | chunked => exact bodies_chunked_iff hframing
    | length n =>
      rw [SafeBody, hframing]
      exact iff_of_true (body_length_eq hframing) trivial
    | unannounced =>
      rw [SafeBody, hframing]
      exact bodies_unannounced_iff hframing
  simp only [hbody]

/-! A request without a body length and one byte after its header block. -/

def sampleHeader : List UInt8 :=
  ascii "GET / HTTP/1.1\r\nHost: a\r\n\r\n"

def sampleParsed : ParsedRequest where
  complete := true
  method := some "GET".toList
  path := some "/".toList
  version := some 1
  headers := [("Host".toList, ascii "a")]

/-- Libraries that know this header block and its host. -/
def sampleLibraries : Libraries where
  httparse slice _ := if slice = sampleHeader then .ok sampleParsed else .error "invalid"
  parseUrl url :=
    if url = "http://a/".toList then some ⟨some ['a'], [], none, ['/'], none, none⟩ else none

def defaultLimits : HttpServerLimits where
  maxHeaderBytes := 65536
  maxBodyBytes := 16777216
  maxHeaders := 128

/-- The byte comes with the header block, or after it. -/
theorem one_read_refused_two_accepted : outcome sampleLibraries 0 defaultLimits .closed
        [⟨sampleHeader ++ ascii "x", by decide +kernel, by decide +kernel⟩] = none ∧
      (outcome sampleLibraries 0 defaultLimits .closed
        [⟨sampleHeader, by decide +kernel, by decide +kernel⟩,
          ⟨ascii "x", by decide +kernel, by decide +kernel⟩]).isSome = true := by
  decide +kernel

end Requests

end MuxRuntime.Http
