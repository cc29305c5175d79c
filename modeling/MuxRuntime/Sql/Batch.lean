import MuxRuntime.Foundations.Str
import MuxRuntime.Sql.Rewrite

/-!
# Splitting a batch

A batch is split at the semicolons that stand outside literals and comments. Statements without
code are dropped by a second scan that skips ASCII blanks and comments.
-/

namespace MuxRuntime
namespace Sql

open List Utf8 Loop Cursor

/-! ## Statements with code -/

/-- The scan for code, with a bound on its iterations. -/
def codeWithin : Nat → List UInt8 → Bool
  | 0, _ => false
  | _ + 1, [] => false
  | fuel + 1, b :: rest =>
    if isAsciiWhitespace b then codeWithin fuel rest
    else if b == byte '-' && rest.head? == some (byte '-') then
      codeWithin fuel ((rest.drop 1).dropWhile (fun b => b != byte '\n'))
    else if b == byte '/' && rest.head? == some (byte '*') then
      match SqlScanner.blockCommentLength (rest.drop 1) with
      | none => false
      | some n => codeWithin fuel ((rest.drop 1).drop n)
    else true

/-- Whether a statement has anything but blanks and comments. -/
def sqlStatementHasCode (statement : List UInt8) : Bool :=
  codeWithin statement.length statement

/-- Every iteration consumes a byte, so that the length is a sufficient bound. -/
lemma codeWithin_eq {fuel : Nat} {bytes : List UInt8} (h : bytes.length ≤ fuel) :
    codeWithin fuel bytes = sqlStatementHasCode bytes := by
  suffices hsame : ∀ n m, bytes.length ≤ n → bytes.length ≤ m →
      codeWithin n bytes = codeWithin m bytes from hsame _ _ h (le_refl _)
  clear h
  intro n
  induction n generalizing bytes with
  | zero =>
    intro m hn _
    rw [eq_nil_of_length_eq_zero (Nat.le_zero.mp hn)]
    cases m <;> rfl
  | succ n ih => ?_
  intro m hn hm
  rcases bytes with _ | ⟨b, rest⟩
  · cases m <;> rfl
  rcases m with _ | m
  · simp at hm
  rw [length_cons, Nat.succ_le_succ_iff] at hn hm
  have hdrop : (rest.drop 1).length ≤ rest.length := by simp
  have hline : ((rest.drop 1).dropWhile (fun b => b != byte '\n')).length ≤
      rest.length := (length_dropWhile_le _ _).trans hdrop
  have hblock : ∀ k, ((rest.drop 1).drop k).length ≤ rest.length := by
    intro k
    rw [length_drop]
    omega
  rw [codeWithin, codeWithin, ih m hn hm, ih m (hline.trans hn) (hline.trans hm)]
  split_ifs with hblank hdash hslash
  · rfl
  · rfl
  · cases SqlScanner.blockCommentLength (rest.drop 1) with
    | none => rfl
    | some k => exact ih m ((hblock k).trans hn) ((hblock k).trans hm)
  · rfl

lemma sqlStatementHasCode_nil : sqlStatementHasCode [] = false := rfl

lemma sqlStatementHasCode_cons (b : UInt8) (rest : List UInt8) : sqlStatementHasCode (b :: rest) =
      if isAsciiWhitespace b then sqlStatementHasCode rest
      else if b == byte '-' && rest.head? == some (byte '-') then
        sqlStatementHasCode ((rest.drop 1).dropWhile (fun b => b != byte '\n'))
      else if b == byte '/' && rest.head? == some (byte '*') then
        match SqlScanner.blockCommentLength (rest.drop 1) with
        | none => false
        | some n => sqlStatementHasCode ((rest.drop 1).drop n)
      else true := by
  have hdrop : (rest.drop 1).length ≤ rest.length := by simp
  have hline : ((rest.drop 1).dropWhile (fun b => b != byte '\n')).length ≤ rest.length :=
    (length_dropWhile_le _ _).trans hdrop
  rw [sqlStatementHasCode, length_cons, codeWithin, codeWithin_eq (le_refl _), codeWithin_eq hline]
  split_ifs
  · rfl
  · rfl
  · rcases SqlScanner.blockCommentLength (rest.drop 1) with _ | k
    · rfl
    refine codeWithin_eq ?_
    rw [length_drop]
    omega
  · rfl

lemma sqlStatementHasCode_dashes (rest : List UInt8) :
    sqlStatementHasCode (byte '-' :: byte '-' :: rest) =
      sqlStatementHasCode (rest.dropWhile (fun b => b != byte '\n')) := by
  rw [sqlStatementHasCode_cons]
  simp [show isAsciiWhitespace (byte '-') = false from rfl]

lemma sqlStatementHasCode_slash (rest : List UInt8) :
    sqlStatementHasCode (byte '/' :: byte '*' :: rest) =
      match SqlScanner.blockCommentLength rest with
      | none => false
      | some n => sqlStatementHasCode (rest.drop n) := by
  rw [sqlStatementHasCode_cons]
  simp [show isAsciiWhitespace (byte '/') = false from rfl, show byte '/' ≠ byte '-' by decide]

/-! ## The splitting loop -/

/-- The state of the splitting loop. -/
structure BatchState where
  scanner : SqlScanner
  start : Nat
  statements : List (List Char)

/-- The text between two positions without white space at its ends. -/
def trimmedStatement (sql : List UInt8) (start stop : Nat) : Except String (List Char) :=
  match Str.fromUtf8 (slice sql start stop) with
  | some statement => .ok (Str.trim statement)
  | none => .error "byte index is not a char boundary"

/-- Keep the statement that ends here, if it has code. -/
def pushStatement (sql : List UInt8) (start stop : Nat) (statements : List (List Char)) :
    Except String (List (List Char)) := do
  let statement ← trimmedStatement sql start stop
  let statements :=
    if sqlStatementHasCode (encode statement) then statements ++ [statement] else statements
  if statements.length > 1024 then .error "SQL batch contains more than 1024 statements"
  else .ok statements

/-- One iteration: something opaque, the end of a statement, or one byte of text. -/
def batchBody (input : ScanInput) (st : BatchState) : Except String BatchState := do
  match ← st.scanner.consumeOpaque input with
  | some scanner => .ok { st with scanner := scanner }
  | none =>
    let scanner := { st.scanner with index := st.scanner.index + 1 }
    if st.scanner.currentByte input == some (byte ';') then
      let statements ← pushStatement input.sql st.start st.scanner.index st.statements
      .ok { scanner := scanner, start := st.scanner.index + 1, statements := statements }
    else .ok { st with scanner := scanner }

def BatchState.isDone (input : ScanInput) (st : BatchState) : Bool :=
  st.scanner.isDone input

def BatchState.initial : BatchState where
  scanner := { index := 0, quote := none }
  start := 0
  statements := []

/-- The statements of a batch. -/
def splitSqlBatch (sql : List UInt8) (backend : SqlBackend) : Except String (List (List Char)) :=
  if sql.length > maxSqlBytes then .error "SQL batch exceeds the 16 MiB limit"
  else do
    let input : ScanInput := { sql := sql, backend := backend, blockCommentError := "SQL batch" }
    let st ← Loop.run (BatchState.isDone input) (batchBody input) sql.length BatchState.initial
    if st.scanner.quote.isSome then .error "SQL batch contains an unterminated quoted string"
    else pushStatement sql st.start sql.length st.statements

/-! ## The scan for code over characters -/

/-- The blanks of the scan for code. -/
def isBlankChar (c : Char) : Bool :=
  c == ' ' || c == '\t' || c == '\n' || c == '\r' || c == '\x0c'

variable {c : Char}

lemma isAsciiWhitespace_head {b : UInt8}
    (hascii : ∀ d : Char, d.toNat < 128 → (b = byte d ↔ c = d)) :
    isAsciiWhitespace b = isBlankChar c := by
  have hbyte : (0x0c : UInt8) = byte '\x0c' := rfl
  rw [Bool.eq_iff_iff, isAsciiWhitespace, isBlankChar, hbyte]
  simp only [Bool.or_eq_true, beq_iff_eq, hascii ' ' (by decide), hascii '\t' (by decide),
    hascii '\n' (by decide), hascii '\r' (by decide), hascii '\x0c' (by decide)]

lemma isWhitespace_of_isBlankChar (h : isBlankChar c = true) : Str.isWhitespace c = true := by
  simp only [isBlankChar, Bool.or_eq_true, beq_iff_eq] at h
  rcases h with (((rfl | rfl) | rfl) | rfl) | rfl <;> decide

lemma hasCode_blank (h : isBlankChar c = true) (s : List Char) :
    sqlStatementHasCode (encode (c :: s)) = sqlStatementHasCode (encode s) := by
  have hlt : c.toNat < 128 := by
    simp only [isBlankChar, Bool.or_eq_true, beq_iff_eq] at h
    rcases h with (((rfl | rfl) | rfl) | rfl) | rfl <;> decide
  rw [encode_cons, encodeChar_ascii hlt, singleton_append, sqlStatementHasCode_cons,
    isAsciiWhitespace_head (fun d hd => byte_inj hlt hd), if_pos h]

/-- Anything else is code, unless it starts a comment. -/
lemma hasCode_other {s : List Char} (hblank : isBlankChar c = false)
    (hline : c = '-' → s.head? ≠ some '-') (hblock : c = '/' → s.head? ≠ some '*') :
    sqlStatementHasCode (encode (c :: s)) = true := by
  rcases encodeChar_head c with ⟨b, tail, henc, -, -, hascii, -⟩
  have hpair : ∀ d d' : Char, d.toNat < 128 → d'.toNat < 128 → (c = d → s.head? ≠ some d') →
      ¬ (b = byte d ∧ (tail ++ encode s).head? = some (byte d')) := by
    rintro d d' hd hd' hne ⟨hb, hhead⟩
    have hc := (hascii d hd).mp hb
    subst hc
    rw [encodeChar_ascii hd] at henc
    obtain rfl : tail = [] := (List.cons.inj henc).2.symm
    rw [nil_append, List.head?_eq_getElem?, encode_getElem?_zero hd'] at hhead
    exact hne rfl hhead
  rw [encode_cons, henc, cons_append, sqlStatementHasCode_cons, isAsciiWhitespace_head hascii,
    hblank, if_neg Bool.false_ne_true, if_neg, if_neg]
  · simpa using hpair '/' '*' (by decide) (by decide) hblock
  · simpa using hpair '-' '-' (by decide) (by decide) hline

variable {text : List Char}

lemma hasCode_lineComment (hline : '\n' ∉ text) (s : List Char) :
    sqlStatementHasCode (encode ('-' :: '-' :: (text ++ '\n' :: s))) =
      sqlStatementHasCode (encode s) := by
  have hbytes : encode ('-' :: '-' :: (text ++ '\n' :: s)) =
      byte '-' :: byte '-' :: (encode text ++ byte '\n' :: encode s) := by
    simp [encodeChar_ascii (show '-'.toNat < 128 by decide),
      encodeChar_ascii (show '\n'.toNat < 128 by decide)]
  have hdrop : (encode text ++ byte '\n' :: encode s).dropWhile (fun b => b != byte '\n') =
      byte '\n' :: encode s := by
    have hwhole := takeWhile_append_dropWhile (p := fun b => b != byte '\n')
      (l := encode text ++ byte '\n' :: encode s)
    rw [takeWhile_line hline] at hwhole
    exact append_cancel_left hwhole
  rw [hbytes, sqlStatementHasCode_dashes, hdrop, sqlStatementHasCode_cons, if_pos (by decide)]

lemma hasCode_lastLineComment (hline : '\n' ∉ text) :
    sqlStatementHasCode (encode ('-' :: '-' :: text)) = false := by
  have hbytes : encode ('-' :: '-' :: text) = byte '-' :: byte '-' :: encode text := by
    simp [encodeChar_ascii (show '-'.toNat < 128 by decide)]
  have hdrop : (encode text).dropWhile (fun b => b != byte '\n') = [] := by
    rw [dropWhile_eq_nil_iff]
    intro b hb
    have hne : b ≠ byte '\n' := by
      rintro rfl
      exact hline ((byte_mem_encode (by decide)).mp hb)
    simpa using hne
  rw [hbytes, sqlStatementHasCode_dashes, hdrop, sqlStatementHasCode_nil]

lemma hasCode_blockComment (hblock : noBlockEnd text = true) (s : List Char) :
    sqlStatementHasCode (encode ('/' :: '*' :: (text ++ '*' :: '/' :: s))) =
      sqlStatementHasCode (encode s) := by
  have hbytes : encode ('/' :: '*' :: (text ++ '*' :: '/' :: s)) =
      byte '/' :: byte '*' :: (encode text ++ byte '*' :: byte '/' :: encode s) := by
    simp [encodeChar_ascii (show '/'.toNat < 128 by decide),
      encodeChar_ascii (show '*'.toNat < 128 by decide)]
  have hdrop : (encode text ++ byte '*' :: byte '/' :: encode s).drop ((encode text).length + 2) =
      encode s := by
    rw [← drop_drop, drop_left]
    rfl
  rw [hbytes, sqlStatementHasCode_slash, blockCommentLength_encode hblock]
  simp only [hdrop]

/-! ## Statements made of segments -/

/-- The segments are what they claim to be, and ordinary text has no semicolon. -/
def delimited : List Segment → Bool
  | [] => true
  | .plain text :: rest => plainOk text (render rest) && !text.contains ';' && delimited rest
  | .literal q _ :: rest => (render rest).head? != some q.char && delimited rest
  | .lineComment text :: rest => !text.contains '\n' && delimited rest
  | .blockComment text :: rest => noBlockEnd text && delimited rest

/-- A literal, or text with something other than white space. -/
def Segment.isCode : Segment → Bool
  | .plain text => text.any (fun c => !Str.isWhitespace c)
  | .literal _ _ => true
  | .lineComment _ | .blockComment _ => false

def Segment.isComment : Segment → Bool
  | .plain _ | .literal _ _ => false
  | .lineComment _ | .blockComment _ => true

/-- Something other than white space and comments. -/
def hasCode (segments : List Segment) : Bool :=
  segments.any Segment.isCode

/-- The segments from the first comment to the last one. -/
def betweenComments (segments : List Segment) : List Segment :=
  (segments.dropWhile (fun s => !s.isComment)).rdropWhile (fun s => !s.isComment)

/-- Text that is more than the blanks of the scan for code. -/
def Segment.isUnblank : Segment → Bool
  | .plain text => text.any (fun c => !isBlankChar c)
  | _ => false

/-- A white space character that the scan for code does not skip, between two comments. -/
def oddBlanks (segments : List Segment) : Bool :=
  (betweenComments segments).any Segment.isUnblank

variable {segment : Segment}

lemma delimited_tail {rest : List Segment} (h : delimited (segment :: rest) = true) :
    delimited rest = true := by
  cases segment <;> simp only [delimited, Bool.and_eq_true] at h <;> exact h.2

/-- Only the first character of what follows matters to ordinary text. -/
lemma plainOk_congr {after after' : List Char} (h : plainOk text after = true)
    (hhead : ∀ d, d = '-' ∨ d = '*' → after'.head? = some d → after.head? = some d) :
    plainOk text after' = true := by
  induction text with
  | nil => rfl
  | cons c text ih => ?_
  have hnext : ∀ d, d = '-' ∨ d = '*' → (text ++ after').head? = some d →
      (text ++ after).head? = some d := by
    cases text with
    | nil => exact hhead
    | cons d text => exact fun _ _ hd => hd
  simp only [plainOk, Bool.and_eq_true, Bool.not_eq_true', Bool.and_eq_false_iff,
    beq_eq_false_iff_ne] at h ⊢
  refine ⟨⟨⟨h.1.1.1, ?_⟩, ?_⟩, ih h.2⟩
  · exact h.1.1.2.imp id (fun hne hd => hne (hnext _ (.inl rfl) hd))
  · exact h.1.2.imp id (fun hne hd => hne (hnext _ (.inr rfl) hd))

lemma plainOk_append {before after : List Char} (h : plainOk text (before ++ after) = true) :
    plainOk text before = true := by
  refine plainOk_congr h fun d _ hd => ?_
  rw [List.head?_append, hd]
  rfl

variable {before after : List Segment}

lemma delimited_append (h : delimited (before ++ after) = true) :
    delimited before = true ∧ delimited after = true := by
  induction before with
  | nil => exact ⟨rfl, h⟩
  | cons segment before ih => ?_
  have htail := ih (delimited_tail h)
  refine ⟨?_, htail.2⟩
  cases segment with
  | plain text =>
    simp only [cons_append, delimited, Bool.and_eq_true, render_append] at h ⊢
    exact ⟨⟨plainOk_append h.1.1, h.1.2⟩, htail.1⟩
  | literal q body =>
    simp only [cons_append, delimited, Bool.and_eq_true, render_append, bne_iff_ne] at h ⊢
    refine ⟨fun hd => h.1 ?_, htail.1⟩
    rw [List.head?_append, hd]
    rfl
  | lineComment text | blockComment text =>
    simp only [cons_append, delimited, Bool.and_eq_true] at h ⊢
    exact ⟨h.1, htail.1⟩

/-! ## Code in a trimmed statement -/

/-- A character that trimming leaves. -/
def Visible (s : List Char) : Prop :=
  ∃ c ∈ s, Str.isWhitespace c = false

variable {segments : List Segment}

lemma visible_render (hmem : segment ∈ segments)
    (h : segment.isCode = true ∨ segment.isComment = true) : Visible (render segments) := by
  have hvisible : Visible segment.render := by
    cases segment with
    | plain text =>
      rcases h with h | h
      · rcases any_eq_true.mp h with ⟨c, hc, hws⟩
        exact ⟨c, hc, by simpa using hws⟩
      · cases h
    | literal q body => exact ⟨q.char, mem_cons_self, by cases q <;> decide⟩
    | lineComment text => exact ⟨'-', mem_cons_self, by decide⟩
    | blockComment text => exact ⟨'/', mem_cons_self, by decide⟩
  rcases hvisible with ⟨c, hc, hws⟩
  exact ⟨c, mem_flatMap.mpr ⟨segment, hmem, hc⟩, hws⟩

variable {p rest t w : List Char}

/-- White space at the end of a text is at the end of its visible part. -/
lemma split_of_visible (h : p ++ rest = t ++ w) (hw : ∀ c ∈ w, Str.isWhitespace c = true)
    (hvisible : Visible rest) : ∃ t', t = p ++ t' ∧ rest = t' ++ w := by
  rcases append_eq_append_iff.mp h with ⟨t', ht, hrest⟩ | ⟨u, hp, hwhole⟩
  · exact ⟨t', ht, hrest⟩
  · rcases hvisible with ⟨c, hc, hws⟩
    rw [hw c (hwhole ▸ mem_append_right u hc)] at hws
    cases hws

lemma split_of_last (h : p ++ [c] ++ rest = t ++ w) (hw : ∀ c ∈ w, Str.isWhitespace c = true)
    (hc : Str.isWhitespace c = false) : ∃ t', t = p ++ [c] ++ t' ∧ rest = t' ++ w := by
  rw [append_assoc] at h
  rcases split_of_visible h hw ⟨c, mem_cons_self, hc⟩ with ⟨t', ht, hrest⟩
  cases t' with
  | nil =>
    rw [nil_append] at hrest
    rw [hw c (hrest ▸ mem_cons_self)] at hc
    cases hc
  | cons d t' =>
    cases hrest
    exact ⟨t', by rw [ht, append_assoc]; rfl, rfl⟩

/-- A character of ordinary text is code, unless it is a blank. -/
lemma hasCode_plainChar {after t' : List Char} (hblank : isBlankChar c = false)
    (hplain : plainOk (c :: text) after = true) (hrest : text ++ after = t' ++ w) :
    sqlStatementHasCode (encode (c :: t')) = true := by
  have hhead : ∀ d, t'.head? = some d → (text ++ after).head? = some d := by
    intro d hd
    rw [hrest, List.head?_append, hd]
    rfl
  simp only [plainOk, Bool.and_eq_true, Bool.not_eq_true', Bool.and_eq_false_iff,
    beq_eq_false_iff_ne] at hplain
  apply hasCode_other hblank
  · intro hc hd
    exact hplain.1.1.2.elim (fun hne => hne hc) (fun hne => hne (hhead _ hd))
  · intro hc hd
    exact hplain.1.2.elim (fun hne => hne hc) (fun hne => hne (hhead _ hd))

/-- There is code, or a comment at the end: what comes before stays when white space at the end is
dropped. -/
def lasting (segments : List Segment) : Bool :=
  hasCode segments || segments.getLast?.any Segment.isComment

lemma visible_of_lasting (h : lasting segments = true) : Visible (render segments) := by
  simp only [lasting, hasCode, Bool.or_eq_true, any_eq_true, Option.any_eq_true] at h
  rcases h with ⟨s, hs, hcode⟩ | ⟨s, hs, hcomment⟩
  · exact visible_render hs (.inl hcode)
  · exact visible_render (mem_of_getLast? hs) (.inr hcomment)

lemma lasting_tail {rest : List Segment} (h : lasting (segment :: rest) = true)
    (hsegment : segment.isCode = false) : rest = [] ∧ segment.isComment = true ∨ lasting rest = true := by
  cases rest with
  | nil => exact .inl ⟨rfl, by simpa [lasting, hasCode, hsegment] using h⟩
  | cons next rest => exact .inr (by simpa [lasting, hasCode, hsegment] using h)

lemma lasting_white {rest : List Segment} (h : lasting (.plain (c :: text) :: rest) = true)
    (hws : Str.isWhitespace c = true) : lasting (.plain text :: rest) = true := by
  cases rest with
  | nil => simpa [lasting, hasCode, Segment.isCode, Segment.isComment, hws] using h
  | cons next rest => simpa [lasting, hasCode, Segment.isCode, hws] using h

/-- A line comment at the end of a statement, of which white space was dropped. -/
lemma hasCode_trimmedLine (hline : '\n' ∉ text) (h : '-' :: '-' :: (text ++ ['\n']) = t ++ w)
    (hw : ∀ c ∈ w, Str.isWhitespace c = true) : sqlStatementHasCode (encode t) = false := by
  have hsplit : ['-'] ++ ['-'] ++ (text ++ ['\n']) = t ++ w := h
  rcases split_of_last hsplit hw (by decide) with ⟨t', rfl, hrest⟩
  by_cases hnewline : '\n' ∈ t'
  · -- the newline is the last character, so that nothing was dropped
    have hw' : w = [] := by
      rcases w with _ | ⟨c, w⟩
      · rfl
      have hinit : t' ++ (c :: w).dropLast = text := by
        have hdrop := congrArg List.dropLast hrest
        rwa [dropLast_concat, dropLast_append_of_ne_nil (by simp), eq_comm] at hdrop
      exact absurd (hinit ▸ mem_append_left _ hnewline) hline
    rw [hw', append_nil] at hrest
    rw [← hrest]
    exact (hasCode_lineComment hline []).trans sqlStatementHasCode_nil
  · exact hasCode_lastLineComment hnewline

/-- What the scan finds in a statement of which white space at the end was dropped: its code, or the
blanks that it does not know. -/
lemma hasCode_dropped (hd : delimited segments = true) (hrender : render segments = t ++ w)
    (hw : ∀ c ∈ w, Str.isWhitespace c = true) (hlast : lasting segments = true) :
    sqlStatementHasCode (encode t) = (hasCode segments || segments.any Segment.isUnblank) := by
  induction segments generalizing t with
  | nil => cases hlast
  | cons segment rest ih => ?_
  rw [render_cons] at hrender
  cases segment with
  | plain text =>
    simp only [delimited, Bool.and_eq_true] at hd
    replace hrender : text ++ render rest = t ++ w := hrender
    have hplain := hd.1.1
    replace hd := hd.2
    induction text generalizing t with
    | nil =>
      have hrest := (lasting_tail hlast rfl).resolve_left (fun h => nomatch h.2)
      simpa [hasCode, Segment.isCode, Segment.isUnblank] using ih hd hrender hrest
    | cons c text iht => ?_
    have hfirst : ∃ t', t = [c] ++ t' ∧ text ++ render rest = t' ++ w := by
      cases hws : Str.isWhitespace c with
      | true => exact split_of_visible hrender hw (visible_of_lasting (lasting_white hlast hws))
      | false => exact split_of_last (p := []) hrender hw hws
    rcases hfirst with ⟨t', rfl, hrest'⟩
    rw [singleton_append]
    cases hblank : isBlankChar c with
    | true =>
      have hws := isWhitespace_of_isBlankChar hblank
      simp only [plainOk, Bool.and_eq_true] at hplain
      rw [hasCode_blank hblank, iht (lasting_white hlast hws) hrest' hplain.2]
      simp [hasCode, Segment.isCode, Segment.isUnblank, hblank, hws]
    | false =>
      rw [hasCode_plainChar hblank hplain hrest']
      simp [Segment.isUnblank, hblank]
  | literal q body =>
    have hrender' : [] ++ [q.char] ++ (doubled q body ++ [q.char] ++ render rest) = t ++ w :=
      hrender
    rcases split_of_last hrender' hw (by cases q <;> decide) with ⟨t', rfl, -⟩
    apply hasCode_other
    · cases q <;> decide
    · intro hc
      cases q <;> exact absurd hc (by decide)
    · intro hc
      cases q <;> exact absurd hc (by decide)
  | lineComment text =>
    simp only [delimited, Bool.and_eq_true, Bool.not_eq_true', contains_eq_mem,
      decide_eq_false_iff_not] at hd
    rcases lasting_tail hlast rfl with ⟨rfl, -⟩ | hrest
    · rw [hasCode_trimmedLine hd.1 (by simpa [Segment.render, render] using hrender) hw]
      rfl
    · rcases split_of_visible hrender hw (visible_of_lasting hrest) with ⟨t', rfl, hrest'⟩
      have hstep := hasCode_lineComment hd.1 t'
      rw [Segment.render, cons_append, cons_append, append_assoc, singleton_append, hstep]
      exact ih hd.2 hrest' hrest
  | blockComment text => ?_
  simp only [delimited, Bool.and_eq_true] at hd
  have hrender' : '/' :: '*' :: (text ++ ['*']) ++ ['/'] ++ render rest = t ++ w := by
    simpa [Segment.render] using hrender
  rcases split_of_last hrender' hw (by decide) with ⟨t', rfl, hrest'⟩
  have htext : '/' :: '*' :: (text ++ ['*']) ++ ['/'] ++ t' =
      '/' :: '*' :: (text ++ '*' :: '/' :: t') := by simp
  rw [htext, hasCode_blockComment hd.1 t']
  rcases lasting_tail hlast rfl with ⟨rfl, -⟩ | hrest
  · obtain ⟨rfl, -⟩ := append_eq_nil_iff.mp hrest'.symm
    rfl
  · exact ih hd.2 hrest' hrest

/-- White space at the front of a statement is in its ordinary text. -/
lemma exists_dropWhile_render (hd : delimited segments = true) (hcode : hasCode segments = true) :
    ∃ segments', delimited segments' = true ∧ hasCode segments' = true ∧
      render segments' = (render segments).dropWhile Str.isWhitespace := by
  induction segments with
  | nil => cases hcode
  | cons segment rest ih => ?_
  cases segment with
  | plain text =>
    induction text with
    | nil => exact ih (delimited_tail hd) hcode
    | cons c text iht => ?_
    cases hws : Str.isWhitespace c with
    | false =>
      refine ⟨_, hd, hcode, ?_⟩
      rw [render_cons, Segment.render, cons_append, dropWhile_cons_of_neg (by simp [hws])]
    | true => ?_
    simp only [delimited, plainOk, Bool.and_eq_true, contains_cons, Bool.not_or] at hd
    have hd' : delimited (.plain text :: rest) = true := by
      simp only [delimited, Bool.and_eq_true]
      exact ⟨⟨hd.1.1.2, hd.1.2.2⟩, hd.2⟩
    have hcode' : hasCode (.plain text :: rest) = true := by
      simpa [hasCode, Segment.isCode, hws] using hcode
    rcases iht hd' hcode' with ⟨segments', hsegments, hcodes, hrender⟩
    refine ⟨segments', hsegments, hcodes, hrender.trans ?_⟩
    rw [render_cons, render_cons, Segment.render, Segment.render, cons_append,
      dropWhile_cons_of_pos hws]
  | literal q body => exact ⟨_, hd, hcode, (dropWhile_cons_of_neg (by cases q <;> decide)).symm⟩
  | lineComment text | blockComment text =>
    exact ⟨_, hd, hcode, (dropWhile_cons_of_neg (by decide)).symm⟩

lemma isWhitespace_render (h : ∀ s ∈ segments, s.isCode = false ∧ s.isComment = false) :
    ∀ c ∈ render segments, Str.isWhitespace c = true := by
  intro c hc
  rcases mem_flatMap.mp hc with ⟨s, hs, hc⟩
  rcases h s hs with ⟨hcode, hcomment⟩
  cases s with
  | plain text =>
    simp only [Segment.isCode, any_eq_false, Bool.not_eq_true', Bool.not_eq_false] at hcode
    exact hcode c hc
  | literal q body => cases hcode
  | lineComment text | blockComment text => cases hcomment

lemma dropWhile_comment (h : segment.isComment = true) (rest : List Segment) :
    (render (segment :: rest)).dropWhile Str.isWhitespace = render (segment :: rest) := by
  cases segment with
  | plain | literal => cases h
  | lineComment text | blockComment text => exact dropWhile_cons_of_neg (by decide)

/-- A statement is white space, the segments between its comments, and white space again. -/
lemma exists_betweenComments (hcode : hasCode segments = false) :
    ∃ lead trail, segments = lead ++ (betweenComments segments ++ trail) ∧
      (∀ c ∈ render lead, Str.isWhitespace c = true) ∧
      ∀ c ∈ render trail, Str.isWhitespace c = true := by
  have hnone : ∀ s ∈ segments, s.isCode = false := by simpa [hasCode] using hcode
  have hsplit : segments = segments.takeWhile (fun s => !s.isComment) ++
      (betweenComments segments ++
        (segments.dropWhile (fun s => !s.isComment)).rtakeWhile (fun s => !s.isComment)) := by
    rw [betweenComments, rdropWhile_append_rtakeWhile, takeWhile_append_dropWhile]
  refine ⟨_, _, hsplit, isWhitespace_render ?_, isWhitespace_render ?_⟩
  · intro s hs
    exact ⟨hnone s (takeWhile_subset _ hs), by simpa using mem_takeWhile_imp hs⟩
  · intro s hs
    have hmem := dropWhile_subset _ ((rtakeWhile_suffix _ _).subset hs)
    exact ⟨hnone s hmem, by simpa using mem_rtakeWhile_imp hs⟩

lemma betweenComments_cases (segments : List Segment) : betweenComments segments = [] ∨
      (∃ first rest, betweenComments segments = first :: rest ∧ first.isComment = true) ∧
        (betweenComments segments).getLast?.any Segment.isComment = true := by
  by_cases hempty : betweenComments segments = []
  · exact .inl hempty
  right
  constructor
  · rcases exists_cons_of_ne_nil hempty with ⟨first, rest, heq⟩
    refine ⟨first, rest, heq, ?_⟩
    have hinit : betweenComments segments <+: segments.dropWhile (fun s => !s.isComment) :=
      rdropWhile_prefix _ _
    rw [heq] at hinit
    rcases hinit with ⟨more, hmore⟩
    have hhead := List.head?_dropWhile_not (fun s : Segment => !s.isComment) segments
    rw [← hmore] at hhead
    simpa using hhead
  · have hlast := rdropWhile_last_not _ _ hempty
    rw [List.getLast?_eq_some_getLast hempty]
    simpa [betweenComments] using hlast

/-- The scan finds code in a trimmed statement that has code, or that has a blank which the scan does
not know between comments. -/
theorem sqlStatementHasCode_trim (hd : delimited segments = true) :
    sqlStatementHasCode (encode (Str.trim (render segments))) =
      (hasCode segments || oddBlanks segments) := by
  cases hcode : hasCode segments with
  | true =>
    rcases exists_dropWhile_render hd hcode with ⟨segments', hd', hcode', hrender⟩
    rcases Str.dropWhile_eq_trim_append (render segments) with ⟨w, hw, hblank⟩
    rw [hasCode_dropped hd' (hrender.trans hw) hblank (by simp [lasting, hcode']), hcode']
    rfl
  | false => ?_
  rcases exists_betweenComments hcode with ⟨lead, trail, hsplit, hlead, htrail⟩
  have htrim : Str.trim (render segments) = Str.trim (render (betweenComments segments)) := by
    rw [hsplit, render_append, render_append, Str.trim_append_left hlead,
      Str.trim_append_right htrail, ← hsplit]
  have hinner : delimited (betweenComments segments) = true ∧
      hasCode (betweenComments segments) = false := by
    rw [hsplit] at hd
    refine ⟨(delimited_append (delimited_append hd).2).1, ?_⟩
    rw [hsplit] at hcode
    simp only [hasCode, any_append, Bool.or_eq_false_iff] at hcode
    exact hcode.2.1
  rw [htrim, Bool.false_or, oddBlanks]
  rcases betweenComments_cases segments with hempty | ⟨⟨first, rest, heq, hfirst⟩, hends⟩
  · rw [hempty]
    rfl
  · rcases Str.dropWhile_eq_trim_append (render (betweenComments segments)) with ⟨w, hw, hblank⟩
    rw [heq, dropWhile_comment hfirst, ← heq] at hw
    rw [hasCode_dropped hinner.1 hw hblank (by simp [lasting, hends]), hinner.2]
    rfl

/-! ## Splitting segments -/

/-- The segments of a whole batch, with the semicolons between its statements. -/
def joined : List (List Segment) → List Segment
  | [] => []
  | [statement] => statement
  | statement :: rest => statement ++ .plain [';'] :: joined rest

/-- The text of a batch. -/
def batchText (statements : List (List Segment)) : List Char :=
  render (joined statements)

/-- The statements with code, trimmed. -/
def intendedStatements (statements : List (List Segment)) : List (List Char) :=
  (statements.filter hasCode).map (fun statement => Str.trim (render statement))

/-- Whether a backslash escapes in a literal that follows this text. -/
def escapesAfter (backend : SqlBackend) (before : List Char) (q : Quote) : Bool :=
  match backend with
  | .mySql => q == .single || q == .double
  | .postgres => q == .single && (before.getLast? == some 'e' || before.getLast? == some 'E')
  | .sqlite | .sqlServer => false

/-- No literal has a backslash where the backend takes it for an escape. -/
def Unescaped (backend : SqlBackend) (segments : List Segment) : Prop :=
  ∀ before q body after, segments = before ++ .literal q body :: after →
    escapesAfter backend (render before) q = true → '\\' ∉ body

lemma unescaped_sqlite (segments : List Segment) : Unescaped .sqlite segments := by
  intro before q body after _ hescapes
  cases hescapes

variable {whole : List Segment}

section Splitting

variable {input : ScanInput} {st : BatchState} {pre rest : List UInt8}

/-- Iterations of the splitting loop. -/
abbrev Splits (input : ScanInput) : BatchState → BatchState → Prop :=
  Reaches (BatchState.isDone input) (batchBody input)

/-- The state after more of the current statement. -/
def BatchState.past (st : BatchState) (text : List UInt8) : BatchState :=
  { st with scanner := st.scanner.past text none }

lemma BatchState.past_past (st : BatchState) (a b : List UInt8) :
    (st.past a).past b = st.past (a ++ b) := by
  simp only [BatchState.past, SqlScanner.past_past]

lemma BatchState.at_past {text : List UInt8} (h : ScannerAt input st.scanner pre (text ++ rest)) :
    ScannerAt input (st.past text).scanner (pre ++ text) rest :=
  ScannerAt.past text h none

lemma splits_of_passes {s : SqlScanner} (h : Passes input st.scanner s) :
    Splits input st { st with scanner := s } := by
  induction h with
  | refl => exact .refl st
  | @tail mid s hpass hstep ih =>
    refine ih.trans (.single hstep.1 ?_)
    unfold batchBody
    rw [hstep.2]
    rfl

/-- A byte of ordinary text. -/
lemma batchBody_plain (hquote : st.scanner.quote = none)
    (hpassed : st.scanner.consumeOpaque input = .ok none)
    (hsemi : st.scanner.currentByte input ≠ some (byte ';')) (b : UInt8) :
    batchBody input st = .ok (st.past [b]) := by
  unfold batchBody
  rw [hpassed]
  simp [bind, Except.bind, hsemi, BatchState.past, SqlScanner.past, hquote]

lemma consumeOpaque_high {s : SqlScanner} {b : UInt8} (h : ScannerAt input s pre (b :: rest))
    (hquote : s.quote = none) (hb : 0x80 ≤ b) : s.consumeOpaque input = .ok none := by
  have hne : ∀ c : Char, c.toNat < 128 → b ≠ byte c := by
    rintro c hc rfl
    exact absurd (UInt8.lt_of_le_of_lt hb (byte_lt hc)) (by decide)
  rw [SqlScanner.consumeOpaque, hquote, h.currentByte]
  simp [hne '\x27' (by decide), hne '\x22' (by decide), hne '\x60' (by decide),
    hne '-' (by decide), hne '/' (by decide), hne '$' (by decide)]

lemma splits_high {tail : List UInt8} (hquote : st.scanner.quote = none)
    (h : ScannerAt input st.scanner pre (tail ++ rest)) (htail : ∀ b ∈ tail, 0x80 ≤ b) :
    Splits input st (st.past tail) := by
  induction tail generalizing st pre with
  | nil =>
    have hsame : st.past [] = st := by
      rw [BatchState.past, ← hquote]
      rfl
    rw [hsame]
    exact .refl st
  | cons b tail ih => ?_
  rw [forall_mem_cons] at htail
  have hpassed := consumeOpaque_high h hquote htail.1
  have hsemi : st.scanner.currentByte input ≠ some (byte ';') := by
    rw [h.currentByte]
    rintro heq
    rw [cons_append, List.getElem?_cons_zero, Option.some.injEq] at heq
    rw [heq] at htail
    exact absurd htail.1 (by decide)
  have hstep := batchBody_plain hquote hpassed hsemi b
  have hnext : ScannerAt input (st.past [b]).scanner (pre ++ [b]) (tail ++ rest) :=
    BatchState.at_past h
  have hrest := ih rfl hnext htail.2
  rw [BatchState.past_past] at hrest
  exact .head (isDone_of_cons h) hstep hrest

/-- Ordinary text without a semicolon. -/
lemma splits_plain {after : List Char} (hquote : st.scanner.quote = none)
    (h : ScannerAt input st.scanner pre (encode (text ++ after)))
    (hplain : plainOk text after = true) (hsemi : ';' ∉ text) :
    Splits input st (st.past (encode text)) := by
  induction text generalizing st pre with
  | nil => exact splits_high hquote h (forall_mem_nil _)
  | cons c text ih => ?_
  have hpassed := consumeOpaque_plain h hquote hplain
  simp only [plainOk, Bool.and_eq_true] at hplain
  rw [mem_cons, not_or] at hsemi
  rw [cons_append, encode_cons] at h
  rcases encodeChar_head c with ⟨b, tail, henc, -, -, hascii, htail⟩
  rw [henc] at h
  have hcur : st.scanner.currentByte input ≠ some (byte ';') := by
    rw [h.currentByte]
    intro heq
    have hb : b = byte ';' := Option.some.inj heq
    exact hsemi.1 ((hascii ';' (by decide)).mp hb).symm
  have hstep := batchBody_plain hquote hpassed hcur b
  have hfirst : ScannerAt input (st.past [b]).scanner (pre ++ [b])
      (tail ++ encode (text ++ after)) := BatchState.at_past h
  have hchar := splits_high rfl hfirst htail
  have hnext := BatchState.at_past h
  have hrest := ih rfl hnext hplain.2 hsemi.2
  rw [BatchState.past_past] at hchar hrest
  rw [encode_cons, henc]
  exact .head (isDone_of_cons h) hstep (hchar.trans hrest)

lemma escapesAfter_of_quote {before : List Char} {q : Quote} {rest : List UInt8}
    (h : quoteUsesBackslashEscape input.backend (encode before ++ rest) (encode before).length
      (byte q.char) = true) : escapesAfter input.backend before q = true := by
  unfold quoteUsesBackslashEscape at h
  unfold escapesAfter
  cases hbackend : input.backend with
  | mySql =>
    rw [hbackend] at h
    cases q with
    | single | double => rfl
    | backtick =>
      simp only at h
      exact absurd h (by decide)
  | postgres =>
    rw [hbackend] at h
    simp only [Bool.and_eq_true, decide_eq_true_eq, beq_iff_eq, Bool.or_eq_true] at h
    have hlast : (encode before ++ rest)[(encode before).length - 1]? = (encode before).getLast? := by
      rw [List.getElem?_append_left (by omega), List.getLast?_eq_getElem?]
    rw [hlast] at h
    cases q with
    | single =>
      have hchar : before.getLast? = some 'e' ∨ before.getLast? = some 'E' :=
        h.2.imp (getLast?_encode (by decide)) (getLast?_encode (by decide))
      simpa using hchar
    | double | backtick => exact absurd h.1.1 (by decide)
  | sqlite | sqlServer =>
    rw [hbackend] at h
    cases h

lemma plainOk_extend {before after : List Char} (h : plainOk text before = true)
    (hline : after.head? ≠ some '-') (hblock : after.head? ≠ some '*') :
    plainOk text (before ++ after) = true := by
  refine plainOk_congr h fun d hd hhead => ?_
  cases before with
  | nil => rcases hd with rfl | rfl <;> contradiction
  | cons x before => exact hhead

/-- A statement ends with the batch or at a semicolon. -/
def EndsHere (after : List Segment) : Prop :=
  after = [] ∨ ∃ more, after = .plain [';'] :: more

lemma EndsHere.head (h : EndsHere after) {d : Char} (hd : d ≠ ';') :
    (render after).head? ≠ some d := by
  rcases h with rfl | ⟨more, rfl⟩
  · exact nofun
  · intro heq
    exact hd (Option.some.inj heq).symm

/-- The loop passes the segments of a statement. -/
theorem splits_segments (hwhole : whole = before ++ (segments ++ after))
    (h : ScannerAt input st.scanner (encode (render before)) (encode (render (segments ++ after))))
    (hquote : st.scanner.quote = none) (hd : delimited segments = true) (hafter : EndsHere after)
    (hecho : noEcho segments after = true) (hesc : Unescaped input.backend whole) :
    Splits input st (st.past (encode (render segments))) := by
  induction segments generalizing before st with
  | nil =>
    have hat : ScannerAt input st.scanner _ ([] ++ encode (render after)) := h
    exact splits_high hquote hat (forall_mem_nil _)
  | cons segment rest ih => ?_
  -- the rest of the statement, from the end of this segment
  have hnext : noEcho rest after = true → Splits input (st.past (encode segment.render))
        (st.past (encode (render (segment :: rest)))) := by
    intro hecho'
    have hat : ScannerAt input (st.past (encode segment.render)).scanner
        (encode (render (before ++ [segment]))) (encode (render (rest ++ after))) := by
      rw [cons_append, render_cons, encode_append] at h
      have := BatchState.at_past h
      rwa [← encode_append, ← append_nil segment.render, ← show render [segment] =
        segment.render ++ [] from rfl, ← render_append, show render [segment] =
        segment.render ++ [] from rfl, append_nil] at this
    have hsplit : whole = before ++ [segment] ++ (rest ++ after) := by
      rw [hwhole, append_assoc]
      rfl
    have hrest := ih hsplit hat rfl (delimited_tail hd) hecho'
    rwa [BatchState.past_past, ← encode_append] at hrest
  rw [cons_append, render_cons] at h
  cases segment with
  | plain text =>
    simp only [delimited, Bool.and_eq_true, Bool.not_eq_true', contains_eq_mem,
      decide_eq_false_iff_not] at hd
    have hplain : plainOk text (render (rest ++ after)) = true := by
      rw [render_append]
      exact plainOk_extend hd.1.1 (hafter.head (by decide)) (hafter.head (by decide))
    exact (splits_plain hquote h hplain hd.1.2).trans (hnext hecho)
  | literal q body =>
    simp only [noEcho, Bool.and_eq_true, bne_iff_ne] at hecho
    rw [encode_append] at h
    have hback : quoteUsesBackslashEscape input.backend input.sql st.scanner.index
        (byte q.char) = true → '\\' ∉ body := by
      intro hescapes
      rw [h.input_eq, h.index_eq] at hescapes
      exact hesc before q body (rest ++ after) hwhole (escapesAfter_of_quote hescapes)
    exact (splits_of_passes (passes_literal h hquote hback hecho.1)).trans (hnext hecho.2)
  | lineComment text =>
    simp only [delimited, Bool.and_eq_true, Bool.not_eq_true', contains_eq_mem,
      decide_eq_false_iff_not] at hd
    rw [encode_append, encode_lineComment, append_assoc] at h
    have hcomment := splits_of_passes (.single (opaqueStep_lineComment h hquote hd.1))
    have hnewline := BatchState.at_past h
    have hpassed : (st.past (byte '-' :: byte '-' :: encode text)).scanner.consumeOpaque
        input = .ok none := by
      rw [SqlScanner.consumeOpaque, hnewline.currentByte]
      rfl
    have hsemi : byte '\n' ≠ byte ';' := by decide
    have hstep := batchBody_plain rfl hpassed
      (by rw [hnewline.currentByte]; exact fun heq => hsemi (Option.some.inj heq)) (byte '\n')
    rw [BatchState.past_past, ← encode_lineComment] at hstep
    exact hcomment.trans (.head (isDone_of_cons hnewline) hstep (hnext hecho))
  | blockComment text =>
    simp only [delimited, Bool.and_eq_true] at hd
    rw [encode_append] at h
    exact (splits_of_passes (.single (opaqueStep_blockComment h hquote hd.1))).trans
      (hnext hecho)

end Splitting

/-! ## Splitting statements -/

lemma noEcho_append {a b : List Segment} (h : noEcho (a ++ b) after = true) :
    noEcho a (b ++ after) = true ∧ noEcho b after = true := by
  induction a with
  | nil => exact ⟨rfl, h⟩
  | cons segment a ih => ?_
  cases segment with
  | literal q body =>
    simp only [cons_append, noEcho, Bool.and_eq_true] at h ⊢
    rw [← append_assoc]
    exact ⟨⟨h.1, (ih h.2).1⟩, (ih h.2).2⟩
  | plain text | lineComment text | blockComment text => exact ih h

/-- The trimmed statements that the scan for code keeps. -/
def returnedStatements (statements : List (List Segment)) : List (List Char) :=
  (statements.filter (fun statement => hasCode statement || oddBlanks statement)).map
    (fun statement => Str.trim (render statement))

lemma returnedStatements_cons (stmt : List Segment) (rest : List (List Segment)) :
    returnedStatements (stmt :: rest) =
      returnedStatements [stmt] ++ returnedStatements rest := by
  rw [returnedStatements, returnedStatements, returnedStatements, ← map_append,
    ← filter_append, singleton_append]

variable (stmts : List (List Segment))

lemma length_returnedStatements_le :
    (returnedStatements stmts).length ≤ stmts.length := by
  rw [returnedStatements, length_map]
  exact length_filter_le _ _

variable {stmt : List Segment}

lemma pushStatement_eq {sql : List UInt8} {start stop : Nat} {stmts : List (List Char)}
    (hslice : slice sql start stop = encode (render stmt)) (hd : delimited stmt = true)
    (hlength : stmts.length < 1024) : pushStatement sql start stop stmts =
      .ok (stmts ++ returnedStatements [stmt]) := by
  have htrimmed : trimmedStatement sql start stop = .ok (Str.trim (render stmt)) := by
    rw [trimmedStatement, hslice, Str.fromUtf8_encode]
  have hfound := length_returnedStatements_le [stmt]
  have hkept : (if sqlStatementHasCode (encode (Str.trim (render stmt))) then
      stmts ++ [Str.trim (render stmt)] else stmts) =
      stmts ++ returnedStatements [stmt] := by
    rw [sqlStatementHasCode_trim hd, returnedStatements, filter_singleton]
    cases hasCode stmt || oddBlanks stmt with
    | true => rfl
    | false => exact (append_nil _).symm
  simp only [pushStatement, htrimmed, bind, Except.bind, hkept]
  rw [if_neg]
  rw [length_append]
  rw [length_singleton] at hfound
  omega

section Statements

variable {input : ScanInput} {st : BatchState}

/-- The loop is at the start of a statement. -/
structure StatementAt (input : ScanInput) (st : BatchState) (before after : List Segment) :
    Prop where
  position : ScannerAt input st.scanner (encode (render before)) (encode (render after))
  start_eq : st.start = (encode (render before)).length
  quote_eq : st.scanner.quote = none

/-- The text of the current statement. -/
lemma StatementAt.slice_eq (h : StatementAt input st before (stmt ++ after)) :
    slice input.sql st.start (st.start + (encode (render stmt)).length) =
      encode (render stmt) := by
  rw [h.start_eq, ← h.position.index_eq, h.position.slice, render_append, encode_append, take_left]

/-- The state after the semicolon that ends a statement. -/
def BatchState.next (st : BatchState) (statement : List Segment) : BatchState where
  scanner := st.scanner.past (encode (render statement) ++ [byte ';']) none
  start := st.start + (encode (render statement)).length + 1
  statements := st.statements ++ returnedStatements [statement]

lemma encode_semicolon (more : List Segment) :
    encode (render (.plain [';'] :: more)) = byte ';' :: encode (render more) := by
  rfl

lemma StatementAt.next {more : List Segment}
    (h : StatementAt input st before (stmt ++ .plain [';'] :: more)) :
    StatementAt input (st.next stmt) (before ++ (stmt ++ [.plain [';']])) more := by
  have hpos := h.position
  rw [render_append, encode_append, encode_semicolon, ← singleton_append, ← append_assoc] at hpos
  have htext : encode (render (stmt ++ [.plain [';']])) =
      encode (render stmt) ++ [byte ';'] := by
    rw [render_append, encode_append, encode_semicolon]
    rfl
  refine ⟨?_, ?_, rfl⟩
  · rw [render_append, encode_append, htext]
    exact ScannerAt.past _ hpos none
  · rw [render_append, encode_append, htext, length_append, length_append,
      ← h.start_eq, BatchState.next, Nat.add_assoc]
    rfl

/-- At a semicolon the statement is kept and the next one begins. -/
lemma batchBody_semicolon {more : List Segment}
    (h : StatementAt input st before (stmt ++ .plain [';'] :: more))
    (hd : delimited stmt = true) (hlength : st.statements.length < 1024) :
    batchBody input (st.past (encode (render stmt))) = .ok (st.next stmt) := by
  have hpos := h.position
  rw [render_append, encode_append] at hpos
  have hat := BatchState.at_past hpos
  have hchar : ScannerAt input (st.past (encode (render stmt))).scanner _
      (encode (';' :: ([] ++ render more))) := hat
  have hpassed := consumeOpaque_plain hchar rfl rfl
  rw [encode_semicolon] at hat
  have hindex : (st.past (encode (render stmt))).scanner.index =
      st.start + (encode (render stmt)).length := by
    rw [hat.index_eq, h.start_eq, length_append]
  have hpush : pushStatement input.sql st.start (st.start + (encode (render stmt)).length)
      (st.past (encode (render stmt))).statements = .ok (st.next stmt).statements :=
    pushStatement_eq h.slice_eq hd hlength
  have hscanner : (⟨st.start + (encode (render stmt)).length + 1, none⟩ : SqlScanner) =
      (st.next stmt).scanner := by
    rw [BatchState.next, SqlScanner.past, length_append, ← hindex]
    rfl
  unfold batchBody
  rw [hpassed]
  simp only [bind, Except.bind, hat.currentByte, hindex, List.getElem?_cons_zero, beq_self_eq_true,
    if_true]
  rw [show (st.past (encode (render stmt))).start = st.start from rfl, hpush]
  rw [show (st.past (encode (render stmt))).scanner.quote = none from rfl, hscanner]
  rfl

/-- A run of the loop to the end of the text, where the last statement is kept. -/
def SplitsInto (input : ScanInput) (st : BatchState) (found : List (List Char)) : Prop :=
  ∃ st', Splits input st st' ∧ st'.isDone input = true ∧ st'.scanner.quote = none ∧
    pushStatement input.sql st'.start input.sql.length st'.statements = .ok found

lemma splitsInto_last (hwhole : whole = before ++ stmt)
    (h : StatementAt input st before stmt) (hd : delimited stmt = true)
    (hlength : st.statements.length < 1024) (hecho : noEcho stmt [] = true)
    (hesc : Unescaped input.backend whole) :
    SplitsInto input st (st.statements ++ returnedStatements [stmt]) := by
  rw [← append_nil stmt] at hwhole h
  refine ⟨st.past (encode (render stmt)), splits_segments hwhole h.position h.quote_eq hd
    (.inl rfl) hecho hesc, ?_, rfl, ?_⟩
  · have hpos := h.position
    rw [render_append, encode_append] at hpos
    exact ScannerAt.isDone (BatchState.at_past hpos)
  · have hstop : input.sql.length = st.start + (encode (render stmt)).length := by
      rw [h.position.input_eq, h.start_eq, append_nil, length_append]
    rw [hstop]
    exact pushStatement_eq h.slice_eq hd hlength

lemma splitsInto_statements {rest : List (List Segment)}
    (hwhole : whole = before ++ joined (stmt :: rest))
    (h : StatementAt input st before (joined (stmt :: rest)))
    (hd : ∀ s ∈ stmt :: rest, delimited s = true)
    (hlength : st.statements.length + (stmt :: rest).length ≤ 1024)
    (hecho : noEcho (joined (stmt :: rest)) [] = true) (hesc : Unescaped input.backend whole) :
    SplitsInto input st (st.statements ++ returnedStatements (stmt :: rest)) := by
  induction rest generalizing st before stmt with
  | nil =>
    rw [forall_mem_singleton] at hd
    exact splitsInto_last hwhole h hd (by simpa using hlength) hecho hesc
  | cons second more ih => ?_
  rw [forall_mem_cons] at hd
  rw [length_cons] at hlength
  have hpieces : joined (stmt :: second :: more) =
      stmt ++ .plain [';'] :: joined (second :: more) := rfl
  rw [hpieces] at hwhole h hecho
  rcases noEcho_append hecho with ⟨hfirst, hothers⟩
  rw [append_nil] at hfirst
  have hrun := splits_segments hwhole h.position h.quote_eq hd.1 (.inr ⟨_, rfl⟩) hfirst hesc
  have hstep := batchBody_semicolon h hd.1 (by omega)
  have hnotDone : (st.past (encode (render stmt))).isDone input = false := by
    have hpos := h.position
    rw [render_append, encode_append] at hpos
    exact isDone_of_cons (BatchState.at_past hpos)
  have hwhole' : whole = before ++ (stmt ++ [.plain [';']]) ++ joined (second :: more) := by
    rw [hwhole, append_assoc, append_assoc, singleton_append]
  have hfound := length_returnedStatements_le [stmt]
  have hnext : (st.next stmt).statements.length + (second :: more).length ≤ 1024 := by
    rw [BatchState.next, length_append]
    rw [length_singleton] at hfound
    omega
  rcases ih hwhole' h.next hd.2 hnext hothers with ⟨st', hrest, hdone, hquote, hpush⟩
  refine ⟨st', hrun.trans (.head hnotDone hstep hrest), hdone, hquote, ?_⟩
  rw [hpush, BatchState.next, append_assoc, ← returnedStatements_cons]

end Statements

/-! ## Batches -/

lemma batchBody_progress (input : ScanInput) :
    Progress (fun st => input.sql.length - st.scanner.index) (BatchState.isDone input)
      (batchBody input) := by
  refine scan_progress input fun st st' hbody => ?_
  rcases bind_eq_ok hbody with ⟨opaqueEnd, hpassed, hbody⟩
  split at hbody
  · cases hbody
    exact SqlScanner.consumeOpaque_lt hpassed
  split at hbody
  · rcases bind_eq_ok hbody with ⟨stmts, -, hbody⟩
    cases hbody
    exact Nat.lt_succ_self _
  · cases hbody
    exact Nat.lt_succ_self _

/-- What the splitter returns for a batch within the size limit. -/
lemma splitSqlBatch_eq {backend : SqlBackend} {stmts : List (List Segment)}
    (hd : ∀ stmt ∈ stmts, delimited stmt = true)
    (hcount : stmts.length ≤ 1024) (hecho : noEcho (joined stmts) [] = true)
    (hesc : Unescaped backend (joined stmts))
    (hsize : (encode (batchText stmts)).length ≤ maxSqlBytes) :
    splitSqlBatch (encode (batchText stmts)) backend = .ok (returnedStatements stmts) := by
  have hinto : ∀ input : ScanInput, input.sql = encode (batchText stmts) →
      input.backend = backend →
      SplitsInto input BatchState.initial (returnedStatements stmts) := by
    intro input hsql hbackend
    have hat : StatementAt input BatchState.initial [] (joined stmts) :=
      ⟨⟨hsql, rfl⟩, rfl, rfl⟩
    rw [← hbackend] at hesc
    rcases stmts with _ | ⟨stmt, rest⟩
    · exact splitsInto_last rfl hat rfl (by decide) hecho hesc
    have hlength : BatchState.initial.statements.length + (stmt :: rest).length ≤ 1024 := by
      simpa [BatchState.initial] using hcount
    exact splitsInto_statements rfl hat hd hlength hecho hesc
  rcases hinto ⟨encode (batchText stmts), backend, "SQL batch"⟩ rfl rfl with
    ⟨st, hrun, hdone, hquote, hpush⟩
  have hloop := run_eq_ok (batchBody_progress _) hrun hdone (Nat.sub_le _ _)
  rw [splitSqlBatch, if_neg (by omega)]
  simp only [bind, Except.bind]
  rw [hloop]
  simp only [hquote, Option.isSome_none, Bool.false_eq_true, if_false]
  exact hpush

lemma returnedStatements_eq_iff : returnedStatements stmts = intendedStatements stmts ↔
      ∀ stmt ∈ stmts, hasCode stmt = true ∨ oddBlanks stmt = false := by
  let kept : List Segment → Bool := fun stmt => hasCode stmt || oddBlanks stmt
  constructor
  · intro heq stmt hmem
    -- every statement with code is kept, so that equal lengths leave no other kept statement
    have hlength : stmts.countP kept = (stmts.filter hasCode).length := by
      have := congrArg List.length heq
      rwa [returnedStatements, intendedStatements, length_map, length_map,
        ← countP_eq_length_filter] at this
    have hcode : (stmts.filter hasCode).countP kept = (stmts.filter hasCode).length := by
      rw [countP_eq_length]
      intro s hs
      exact Bool.or_eq_true_iff.mpr (.inl (mem_filter.mp hs).2)
    rw [countP_eq_countP_filter_add stmts kept hasCode, hcode] at hlength
    have hnone : (stmts.filter (fun s => !hasCode s)).countP kept = 0 := by simpa using hlength
    rw [countP_eq_zero] at hnone
    by_cases hs : hasCode stmt = true
    · exact .inl hs
    · refine .inr (Bool.eq_false_iff.mpr (fun hodd => ?_))
      exact hnone stmt (mem_filter.mpr ⟨hmem, by simpa using hs⟩)
        (Bool.or_eq_true_iff.mpr (.inr hodd))
  · intro h
    rw [returnedStatements]
    congr 1
    apply filter_congr
    intro stmt hmem
    rcases h stmt hmem with hcode | hodd
    · rw [hcode, Bool.true_or]
    · rw [hodd, Bool.or_false]

/-- A batch is split into its statements with code exactly when it is within the size limit and no
statement without code has a blank between comments that is not one of the five ASCII ones. -/
theorem splitSqlBatch_iff {backend : SqlBackend} {stmts : List (List Segment)}
    (hd : ∀ stmt ∈ stmts, delimited stmt = true)
    (hcount : stmts.length ≤ 1024) (hecho : noEcho (joined stmts) [] = true)
    (hesc : Unescaped backend (joined stmts)) :
    splitSqlBatch (encode (batchText stmts)) backend = .ok (intendedStatements stmts) ↔
      (encode (batchText stmts)).length ≤ maxSqlBytes ∧
        ∀ stmt ∈ stmts, hasCode stmt = true ∨ oddBlanks stmt = false := by
  by_cases hsize : (encode (batchText stmts)).length ≤ maxSqlBytes
  · rw [splitSqlBatch_eq hd hcount hecho hesc hsize, Except.ok.injEq, returnedStatements_eq_iff]
    exact (and_iff_right hsize).symm
  · rw [splitSqlBatch, if_pos (by omega)]
    simp [hsize]

/-- A literal and a comment with a semicolon in them, and a statement of blanks. -/
theorem splitSqlBatch_semicolons : splitSqlBatch (encode (batchText
        [[.plain "select ".toList, .literal .single "a;b".toList], [.plain [' ']],
          [.lineComment ";".toList, .plain "update t".toList]])) .sqlite =
      .ok (intendedStatements
        [[.plain "select ".toList, .literal .single "a;b".toList], [.plain [' ']],
          [.lineComment ";".toList, .plain "update t".toList]]) :=
  (splitSqlBatch_iff (by decide) (by decide) (by decide) (unescaped_sqlite _)).mpr ⟨by decide, by decide⟩

/-- Two literals on either side of a semicolon are returned as one statement. -/
theorem semicolon_between_literals :
    splitSqlBatch (encode (batchText [[.literal .single ['a']], [.literal .single ['b']]])) .sqlite =
        .ok ["'a';'b'".toList] ∧
      intendedStatements [[.literal .single ['a']], [.literal .single ['b']]] =
        ["'a'".toList, "'b'".toList] := by
  decide +kernel

end Sql
end MuxRuntime
