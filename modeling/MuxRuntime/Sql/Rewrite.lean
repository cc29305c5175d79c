import MuxRuntime.Sql.Scanner

/-!
# Rewriting positional placeholders

A statement is described as a sequence of segments: ordinary text, quoted
literals and comments. This module says what the rewriting should do to such a
statement and compares the scanner with it.
-/

namespace MuxRuntime
namespace Sql

open List Utf8 Loop Cursor SqlScanner

/-! ## Segments -/

/-- The delimiters of literals. -/
inductive Quote where
  | single
  | double
  | backtick
deriving DecidableEq, Repr

def Quote.char : Quote → Char
  | single => '\x27'
  | double => '\x22'
  | backtick => '\x60'

/-- The pieces a statement is made of. -/
inductive Segment where
  | plain (text : List Char)
  | literal (quote : Quote) (body : List Char)
  | lineComment (text : List Char)
  | blockComment (text : List Char)
deriving DecidableEq, Repr

/-- The body of a literal as it is written: delimiters are doubled. -/
def doubled (q : Quote) (body : List Char) : List Char :=
  body.flatMap (fun c => if c = q.char then [c, c] else [c])

/-- The text of a segment. -/
def Segment.render : Segment → List Char
  | plain text => text
  | literal q body => q.char :: (doubled q body ++ [q.char])
  | lineComment text => '-' :: '-' :: (text ++ ['\n'])
  | blockComment text => '/' :: '*' :: (text ++ ['*', '/'])

/-- The text of a statement. -/
def render (segments : List Segment) : List Char :=
  segments.flatMap Segment.render

/-- Ordinary text that is followed by `after`: no quote, backslash or dollar
sign, and no start of a comment, not even together with what follows. -/
def plainOk : List Char → List Char → Bool
  | [], _ => true
  | c :: text, after =>
    !(List.contains ['\x27', '\x22', '\x60', '\\', '$'] c) &&
      !(c == '-' && (text ++ after).head? == some '-') &&
      !(c == '/' && (text ++ after).head? == some '*') && plainOk text after

/-- The text of a block comment does not end it. -/
def noBlockEnd : List Char → Bool
  | a :: b :: rest => !(a == '*' && b == '/') && noBlockEnd (b :: rest)
  | _ => true

/-- The segments are what they claim to be. -/
def wellFormed : List Segment → Bool
  | [] => true
  | .plain text :: rest => plainOk text (render rest) && wellFormed rest
  | .literal q body :: rest =>
    !body.contains '\\' && (render rest).head? != some q.char && wellFormed rest
  | .lineComment text :: rest => !text.contains '\n' && wellFormed rest
  | .blockComment text :: rest => noBlockEnd text && wellFormed rest

/-- In a statement that goes on with `after`, no closing delimiter of one of these
literals occurs again two bytes later. -/
def noEcho : List Segment → List Segment → Bool
  | [], _ => true
  | .literal q _ :: rest, after =>
    (encode (render (rest ++ after)))[1]? != some (byte q.char) && noEcho rest after
  | _ :: rest, after => noEcho rest after

/-! ## The intended result -/

/-- The number of question marks in ordinary text. -/
def questionCount : List Segment → Nat
  | [] => 0
  | .plain text :: rest => text.count '?' + questionCount rest
  | _ :: rest => questionCount rest

/-- Ordinary text with its question marks replaced, counting from `index`. -/
def rewriteText (backend : SqlBackend) : Nat → List Char → List UInt8
  | _, [] => []
  | index, c :: text =>
    if c = '?' then sqlPlaceholder backend index ++ rewriteText backend (index + 1) text
    else String.utf8EncodeChar c ++ rewriteText backend index text

/-- The statement with the question marks of its ordinary text replaced. -/
def rewritten (backend : SqlBackend) : Nat → List Segment → List UInt8
  | _, [] => []
  | index, .plain text :: rest =>
    rewriteText backend index text ++ rewritten backend (index + text.count '?') rest
  | index, segment :: rest => encode segment.render ++ rewritten backend index rest

/-! ## Positions -/

variable {c : Char} {q : Quote} {body text : List Char}

section Scanning

variable {input : ScanInput} {s : SqlScanner} {pre rest : List UInt8}

/-- The scanner has consumed `pre` and `rest` is left. -/
abbrev ScannerAt (input : ScanInput) (s : SqlScanner) (pre rest : List UInt8) : Prop :=
  Cursor.At input.sql s.index pre rest

namespace ScannerAt

lemma currentByte (h : ScannerAt input s pre rest) : s.currentByte input = rest[0]? := h.head

lemma nextByte (h : ScannerAt input s pre rest) : s.nextByte input = rest[1]? := h.getElem? 1

lemma isDone (h : ScannerAt input s pre rest) : s.isDone input = rest.isEmpty := by
  rw [Bool.eq_iff_iff, SqlScanner.isDone, decide_eq_true_eq, h.length_le_iff, List.isEmpty_iff]

end ScannerAt

/-- The scanner after the next bytes. -/
def SqlScanner.past (s : SqlScanner) (text : List UInt8) (quote : Option (UInt8 × Bool)) :
    SqlScanner :=
  { index := s.index + text.length, quote := quote }

lemma SqlScanner.past_past (s : SqlScanner) (a b : List UInt8) (q r : Option (UInt8 × Bool)) :
    (s.past a q).past b r = s.past (a ++ b) r := by
  simp [past, Nat.add_assoc]

lemma ScannerAt.past (text : List UInt8) (h : ScannerAt input s pre (text ++ rest))
    (quote : Option (UInt8 × Bool)) : ScannerAt input (s.past text quote) (pre ++ text) rest :=
  h.advance text

lemma isDone_of_cons {b : UInt8} (h : ScannerAt input s pre (b :: rest)) :
    s.isDone input = false := by
  rw [h.isDone]
  rfl

lemma isDone_of_char (h : ScannerAt input s pre (String.utf8EncodeChar c ++ rest)) :
    s.isDone input = false := by
  rcases encodeChar_head c with ⟨b, tail, henc, -⟩
  rw [henc] at h
  exact isDone_of_cons h

/-- The length of the character at the current position. -/
lemma sqlCharLen_at (h : ScannerAt input s pre (String.utf8EncodeChar c ++ rest)) :
    sqlCharLen input.sql s.index = .ok (String.utf8EncodeChar c).length := by
  rcases encodeChar_head c with ⟨b, tail, henc, hlen, hcont, -, -⟩
  have hget := h.getElem? 0
  rw [henc, Nat.add_zero] at hget
  simp [sqlCharLen, hget, hcont, henc, hlen]

lemma sqlCharLen_byte {d : Char} (hd : d.toNat < 128) (h : ScannerAt input s pre (byte d :: rest)) :
    sqlCharLen input.sql s.index = .ok 1 := by
  have hchar : ScannerAt input s pre (String.utf8EncodeChar d ++ rest) := by
    rw [encodeChar_ascii hd]
    exact h
  rw [sqlCharLen_at hchar, encodeChar_ascii hd]
  rfl

/-! ## Opaque text -/

/-- One opaque step of the scanner. -/
def OpaqueStep (input : ScanInput) (s s' : SqlScanner) : Prop :=
  s.isDone input = false ∧ s.consumeOpaque input = .ok (some s')

/-- Opaque steps lead from one scanner to another. -/
abbrev Passes (input : ScanInput) : SqlScanner → SqlScanner → Prop :=
  Relation.ReflTransGen (OpaqueStep input)

lemma Quote.char_lt (q : Quote) : q.char.toNat < 128 := by cases q <;> decide

lemma Quote.byte_ne_backslash (q : Quote) : byte q.char ≠ byte '\\' := by cases q <;> decide

lemma consumeOpaque_quoted {quote : UInt8 × Bool} (hquote : s.quote = some quote) :
    s.consumeOpaque input = (s.consumeQuoted input >>= fun scanner => .ok (some scanner)) := by
  simp [consumeOpaque, hquote]

variable {e : Bool}

/-- A character of a literal that is neither a delimiter nor an escape. -/
lemma opaqueStep_quotedChar (h : ScannerAt input s pre (String.utf8EncodeChar c ++ rest))
    (hquote : s.quote = some (byte q.char, e)) (hc : c ≠ q.char) (hback : e = true → c ≠ '\\') :
    OpaqueStep input s (s.past (String.utf8EncodeChar c) (some (byte q.char, e))) := by
  refine ⟨isDone_of_char h, ?_⟩
  have hlen := sqlCharLen_at h
  have hcur := h.currentByte
  rcases encodeChar_head c with ⟨b, tail, henc, -, -, hascii, -⟩
  rw [henc] at hcur hlen ⊢
  have hq : b ≠ byte q.char := fun hb => hc ((hascii _ q.char_lt).mp hb)
  have hb : ¬ (e = true ∧ b = byte '\\') :=
    fun hb => hback hb.1 ((hascii _ (by decide)).mp hb.2)
  rw [consumeOpaque_quoted hquote, consumeQuoted, hquote, hcur]
  simp [hlen, bind, Except.bind, hq, hb, past]

section

variable (h : ScannerAt input s pre (byte q.char :: rest))
    (hquote : s.quote = some (byte q.char, e))

include h hquote

/-- What happens at a delimiter depends on the byte after the next one. -/
lemma consumeQuoted_delimiter :
    s.consumeQuoted input = if rest[1]? = some (byte q.char) then
        .ok { index := s.index + 2, quote := some (byte q.char, e) }
      else .ok { index := s.index + 1, quote := none } := by
  have hlen := sqlCharLen_byte q.char_lt h
  have hafter := h.getElem? 2
  rw [consumeQuoted, hquote, h.currentByte]
  simp [hlen, bind, Except.bind, q.byte_ne_backslash, SqlScanner.nextByte, Nat.add_assoc, hafter]

lemma opaqueStep_closing (hafter : rest[1]? ≠ some (byte q.char)) :
    OpaqueStep input s (s.past [byte q.char] none) := by
  refine ⟨isDone_of_cons h, ?_⟩
  rw [consumeOpaque_quoted hquote, consumeQuoted_delimiter h hquote, if_neg hafter]
  rfl

end

/-- A delimiter that occurs again two bytes later leaves the scanner inside the
literal, whatever the byte in between is. -/
lemma opaqueStep_skipping {x : UInt8}
    (h : ScannerAt input s pre (byte q.char :: x :: byte q.char :: rest))
    (hquote : s.quote = some (byte q.char, e)) :
    OpaqueStep input s (s.past [byte q.char, x] (some (byte q.char, e))) := by
  refine ⟨isDone_of_cons h, ?_⟩
  rw [consumeOpaque_quoted hquote, consumeQuoted_delimiter h hquote, if_pos (by simp)]
  rfl

lemma opaqueStep_opening (h : ScannerAt input s pre (byte q.char :: rest))
    (hquote : s.quote = none) : OpaqueStep input s (s.past [byte q.char] (some (byte q.char,
      quoteUsesBackslashEscape input.backend input.sql s.index (byte q.char)))) := by
  have hopens : byte q.char = byte '\x27' ∨ byte q.char = byte '\x22' ∨
      byte q.char = byte '\x60' := by
    cases q <;> simp [Quote.char]
  refine ⟨isDone_of_cons h, ?_⟩
  rw [consumeOpaque, hquote, h.currentByte]
  simp [or_assoc, hopens, past]

/-- A literal that is opened again right after a delimiter escapes as it did before, or not at
all. -/
lemma escapes_reopened {index : Nat} (hprev : input.sql[index - 1]? = some (byte q.char))
    (h : quoteUsesBackslashEscape input.backend input.sql index (byte q.char) = true) :
    input.backend = .mySql ∧ q ≠ .backtick := by
  unfold quoteUsesBackslashEscape at h
  cases hbackend : input.backend with
  | mySql =>
    rw [hbackend] at h
    refine ⟨rfl, ?_⟩
    rintro rfl
    have hticks : ¬ (byte '\x60' == byte '\x27' || byte '\x60' == byte '\x22') = true := by decide
    exact hticks h
  | postgres =>
    rw [hbackend, hprev] at h
    cases q <;> simp [Quote.char] at h <;> exact absurd h.2 (by decide)
  | sqlite | sqlServer =>
    rw [hbackend] at h
    cases h

/-- The body of a literal is passed, and the scanner is still inside the literal. -/
lemma passes_body (h : ScannerAt input s pre (encode (doubled q body) ++ byte q.char :: rest))
    (hquote : s.quote = some (byte q.char, e))
    (hback : e = true ∨ input.backend = .mySql ∧ q ≠ .backtick → '\\' ∉ body) :
    ∃ e', Passes input s (s.past (encode (doubled q body)) (some (byte q.char, e'))) := by
  induction body generalizing s pre e with
  | nil =>
    refine ⟨e, ?_⟩
    have hsame : s.past (encode (doubled q [])) (some (byte q.char, e)) = s := by
      simp [past, doubled, ← hquote]
    rw [hsame]
  | cons c body ih => ?_
  have hhead : e = true → c ≠ '\\' := fun he hc => hback (.inl he) (hc ▸ mem_cons_self)
  have htail : e = true ∨ input.backend = .mySql ∧ q ≠ .backtick → '\\' ∉ body :=
    fun he hmem => hback he (mem_cons_of_mem _ hmem)
  by_cases hc : c = q.char
  · subst hc
    have hdoubled : encode (doubled q (q.char :: body)) =
        byte q.char :: byte q.char :: encode (doubled q body) := by
      simp [doubled, encodeChar_ascii q.char_lt]
    rw [hdoubled] at h ⊢
    simp only [cons_append] at h ⊢
    by_cases hthird : (encode (doubled q body) ++ byte q.char :: rest)[0]? = some (byte q.char)
    · -- a third delimiter follows: the pair is skipped at once
      rcases hsplit : encode (doubled q body) ++ byte q.char :: rest with _ | ⟨b, after⟩
      · simp at hsplit
      rw [hsplit] at hthird
      obtain rfl : b = byte q.char := by simpa using hthird
      have hpair := h
      rw [hsplit] at hpair
      have hstep := opaqueStep_skipping hpair hquote
      have hnext := ScannerAt.past [byte q.char, byte q.char] h (some (byte q.char, e))
      rcases ih hnext rfl htail with ⟨e', hrest⟩
      rw [past_past] at hrest
      exact ⟨e', .head hstep hrest⟩
    · -- the first delimiter closes the literal and the second one opens it again
      have hclose := opaqueStep_closing h hquote (by simpa using hthird)
      have hmid := ScannerAt.past [byte q.char] h none
      have hopen := opaqueStep_opening hmid rfl
      have hnext := ScannerAt.past [byte q.char] hmid
        (some (byte q.char, quoteUsesBackslashEscape input.backend input.sql
          (s.past [byte q.char] none).index (byte q.char)))
      have hprev : input.sql[(s.past [byte q.char] none).index - 1]? = some (byte q.char) := by
        rw [past, length_singleton, Nat.add_sub_cancel, h.head]
        rfl
      have hback' : ∀ e', (e' = true → input.backend = .mySql ∧ q ≠ .backtick) →
          e' = true ∨ input.backend = .mySql ∧ q ≠ .backtick → '\\' ∉ body := by
        rintro e' he' (he | hmy)
        · exact htail (.inr (he' he))
        · exact htail (.inr hmy)
      rcases ih hnext rfl (hback' _ (escapes_reopened hprev)) with ⟨e'', hrest⟩
      rw [past_past, past_past] at hrest
      exact ⟨e'', .head hclose (.head hopen hrest)⟩
  · have hdoubled : encode (doubled q (c :: body)) =
        String.utf8EncodeChar c ++ encode (doubled q body) := by
      simp [doubled, hc]
    rw [hdoubled] at h ⊢
    rw [append_assoc] at h
    have hstep := opaqueStep_quotedChar h hquote hc hhead
    have hnext := ScannerAt.past _ h (some (byte q.char, e))
    rcases ih hnext rfl htail with ⟨e', hrest⟩
    rw [past_past] at hrest
    exact ⟨e', .head hstep hrest⟩

lemma encode_literal (q : Quote) (body : List Char) : encode (Segment.literal q body).render =
      byte q.char :: (encode (doubled q body) ++ [byte q.char]) := by
  simp [Segment.render, encodeChar_ascii q.char_lt]

section

variable (h : ScannerAt input s pre (encode (Segment.literal q body).render ++ rest))
    (hquote : s.quote = none)
    (hback : quoteUsesBackslashEscape input.backend input.sql s.index (byte q.char) = true → '\\' ∉ body)

include h hquote hback

/-- A literal is passed up to its closing delimiter. -/
lemma passes_opened :
    ∃ e, Passes input s (s.past (byte q.char :: encode (doubled q body)) (some (byte q.char, e))) ∧
      ScannerAt input (s.past (byte q.char :: encode (doubled q body)) (some (byte q.char, e)))
        (pre ++ byte q.char :: encode (doubled q body)) (byte q.char :: rest) := by
  rw [encode_literal, cons_append, append_assoc, singleton_append] at h
  have hopen := opaqueStep_opening h hquote
  have hbody := ScannerAt.past [byte q.char] h (some (byte q.char,
    quoteUsesBackslashEscape input.backend input.sql s.index (byte q.char)))
  have hmySql : input.backend = .mySql ∧ q ≠ .backtick →
      quoteUsesBackslashEscape input.backend input.sql s.index (byte q.char) = true := by
    rintro ⟨hbackend, hq⟩
    rw [hbackend]
    cases q with
    | single | double => rfl
    | backtick => exact absurd rfl hq
  rcases passes_body hbody rfl (fun he => hback (he.elim id hmySql)) with ⟨e', hrest⟩
  rw [past_past] at hrest
  exact ⟨e', .head hopen hrest, ScannerAt.past (byte q.char :: _) h _⟩

/-- A literal is passed and left, unless its delimiter occurs again two bytes
after the closing one. -/
lemma passes_literal (hecho : rest[1]? ≠ some (byte q.char)) :
    Passes input s (s.past (encode (Segment.literal q body).render) none) := by
  rcases passes_opened h hquote hback with ⟨e, hopened, hat⟩
  have hclose := opaqueStep_closing hat rfl hecho
  rw [past_past] at hclose
  rw [encode_literal]
  exact hopened.tail hclose

end

/-- A character of ordinary text is not opaque. -/
lemma consumeOpaque_plain {after : List Char}
    (h : ScannerAt input s pre (encode (c :: (text ++ after)))) (hquote : s.quote = none)
    (hplain : plainOk (c :: text) after = true) : s.consumeOpaque input = .ok none := by
  simp only [plainOk, Bool.and_eq_true, Bool.not_eq_true', contains_eq_mem,
    decide_eq_false_iff_not, mem_cons, not_mem_nil, or_false, not_or,
    Bool.and_eq_false_iff, beq_eq_false_iff_ne] at hplain
  obtain ⟨⟨⟨⟨hsingle, hdouble, hbacktick, -, hdollar⟩, hline⟩, hblock⟩, -⟩ := hplain
  rcases encodeChar_head c with ⟨b, tail, henc, -, -, hascii, -⟩
  have hne : ∀ d : Char, d.toNat < 128 → c ≠ d → b ≠ byte d :=
    fun d hd hcd hb => hcd ((hascii d hd).mp hb)
  -- a two byte opening needs the next character as well
  have hpair : ∀ d d' : Char, d.toNat < 128 → d'.toNat < 128 →
      c ≠ d ∨ (text ++ after).head? ≠ some d' →
      b ≠ byte d ∨ s.nextByte input ≠ some (byte d') := by
    intro d d' hd hd' hor
    by_cases hcd : c = d
    · right
      subst hcd
      have hhead := hor.resolve_left (not_not_intro rfl)
      rw [h.nextByte, encode_cons, encodeChar_ascii hd, singleton_append, List.getElem?_cons_succ]
      exact fun hbyte => hhead ((encode_getElem?_zero hd').mp hbyte)
    · exact Or.inl (hne d hd hcd)
  have hcur : s.currentByte input = some b := by
    rw [h.currentByte, encode_cons, henc]
    rfl
  have hline' := hpair '-' '-' (by decide) (by decide) hline
  have hblock' := hpair '/' '*' (by decide) (by decide) hblock
  rw [consumeOpaque, hquote, hcur]
  simp only [Option.isSome_none, Bool.false_eq_true, if_false, Bool.or_eq_true, beq_iff_eq,
    Bool.and_eq_true]
  rw [if_neg (by simp [hne _ _ hsingle, hne _ _ hdouble, hne _ _ hbacktick]),
    if_neg (by tauto), if_neg (by tauto), if_neg (hne _ (by decide) hdollar)]

/-! ## Ends of comments -/

lemma takeWhile_line (hline : '\n' ∉ text) :
    (encode text ++ byte '\n' :: rest).takeWhile (fun b => b != byte '\n') = encode text := by
  apply takeWhile_run
  · intro b hb
    have hne : b ≠ byte '\n' := by
      rintro rfl
      exact hline ((byte_mem_encode (by decide)).mp hb)
    simpa using hne
  · simp

lemma blockCommentLength_cons {b : UInt8} (h : b ≠ byte '*' ∨ rest[0]? ≠ some (byte '/')) :
    blockCommentLength (b :: rest) = (blockCommentLength rest).map (fun n => n + 1) := by
  cases rest with
  | nil => simp [blockCommentLength]
  | cons x rest =>
    rw [blockCommentLength, if_neg]
    simpa [imp_iff_not_or] using h

lemma blockCommentLength_bytes {text : List UInt8} (h : ∀ b ∈ text, b ≠ byte '*') :
    blockCommentLength (text ++ rest) =
      (blockCommentLength rest).map (fun n => n + text.length) := by
  induction text with
  | nil => simp
  | cons b text ih =>
    rw [cons_append, blockCommentLength_cons (Or.inl (h b (by simp))),
      ih (fun x hx => h x (by simp [hx])), Option.map_map]
    rfl

/-- A block comment ends with the first terminator. -/
lemma blockCommentLength_encode (h : noBlockEnd text = true) :
    blockCommentLength (encode text ++ byte '*' :: byte '/' :: rest) =
      some ((encode text).length + 2) := by
  induction text with
  | nil => rfl
  | cons c text ih => ?_
  have htail : noBlockEnd text = true := by
    cases text with
    | nil => rfl
    | cons d text => simpa [noBlockEnd] using (Bool.and_eq_true _ _ ▸ h).2
  by_cases hc : c = '*'
  · subst hc
    have hslash : (encode text ++ byte '*' :: byte '/' :: rest)[0]? ≠ some (byte '/') := by
      rcases text with _ | ⟨d, text⟩
      · simp [show byte '*' ≠ byte '/' by decide]
      have hd : d ≠ '/' := by
        rintro rfl
        simp [noBlockEnd] at h
      rcases encodeChar_head d with ⟨b, tail, henc, -, -, hascii, -⟩
      simp [henc, hascii '/' (by decide), hd]
    rw [encode_cons, encodeChar_ascii (by decide), singleton_append, cons_append,
      blockCommentLength_cons (Or.inr hslash), ih htail]
    simp
  · have hbytes : ∀ b ∈ String.utf8EncodeChar c, b ≠ byte '*' := by
      rintro b hb rfl
      exact hc ((byte_mem_encodeChar (by decide)).mp hb)
    rw [encode_cons, append_assoc, blockCommentLength_bytes hbytes, ih htail]
    simp
    omega

lemma encode_lineComment (text : List Char) : encode (Segment.lineComment text).render =
      (byte '-' :: byte '-' :: encode text) ++ [byte '\n'] := by
  simp [Segment.render, encodeChar_ascii (show '-'.toNat < 128 by decide),
    encodeChar_ascii (show '\n'.toNat < 128 by decide)]

lemma encode_blockComment (text : List Char) : encode (Segment.blockComment text).render =
      byte '/' :: byte '*' :: (encode text ++ [byte '*', byte '/']) := by
  simp [Segment.render, encodeChar_ascii (show '/'.toNat < 128 by decide),
    encodeChar_ascii (show '*'.toNat < 128 by decide)]

/-- A line comment is passed up to its newline. -/
lemma opaqueStep_lineComment
    (h : ScannerAt input s pre ((byte '-' :: byte '-' :: encode text) ++ byte '\n' :: rest))
    (hquote : s.quote = none) (hline : '\n' ∉ text) :
    OpaqueStep input s (s.past (byte '-' :: byte '-' :: encode text) none) := by
  refine ⟨isDone_of_cons h, ?_⟩
  have hdrop := h.drop 2
  have hlength : s.consumeLineComment input =
      s.past (byte '-' :: byte '-' :: encode text) none := by
    simp only [consumeLineComment, hdrop, hquote]
    simp [takeWhile_line hline, past]
    omega
  have hopens : s.consumeOpaque input = .ok (some (s.consumeLineComment input)) := by
    rw [consumeOpaque, hquote, h.currentByte, h.nextByte]
    rfl
  rw [hopens, hlength]

lemma opaqueStep_blockComment
    (h : ScannerAt input s pre (encode (Segment.blockComment text).render ++ rest))
    (hquote : s.quote = none) (hblock : noBlockEnd text = true) :
    OpaqueStep input s (s.past (encode (Segment.blockComment text).render) none) := by
  rw [encode_blockComment] at h ⊢
  refine ⟨isDone_of_cons h, ?_⟩
  have hdrop := h.drop 2
  have hlength : s.consumeBlockComment input =
      .ok { index := s.index + 2 + ((encode text).length + 2), quote := none } := by
    simp only [consumeBlockComment, hdrop, cons_append, drop_succ_cons,
      drop_zero, append_assoc, nil_append, blockCommentLength_encode hblock, hquote]
  have hopens : s.consumeOpaque input =
      (s.consumeBlockComment input >>= fun scanner => .ok (some scanner)) := by
    rw [consumeOpaque, hquote, h.currentByte, h.nextByte]
    rfl
  rw [hopens, hlength]
  simp [bind, Except.bind, past]
  omega

end Scanning

/-! ## Rewriting -/

variable {before : List Segment}

section Steps

variable {input : ScanInput} {st : RewriteState} {pre rest : List UInt8}

/-- The rewriting has consumed `pre` and `rest` is left. -/
abbrev At (input : ScanInput) (st : RewriteState) (pre rest : List UInt8) : Prop :=
  ScannerAt input st.scanner pre rest

/-- The state after copying the next bytes. -/
def copied (st : RewriteState) (text : List UInt8) (quote : Option (UInt8 × Bool)) : RewriteState :=
  { st with
    scanner := { index := st.scanner.index + text.length, quote := quote }
    out := st.out ++ text }

lemma At.copied (text : List UInt8) (h : At input st pre (text ++ rest))
    (quote : Option (UInt8 × Bool)) : At input (copied st text quote) (pre ++ text) rest :=
  h.advance text

lemma copied_copied (st : RewriteState) (a b : List UInt8) (q r : Option (UInt8 × Bool)) :
    copied (copied st a q) b r = copied st (a ++ b) r := by
  simp [copied, Nat.add_assoc]

/-- Iterations of the rewriting loop. -/
abbrev Rewrites (input : ScanInput) : RewriteState → RewriteState → Prop :=
  Reaches (RewriteState.isDone input) (rewriteBody input)

/-- Opaque steps copy what they pass. -/
lemma rewrites_of_passes {s s' : SqlScanner} (h : Passes input s s') (hscanner : st.scanner = s) :
    s.index ≤ s'.index ∧ Rewrites input st
      { st with scanner := s', out := st.out ++ slice input.sql s.index s'.index } := by
  induction h using Relation.ReflTransGen.head_induction_on generalizing st with
  | refl =>
    subst hscanner
    refine ⟨le_refl _, ?_⟩
    simp only [slice, Nat.sub_self, take_zero, append_nil]
    exact .refl st
  | @head s mid hstep hrest ih => ?_
  subst hscanner
  have hlt := consumeOpaque_lt hstep.2
  have hbody : rewriteBody input st = .ok
      { st with
        scanner := mid
        out := st.out ++ slice input.sql st.scanner.index mid.index } := by
    unfold rewriteBody
    rw [hstep.2]
    rfl
  rcases @ih { st with
    scanner := mid, out := st.out ++ slice input.sql st.scanner.index mid.index } rfl with
    ⟨hle, hrun⟩
  refine ⟨by omega, .head hstep.1 hbody ?_⟩
  rw [← slice_append_slice input.sql (le_of_lt hlt) hle, ← append_assoc]
  exact hrun

lemma rewrites_copied {text : List UInt8} {quote : Option (UInt8 × Bool)}
    (h : At input st pre (text ++ rest)) (hpass : Passes input st.scanner (st.scanner.past text quote)) :
    Rewrites input st (copied st text quote) := by
  have hrun := (rewrites_of_passes hpass rfl).2
  rwa [past, h.slice, take_left] at hrun

/-! ## Question marks -/

/-- A position in ordinary text, with only question marks as placeholders so far. -/
structure Ready (input : ScanInput) (st : RewriteState) (pre rest : List UInt8) : Prop where
  position : At input st pre rest
  quote_eq : st.scanner.quote = none
  sawDollar_eq : st.sawDollar = false
  sawQuestion_eq : st.sawQuestion = decide (0 < st.index)

lemma Ready.copied (text : List UInt8) (h : Ready input st pre (text ++ rest)) :
    Ready input (copied st text none) (pre ++ text) rest where
  position := h.position.copied text none
  quote_eq := rfl
  sawDollar_eq := h.sawDollar_eq
  sawQuestion_eq := h.sawQuestion_eq

/-- The state after a question mark was replaced. -/
def replaced (input : ScanInput) (st : RewriteState) : RewriteState :=
  { st with
    sawQuestion := true
    out := st.out ++ sqlPlaceholder input.backend st.index
    index := st.index + 1
    scanner := { st.scanner with index := st.scanner.index + 1 } }

lemma Ready.replaced (h : Ready input st pre (byte '?' :: rest)) :
    Ready input (replaced input st) (pre ++ [byte '?']) rest where
  position := h.position.advance [byte '?']
  quote_eq := h.quote_eq
  sawDollar_eq := h.sawDollar_eq
  sawQuestion_eq := by simp [Sql.replaced]

lemma rewriteBody_question (h : Ready input st pre (byte '?' :: rest))
    (hpassed : st.scanner.consumeOpaque input = .ok none) :
    rewriteBody input st = .ok (replaced input st) := by
  have hplace : consumePositionalPlaceholder input st = .ok (some (replaced input st)) := by
    simp [consumePositionalPlaceholder, h.position.currentByte, h.sawDollar_eq, replaced]
  unfold rewriteBody
  rw [hpassed, hplace]
  rfl

lemma rewriteBody_plainChar (h : Ready input st pre (String.utf8EncodeChar c ++ rest))
    (hpassed : st.scanner.consumeOpaque input = .ok none) (hquestion : c ≠ '?')
    (hdollar : c ≠ '$') :
    rewriteBody input st = .ok (copied st (String.utf8EncodeChar c) none) := by
  have hcur := h.position.currentByte
  rcases encodeChar_head c with ⟨b, tail, henc, -, -, hascii, -⟩
  have hq : b ≠ byte '?' := fun hb => hquestion ((hascii _ (by decide)).mp hb)
  have hd : b ≠ byte '$' := fun hb => hdollar ((hascii _ (by decide)).mp hb)
  have hnone : consumePositionalPlaceholder input st = .ok none := by
    rw [henc] at hcur
    simp [consumePositionalPlaceholder, hcur, hq, hd]
  unfold rewriteBody
  rw [hpassed, hnone]
  simp only [bind, Except.bind, sqlCharLen_at h.position]
  rw [h.position.slice, take_left]
  simp [copied, h.quote_eq]

/-- Ordinary text is rewritten. -/
lemma rewrites_plain {after : List Char} (h : Ready input st pre (encode (text ++ after)))
    (hplain : plainOk text after = true) :
    ∃ st', Rewrites input st st' ∧ Ready input st' (pre ++ encode text) (encode after) ∧
      st'.index = st.index + text.count '?' ∧
      st'.out = st.out ++ rewriteText input.backend st.index text := by
  induction text generalizing st pre with
  | nil => exact ⟨st, .refl st, by simpa using h, rfl, by simp [rewriteText]⟩
  | cons c text ih => ?_
  have hpassed := consumeOpaque_plain h.position h.quote_eq hplain
  have hdone : RewriteState.isDone input st = false := isDone_of_char h.position
  simp only [plainOk, Bool.and_eq_true] at hplain
  by_cases hc : c = '?'
  · subst hc
    have hmark : Ready input st pre (byte '?' :: encode (text ++ after)) := h
    rcases ih hmark.replaced hplain.2 with ⟨st', hrun, hready, hindex, hout⟩
    refine ⟨st', .head hdone (rewriteBody_question hmark hpassed) hrun, ?_, ?_, ?_⟩
    · rw [append_assoc] at hready
      exact hready
    · simp only [hindex, replaced, count_cons_self]
      omega
    · simp [hout, replaced, rewriteText]
  · have hdollar : c ≠ '$' := by
      rintro rfl
      simp at hplain
    rcases ih (h.copied _) hplain.2 with ⟨st', hrun, hready, hindex, hout⟩
    have hstep := rewriteBody_plainChar h hpassed hc hdollar
    refine ⟨st', .head hdone hstep hrun, ?_, ?_, ?_⟩
    · simpa using hready
    · rw [count_cons_of_ne hc]
      exact hindex
    · simp [hout, copied, rewriteText, hc]

/-! ## Comments -/

lemma rewrites_lineComment
    (h : Ready input st pre (encode (Segment.lineComment text).render ++ rest))
    (hline : '\n' ∉ text) :
    Rewrites input st (copied st (encode (Segment.lineComment text).render) none) := by
  rw [encode_lineComment, append_assoc] at h
  have hcomment := rewrites_copied h.position
    (.single (opaqueStep_lineComment h.position h.quote_eq hline))
  -- the newline is left to the next iteration, which copies it
  have hnewline := h.copied (byte '-' :: byte '-' :: encode text)
  have hpassed : (copied st (byte '-' :: byte '-' :: encode text) none).scanner.consumeOpaque
      input = .ok none := by
    rw [consumeOpaque, hnewline.quote_eq, hnewline.position.currentByte]
    rfl
  have hcopy := rewriteBody_plainChar (c := '\n') hnewline hpassed (by decide) (by decide)
  rw [copied_copied] at hcopy
  rw [encode_lineComment]
  exact hcomment.trans (.single (isDone_of_cons hnewline.position) hcopy)

lemma rewrites_blockComment
    (h : Ready input st pre (encode (Segment.blockComment text).render ++ rest))
    (hblock : noBlockEnd text = true) :
    Rewrites input st (copied st (encode (Segment.blockComment text).render) none) :=
  rewrites_copied h.position (.single (opaqueStep_blockComment h.position h.quote_eq hblock))

/-! ## Whole statements -/

lemma render_cons (segment : Segment) (rest : List Segment) :
    render (segment :: rest) = segment.render ++ render rest := rfl

lemma render_append (before after : List Segment) :
    render (before ++ after) = render before ++ render after := by
  simp [render]

/-- A segment that is copied, followed by the rest. -/
lemma rewrites_copied_cons {segment : Segment} {count : Nat} {out after next : List UInt8}
    (h : Ready input st pre (encode segment.render ++ rest))
    (hcopy : Rewrites input st (copied st (encode segment.render) none))
    (hrest : Ready input (copied st (encode segment.render) none)
        (pre ++ encode segment.render) rest →
      ∃ st', Rewrites input (copied st (encode segment.render) none) st' ∧
        Ready input st' (pre ++ encode segment.render ++ next) after ∧
        st'.index = st.index + count ∧ st'.out = (st.out ++ encode segment.render) ++ out) :
    ∃ st', Rewrites input st st' ∧ Ready input st' (pre ++ (encode segment.render ++ next)) after ∧
      st'.index = st.index + count ∧ st'.out = st.out ++ (encode segment.render ++ out) := by
  rcases hrest (h.copied _) with ⟨st', hrun, hready, hindex, hout⟩
  rw [append_assoc] at hready hout
  exact ⟨st', hcopy.trans hrun, hready, hindex, hout⟩

/-- Segments are rewritten one by one. -/
theorem rewrites_segments {after : List Segment}
    (h : Ready input st pre (encode (render (before ++ after))))
    (hwell : wellFormed (before ++ after) = true) (hecho : noEcho before after = true) :
    ∃ st', Rewrites input st st' ∧
      Ready input st' (pre ++ encode (render before)) (encode (render after)) ∧
      st'.index = st.index + questionCount before ∧
      st'.out = st.out ++ rewritten input.backend st.index before := by
  induction before generalizing st pre with
  | nil => exact ⟨st, .refl st, by simpa [render] using h, rfl, by simp [rewritten]⟩
  | cons segment before ih => ?_
  rw [cons_append, render_cons] at h
  rw [render_cons]
  cases segment with
  | plain text =>
    simp only [cons_append, wellFormed, Bool.and_eq_true] at hwell
    rcases rewrites_plain h hwell.1 with ⟨mid, hrun, hready, hindex, hout⟩
    rw [Segment.render] at hindex hout
    rcases ih hready hwell.2 hecho with ⟨st', hrun', hready', hindex', hout'⟩
    refine ⟨st', hrun.trans hrun', ?_, ?_, ?_⟩
    · simpa [Segment.render] using hready'
    · simp only [hindex', hindex, questionCount]
      omega
    · simp [hout', hout, hindex, rewritten]
  | literal q body =>
    simp only [cons_append, wellFormed, Bool.and_eq_true, Bool.not_eq_true',
      contains_eq_mem, decide_eq_false_iff_not] at hwell
    simp only [noEcho, Bool.and_eq_true, bne_iff_ne] at hecho
    rw [encode_append] at h ⊢
    have hpass := passes_literal h.position h.quote_eq (fun _ => hwell.1.1) hecho.1
    exact rewrites_copied_cons h (rewrites_copied h.position hpass)
      (fun hready => ih hready hwell.2 hecho.2)
  | lineComment text =>
    simp only [cons_append, wellFormed, Bool.and_eq_true, Bool.not_eq_true',
      contains_eq_mem, decide_eq_false_iff_not] at hwell
    rw [encode_append] at h ⊢
    exact rewrites_copied_cons h (rewrites_lineComment h hwell.1)
      (fun hready => ih hready hwell.2 hecho)
  | blockComment text =>
    simp only [cons_append, wellFormed, Bool.and_eq_true] at hwell
    rw [encode_append] at h ⊢
    exact rewrites_copied_cons h (rewrites_blockComment h hwell.1)
      (fun hready => ih hready hwell.2 hecho)

end Steps

/-- The input of the loop on a statement. -/
def scanInput (backend : SqlBackend) (segments : List Segment) : ScanInput where
  sql := encode (render segments)
  backend := backend
  blockCommentError := "SQL"

lemma ready_initial (backend : SqlBackend) (segments : List Segment) :
    Ready (scanInput backend segments) RewriteState.initial [] (encode (render segments)) where
  position := .start _
  quote_eq := rfl
  sawDollar_eq := rfl
  sawQuestion_eq := rfl

/-- The rewriting does what is intended: it succeeds exactly when the number of
question marks in ordinary text is the expected one, and then yields the
statement with these replaced. -/
def RewritesAsIntended (backend : SqlBackend) (segments : List Segment) (expected : Nat) : Prop :=
  ((∃ out, rewritePositionalSql (encode (render segments)) backend expected = .ok out) ↔
      questionCount segments = expected) ∧
    ∀ out, rewritePositionalSql (encode (render segments)) backend expected = .ok out →
      out = rewritten backend 0 segments

/-- Statements are rewritten as intended when no closing delimiter of a literal
occurs again two bytes later. -/
theorem rewritePositionalSql_segments (backend : SqlBackend) (segments : List Segment)
    (expected : Nat) (hsize : (encode (render segments)).length ≤ maxSqlBytes)
    (hwell : wellFormed segments = true) (hecho : noEcho segments [] = true) :
    RewritesAsIntended backend segments expected := by
  have hstart := ready_initial backend segments
  rw [← append_nil segments] at hwell hstart
  rcases rewrites_segments hstart hwell hecho with ⟨st, hrun, hready, hindex, hout⟩
  rw [append_nil] at hrun hready hout
  have hloop := run_eq_ok (rewriteBody_progress (scanInput backend segments)) hrun
    (hready.position.isDone.trans rfl) (n := (encode (render segments)).length) (by exact Nat.sub_le _ _)
  have hresult : rewritePositionalSql (encode (render segments)) backend expected =
      if st.index ≠ expected then
        .error ("SQL expects " ++ toString st.index ++ " positional parameter(s), received " ++
          toString expected)
      else .ok st.out := by
    have hvalid : validateSqlSize (encode (render segments)) = .ok () := by
      rw [validateSqlSize, if_neg (by omega)]
    simp only [rewritePositionalSql, hvalid, bind, Except.bind]
    rw [show (⟨encode (render segments), backend, "SQL"⟩ : ScanInput) =
      scanInput backend segments from rfl, hloop]
    simp only [hready.quote_eq, hready.sawDollar_eq, hready.sawQuestion_eq]
    by_cases hcount : st.index = expected
    · by_cases hzero : expected = 0
      · simp [hcount, hzero]
      · simp [hcount, hzero, Nat.pos_of_ne_zero hzero]
    · simp [hcount]
  rw [RewritesAsIntended, hresult]
  have hcount : st.index = questionCount segments := by simpa [RewriteState.initial] using hindex
  have hrewritten : st.out = rewritten backend 0 segments := hout
  rw [hcount, hrewritten]
  by_cases hexpected : questionCount segments = expected <;> simp [hexpected]

/-- A literal, then text with a placeholder, a comment and another literal. -/
theorem rewritePositionalSql_segments_mixed : RewritesAsIntended .postgres
      [.plain "a = ".toList, .literal .single "it's ?".toList, .plain " AND b = ?".toList,
        .lineComment " why?".toList, .literal .double [], .blockComment "?".toList,
        .plain "?".toList] 2 :=
  rewritePositionalSql_segments _ _ _ (by decide +kernel) (by decide +kernel) (by decide +kernel)

/-- `'a'?'b'` has one placeholder, but is rejected when one parameter is given. -/
theorem question_between_literals :
    wellFormed [.literal .single ['a'], .plain ['?'], .literal .single ['b']] = true ∧
      ¬ RewritesAsIntended .postgres
        [.literal .single ['a'], .plain ['?'], .literal .single ['b']] 1 := by
  have hrejected : rewritePositionalSql (encode (render
      [.literal .single ['a'], .plain ['?'], .literal .single ['b']])) .postgres 1 =
      .error "SQL expects 0 positional parameter(s), received 1" := by
    decide +kernel
  refine ⟨by decide +kernel, fun h => ?_⟩
  rcases h.1.mpr rfl with ⟨out, hout⟩
  cases hout

end Sql
end MuxRuntime
