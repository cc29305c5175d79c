import MuxRuntime.Foundations.Cursor
import MuxRuntime.Foundations.Loop
import MuxRuntime.Foundations.Utf8

/-!
# Scanning SQL text for placeholders

Executable model of the statement scanner and of the rewriting of positional
placeholders. Positions are byte offsets, and a character is recognised by its
leading byte. The loop is bounded by the length of the statement, which
`rewriteBody_progress` shows to be enough.
-/

namespace MuxRuntime
namespace Sql

open Utf8 Loop Cursor

/-- The supported database engines. -/
inductive SqlBackend where
  | sqlite
  | postgres
  | mySql
  | sqlServer
deriving DecidableEq, Repr

/-- The largest statement that is accepted. -/
def maxSqlBytes : Nat :=
  16 * 1024 * 1024

def validateSqlSize (sql : List UInt8) : Except String Unit :=
  if sql.length > maxSqlBytes then .error "SQL statement exceeds the 16 MiB limit"
  else .ok ()

/-- The placeholder of the parameter with this zero-based index. -/
def sqlPlaceholder (backend : SqlBackend) (index : Nat) : List UInt8 :=
  match backend with
  | .postgres => ascii ("$" ++ toString (index + 1))
  | .sqlServer => ascii ("@P" ++ toString (index + 1))
  | .sqlite | .mySql => ascii "?"

/-- Whether a backslash escapes inside a literal opened at `index`. -/
def quoteUsesBackslashEscape (backend : SqlBackend) (sql : List UInt8) (index : Nat)
    (quote : UInt8) : Bool :=
  match backend with
  | .mySql => quote == byte '\x27' || quote == byte '\x22'
  | .postgres =>
    quote == byte '\x27' && decide (0 < index) &&
      (sql[index - 1]? == some (byte 'e') || sql[index - 1]? == some (byte 'E'))
  | .sqlite | .sqlServer => false

/-- Length of the character at a position; fails inside a character and at the end. -/
def sqlCharLen (sql : List UInt8) (index : Nat) : Except String Nat :=
  match sql[index]? with
  | some b =>
    if isContinuation b then .error "SQL scanner reached an invalid UTF-8 boundary"
    else .ok (charLen b)
  | none => .error "SQL scanner reached an invalid UTF-8 boundary"

/-! ## Dollar quotes -/

/-- Offset of the first occurrence of a pattern. -/
def find (pattern : List UInt8) : List UInt8 → Option Nat
  | [] => if pattern.isEmpty then some 0 else none
  | b :: rest =>
    if pattern.isPrefixOf (b :: rest) then some 0
    else (find pattern rest).map (fun offset => offset + 1)

/-- The end of the opening delimiter of a dollar quote at `index`. -/
def dollarDelimiterEnd (sql : List UInt8) (index : Nat) : Option Nat :=
  match sql[index + 1]? with
  | none => none
  | some first =>
    if first == byte '$' then some (index + 2)
    else if !isAsciiAlphabetic first && first != byte '_' then none
    else
      let tag := (sql.drop (index + 2)).takeWhile (fun b => isAsciiAlphanumeric b || b == byte '_')
      let delimiterEnd := index + 2 + tag.length
      if sql[delimiterEnd]? == some (byte '$') then some (delimiterEnd + 1) else none

/-- The end of the dollar-quoted string that starts at `index`, if one does. -/
def dollarQuoteEnd (sql : List UInt8) (index : Nat) : Except String (Option Nat) :=
  if sql[index]? != some (byte '$') then .ok none
  else
    match dollarDelimiterEnd sql index with
    | none => .ok none
    | some bodyStart =>
      let delimiter := slice sql index bodyStart
      match find delimiter (sql.drop bodyStart) with
      | none => .error "SQL contains an unterminated dollar-quoted string"
      | some relativeClose => .ok (some (bodyStart + relativeClose + delimiter.length))

/-! ## The scanner -/

/-- The fixed part of a scan. -/
structure ScanInput where
  sql : List UInt8
  backend : SqlBackend
  blockCommentError : String

/-- Where a scan is, and the literal it is inside of: its delimiter, and whether
a backslash escapes in it. -/
structure SqlScanner where
  index : Nat
  quote : Option (UInt8 × Bool)
deriving DecidableEq, Repr

namespace SqlScanner

variable (input : ScanInput)

def currentByte (s : SqlScanner) : Option UInt8 :=
  input.sql[s.index]?

def nextByte (s : SqlScanner) : Option UInt8 :=
  input.sql[s.index + 1]?

def isDone (s : SqlScanner) : Bool :=
  input.sql.length ≤ s.index

/-- Consume one character of a literal. The lookahead for a doubled delimiter
is made after the delimiter itself has been consumed. -/
def consumeQuoted (s : SqlScanner) : Except String SqlScanner :=
  match s.quote, s.currentByte input with
  | some (delimiter, backslashEscape), some b => do
    let len ← sqlCharLen input.sql s.index
    let s := { s with index := s.index + len }
    if backslashEscape && b == byte '\\' then
      if !s.isDone input then
        let escaped ← sqlCharLen input.sql s.index
        .ok { s with index := s.index + escaped }
      else .ok s
    else if b == delimiter then
      if s.nextByte input == some delimiter then .ok { s with index := s.index + 1 }
      else .ok { s with quote := none }
    else .ok s
  | _, _ => .error "SQL scanner lost its active quote state"

/-- Skip a line comment up to its newline, which stays. -/
def consumeLineComment (s : SqlScanner) : SqlScanner :=
  let start := s.index + 2
  { s with index := start + ((input.sql.drop start).takeWhile (fun b => b != byte '\n')).length }

/-- Length of a block comment's text with its terminator. -/
def blockCommentLength : List UInt8 → Option Nat
  | a :: b :: rest =>
    if a == byte '*' && b == byte '/' then some 2
    else (blockCommentLength (b :: rest)).map (fun n => n + 1)
  | _ => none

def consumeBlockComment (s : SqlScanner) : Except String SqlScanner :=
  match blockCommentLength (input.sql.drop (s.index + 2)) with
  | some n => .ok { s with index := s.index + 2 + n }
  | none => .error (input.blockCommentError ++ " contains an unterminated block comment")

/-- Consume what is copied without interpretation: a step inside a literal, the
opening of a literal, a comment or a dollar-quoted string. `none` means that
the scanner is at ordinary text. -/
def consumeOpaque (s : SqlScanner) : Except String (Option SqlScanner) :=
  if s.quote.isSome then do
    let s ← s.consumeQuoted input
    .ok (some s)
  else
    match s.currentByte input with
    | none => .ok none
    | some b =>
      if b == byte '\x27' || b == byte '\x22' || b == byte '\x60' then
        .ok (some { index := s.index + 1
                    quote := some (b, quoteUsesBackslashEscape input.backend input.sql s.index b) })
      else if b == byte '-' && s.nextByte input == some (byte '-') then
        .ok (some (s.consumeLineComment input))
      else if b == byte '/' && s.nextByte input == some (byte '*') then do
        let s ← s.consumeBlockComment input
        .ok (some s)
      else if b == byte '$' then do
        match ← dollarQuoteEnd input.sql s.index with
        | some stop => .ok (some { s with index := stop })
        | none => .ok none
      else .ok none

end SqlScanner

/-! ## Positional placeholders -/

/-- The state of the rewriting loop. -/
structure RewriteState where
  scanner : SqlScanner
  index : Nat
  sawQuestion : Bool
  sawDollar : Bool
  out : List UInt8
deriving DecidableEq, Repr

/-- The value of a run of digits, if it fits a machine word. -/
def parseUsize (digits : List UInt8) : Option Nat :=
  let value := digits.foldl (fun n b => n * 10 + (b.toNat - 48)) 0
  if value < 2 ^ 64 then some value else none

/-- Rewrite a placeholder at the current position, if there is one. -/
def consumePositionalPlaceholder (input : ScanInput) (st : RewriteState) :
    Except String (Option RewriteState) :=
  match st.scanner.currentByte input with
  | none => .ok none
  | some b =>
    if b == byte '?' then
      if st.sawDollar then .error "SQL mixes ? and $n placeholders"
      else
        .ok (some { st with
            sawQuestion := true
            out := st.out ++ sqlPlaceholder input.backend st.index
            index := st.index + 1
            scanner := { st.scanner with index := st.scanner.index + 1 } })
    else if b == byte '$' && (st.scanner.nextByte input).any isAsciiDigit then
      if st.sawQuestion then .error "SQL mixes ? and $n placeholders"
      else
        let start := st.scanner.index + 1
        let digits := (input.sql.drop start).takeWhile isAsciiDigit
        match parseUsize digits with
        | none => .error "SQL placeholder number is invalid"
        | some number =>
          if number = 0 ∨ number ≠ st.index + 1 then
            .error "SQL $n placeholders must be contiguous starting at $1"
          else
            .ok (some { st with
                sawDollar := true
                out := st.out ++ sqlPlaceholder input.backend st.index
                index := st.index + 1
                scanner := { st.scanner with index := start + digits.length } })
    else .ok none

/-- One iteration: something opaque, a placeholder, or one character of text. -/
def rewriteBody (input : ScanInput) (st : RewriteState) : Except String RewriteState := do
  match ← st.scanner.consumeOpaque input with
  | some scanner =>
    .ok { st with
          scanner := scanner
          out := st.out ++ slice input.sql st.scanner.index scanner.index }
  | none =>
    match ← consumePositionalPlaceholder input st with
    | some st => .ok st
    | none =>
      let len ← sqlCharLen input.sql st.scanner.index
      .ok { st with
            scanner := { st.scanner with index := st.scanner.index + len }
            out := st.out ++ slice input.sql st.scanner.index (st.scanner.index + len) }

def RewriteState.isDone (input : ScanInput) (st : RewriteState) : Bool :=
  st.scanner.isDone input

/-- The state before the first iteration. -/
def RewriteState.initial : RewriteState where
  scanner := { index := 0, quote := none }
  index := 0
  sawQuestion := false
  sawDollar := false
  out := []

/-- Rewrite the positional placeholders of a statement for a backend. -/
def rewritePositionalSql (sql : List UInt8) (backend : SqlBackend) (expected : Nat) :
    Except String (List UInt8) := do
  validateSqlSize sql
  let input : ScanInput := { sql := sql, backend := backend, blockCommentError := "SQL" }
  let st ← Loop.run (RewriteState.isDone input) (rewriteBody input) sql.length
    RewriteState.initial
  if st.scanner.quote.isSome then .error "SQL contains an unterminated quoted string"
  else if st.index ≠ expected then
    .error ("SQL expects " ++ toString st.index ++ " positional parameter(s), received " ++
      toString expected)
  else if !st.sawQuestion && !st.sawDollar && decide (expected ≠ 0) then
    .error "SQL has no positional placeholders"
  else .ok st.out

/-! ## Progress -/

lemma sqlCharLen_pos {sql : List UInt8} {index len : Nat} (h : sqlCharLen sql index = .ok len) :
    0 < len := by
  unfold sqlCharLen at h
  split at h
  · split at h
    · cases h
    · cases h
      exact charLen_pos _
  · cases h

lemma dollarQuoteEnd_lt {sql : List UInt8} {index stop : Nat}
    (h : dollarQuoteEnd sql index = .ok (some stop)) : index < stop := by
  unfold dollarQuoteEnd at h
  split at h
  · simp at h
  split at h
  · simp at h
  rename_i bodyStart hbody
  have hstart : index < bodyStart := by
    unfold dollarDelimiterEnd at hbody
    split at hbody
    · simp at hbody
    · split_ifs at hbody <;> simp at hbody <;> omega
  simp only at h
  split at h
  · simp at h
  · simp at h
    omega

namespace SqlScanner

variable {input : ScanInput} {s s' : SqlScanner}

lemma consumeQuoted_lt (h : s.consumeQuoted input = .ok s') : s.index < s'.index := by
  unfold consumeQuoted at h
  split at h
  · rcases bind_eq_ok h with ⟨len, hlen, h⟩
    have := sqlCharLen_pos hlen
    dsimp only at h
    split_ifs at h
    · rcases bind_eq_ok h with ⟨escaped, -, h⟩
      cases h
      simp only
      omega
    all_goals
      cases h
      simp only
      omega
  · cases h

lemma consumeOpaque_lt (h : s.consumeOpaque input = .ok (some s')) : s.index < s'.index := by
  unfold consumeOpaque at h
  split at h
  · rcases bind_eq_ok h with ⟨next, hnext, h⟩
    cases h
    exact consumeQuoted_lt hnext
  split at h
  · cases h
  split_ifs at h
  · cases h
    simp
  · cases h
    simp only [consumeLineComment]
    omega
  · rcases bind_eq_ok h with ⟨next, hnext, h⟩
    cases h
    unfold consumeBlockComment at hnext
    split at hnext
    · cases hnext
      simp only
      omega
    · cases hnext
  · rcases bind_eq_ok h with ⟨stop, hstop, h⟩
    split at h
    · cases h
      exact dollarQuoteEnd_lt hstop
    · cases h
  · cases h

end SqlScanner

lemma consumePositionalPlaceholder_lt {input : ScanInput} {st st' : RewriteState}
    (h : consumePositionalPlaceholder input st = .ok (some st')) :
    st.scanner.index < st'.scanner.index := by
  unfold consumePositionalPlaceholder at h
  split at h
  · cases h
  split_ifs at h
  · cases h
    simp
  · simp only at h
    split at h
    · cases h
    split_ifs at h
    cases h
    simp only
    omega
  · cases h

/-- A loop whose iterations move its scanner on consumes the input. -/
lemma scan_progress {σ : Type} {scanner : σ → SqlScanner} {body : σ → Except String σ}
    (input : ScanInput)
    (hlt : ∀ st st', body st = .ok st' → (scanner st).index < (scanner st').index) :
    Loop.Progress (fun st => input.sql.length - (scanner st).index)
      (fun st => (scanner st).isDone input) body := by
  intro st st' hdone hbody
  have hmoved := hlt st st' hbody
  have hleft : (scanner st).index < input.sql.length := by simpa [SqlScanner.isDone] using hdone
  show input.sql.length - (scanner st').index < input.sql.length - (scanner st).index
  omega

theorem rewriteBody_progress (input : ScanInput) :
    Loop.Progress (fun st => input.sql.length - st.scanner.index) (RewriteState.isDone input)
      (rewriteBody input) := by
  refine scan_progress input fun st st' hbody => ?_
  rcases bind_eq_ok hbody with ⟨opaqueEnd, hpassed, hbody⟩
  split at hbody
  · cases hbody
    exact SqlScanner.consumeOpaque_lt hpassed
  rcases bind_eq_ok hbody with ⟨placeholder, hplaceholder, hbody⟩
  split at hbody
  · cases hbody
    exact consumePositionalPlaceholder_lt hplaceholder
  · rcases bind_eq_ok hbody with ⟨len, hlen, hbody⟩
    cases hbody
    exact Nat.lt_add_of_pos_right (sqlCharLen_pos hlen)

end Sql
end MuxRuntime
