import Mathlib
import MuxRuntime.Foundations.AssocList
import MuxRuntime.Foundations.Decimal
import MuxRuntime.Sql.Scanner

/-!
# Placeholder spans

A rewritten statement is described by cutting the source at its placeholders. Both rewriting loops
are shown to cut the whole source, whatever it contains, and to replace the placeholders only.
-/

namespace MuxRuntime
namespace Sql

open List Utf8 Loop Cursor

/-! ## Named placeholders -/

section Named

variable {P : Type}

/-- The state of the loop that rewrites named placeholders. -/
structure NamedState (P : Type) where
  scanner : SqlScanner
  usedNames : List String
  params : List P
  out : List UInt8

/-- The string of ASCII bytes. -/
def asciiString (bytes : List UInt8) : String :=
  String.ofList (bytes.map (fun b => Char.ofNat b.toNat))

def isNameStart (b : UInt8) : Bool :=
  isAsciiAlphabetic b || b == byte '_'

def isNameByte (b : UInt8) : Bool :=
  isAsciiAlphanumeric b || b == byte '_'

/-- Rewrite a named placeholder at the current position, if there is one. The second colon of a
cast does not start one. -/
def consumeNamedPlaceholder (input : ScanInput) (named : List (String × P)) (st : NamedState P) :
    Except String (Option (NamedState P)) :=
  match st.scanner.currentByte input with
  | none => .ok none
  | some b =>
    if b == byte '?' || (b == byte '$' && (st.scanner.nextByte input).any isAsciiDigit) then
      .error "SQL mixes named and positional placeholders"
    else if !(b == byte ':' && (st.scanner.nextByte input).any isNameStart &&
        (st.scanner.index == 0 || input.sql[st.scanner.index - 1]? != some (byte ':'))) then
      .ok none
    else
      let start := st.scanner.index + 1
      let stop := start + 1 + ((input.sql.drop (start + 1)).takeWhile isNameByte).length
      let name := asciiString (slice input.sql start stop)
      match AssocList.lookup named name with
      | none => .error ("missing SQL named parameter: " ++ name)
      | some value =>
        .ok (some
          { scanner := { st.scanner with index := stop }
            usedNames := name :: st.usedNames
            params := st.params ++ [value]
            out := st.out ++ sqlPlaceholder input.backend st.params.length })

/-- One iteration: something opaque, a placeholder, or one character of text. -/
def namedBody (input : ScanInput) (named : List (String × P)) (st : NamedState P) :
    Except String (NamedState P) := do
  match ← st.scanner.consumeOpaque input with
  | some scanner =>
    .ok { st with
          scanner := scanner
          out := st.out ++ slice input.sql st.scanner.index scanner.index }
  | none =>
    match ← consumeNamedPlaceholder input named st with
    | some st => .ok st
    | none =>
      let len ← sqlCharLen input.sql st.scanner.index
      .ok { st with
            scanner := { st.scanner with index := st.scanner.index + len }
            out := st.out ++ slice input.sql st.scanner.index (st.scanner.index + len) }

def NamedState.isDone (input : ScanInput) (st : NamedState P) : Bool :=
  st.scanner.isDone input

def NamedState.initial : NamedState P where
  scanner := { index := 0, quote := none }
  usedNames := []
  params := []
  out := []

/-- The supplied names that no placeholder has, in order. -/
def unusedNames (named : List (String × P)) (usedNames : List String) : List String :=
  ((named.map Prod.fst).filter (fun name => !usedNames.contains name)).insertionSort (· ≤ ·)

/-- Rewrite the named placeholders of a statement for a backend. -/
def rewriteNamedSql (sql : List UInt8) (backend : SqlBackend) (named : List (String × P)) :
    Except String (List UInt8 × List P) := do
  validateSqlSize sql
  let input : ScanInput := { sql := sql, backend := backend, blockCommentError := "SQL" }
  let st ← Loop.run (NamedState.isDone input) (namedBody input named) sql.length
    NamedState.initial
  if st.scanner.quote.isSome then .error "SQL contains an unterminated quoted string"
  else if st.params.isEmpty && !named.isEmpty then .error "SQL has no named placeholders"
  else if !(unusedNames named st.usedNames).isEmpty then
    .error ("SQL has unused named parameter(s): " ++
      String.intercalate ", " (unusedNames named st.usedNames))
  else .ok (st.out, st.params)

end Named

/-! ## Pieces -/

/-- A statement cut at its placeholders. -/
inductive Piece where
  | text (bytes : List UInt8)
  | placeholder (bytes : List UInt8)

def Piece.bytes : Piece → List UInt8
  | text bytes => bytes
  | placeholder bytes => bytes

/-- The statement as it was written. -/
def source (pieces : List Piece) : List UInt8 :=
  pieces.flatMap Piece.bytes

/-- The placeholders as they were written. -/
def placeholders : List Piece → List (List UInt8)
  | [] => []
  | .text _ :: pieces => placeholders pieces
  | .placeholder bytes :: pieces => bytes :: placeholders pieces

/-- The statement with its placeholders replaced, counting from `index`. -/
def replacedFrom (backend : SqlBackend) : Nat → List Piece → List UInt8
  | _, [] => []
  | index, .text bytes :: pieces => bytes ++ replacedFrom backend index pieces
  | index, .placeholder _ :: pieces =>
    sqlPlaceholder backend index ++ replacedFrom backend (index + 1) pieces

lemma source_append (pieces more : List Piece) :
    source (pieces ++ more) = source pieces ++ source more := by
  rw [source, flatMap_append]
  rfl

lemma placeholders_append (pieces more : List Piece) :
    placeholders (pieces ++ more) = placeholders pieces ++ placeholders more := by
  induction pieces with
  | nil => rfl
  | cons piece pieces ih => cases piece <;> simp [placeholders, ih]

lemma replacedFrom_append (backend : SqlBackend) (index : Nat) (pieces more : List Piece) :
    replacedFrom backend index (pieces ++ more) = replacedFrom backend index pieces ++
      replacedFrom backend (index + (placeholders pieces).length) more := by
  induction pieces generalizing index with
  | nil => rfl
  | cons piece pieces ih =>
    cases piece with
    | text bytes => simp [replacedFrom, placeholders, ih]
    | placeholder bytes => simp [replacedFrom, placeholders, ih, Nat.add_assoc, Nat.add_comm 1]

/-- The pieces are what has been consumed, and the output is what they become. -/
structure Cut (input : ScanInput) (index : Nat) (out : List UInt8) (pieces : List Piece) :
    Prop where
  source_eq : source pieces = input.sql.take index
  out_eq : out = replacedFrom input.backend 0 pieces

variable {input : ScanInput} {index stop : Nat} {out : List UInt8} {pieces : List Piece}

lemma Cut.start (input : ScanInput) : Cut input 0 [] [] := ⟨rfl, rfl⟩

lemma Cut.copy (h : Cut input index out pieces) (hle : index ≤ stop) :
    Cut input stop (out ++ slice input.sql index stop)
      (pieces ++ [.text (slice input.sql index stop)]) where
  source_eq := by
    rw [source_append, h.source_eq, ← take_append_slice input.sql hle]
    simp [source, Piece.bytes]
  out_eq := by
    rw [replacedFrom_append, h.out_eq]
    simp [replacedFrom]

lemma Cut.replace (h : Cut input index out pieces) (hle : index ≤ stop) :
    Cut input stop (out ++ sqlPlaceholder input.backend (placeholders pieces).length)
      (pieces ++ [.placeholder (slice input.sql index stop)]) where
  source_eq := by
    rw [source_append, h.source_eq, ← take_append_slice input.sql hle]
    simp [source, Piece.bytes]
  out_eq := by
    rw [replacedFrom_append, h.out_eq]
    simp [replacedFrom]

lemma Cut.source_of_done (h : Cut input index out pieces) (hdone : input.sql.length ≤ index) :
    source pieces = input.sql := by
  rw [h.source_eq, take_of_length_le hdone]

lemma placeholders_text (pieces : List Piece) (bytes : List UInt8) :
    placeholders (pieces ++ [.text bytes]) = placeholders pieces := by
  rw [placeholders_append]
  exact append_nil _

lemma placeholders_placeholder (pieces : List Piece) (bytes : List UInt8) :
    placeholders (pieces ++ [.placeholder bytes]) = placeholders pieces ++ [bytes] :=
  placeholders_append _ _

/-! ## Positional placeholders -/

/-- A placeholder is a question mark, or has its own number. -/
def PositionalAt (k : Nat) (bytes : List UInt8) : Prop :=
  bytes = [byte '?'] ∨
    ∃ digits, bytes = byte '$' :: digits ∧ (∀ b ∈ digits, isAsciiDigit b = true) ∧
      parseUsize digits = some (k + 1)

/-- The pieces that positional rewriting has consumed. -/
structure PositionalCut (input : ScanInput) (st : RewriteState) (pieces : List Piece) : Prop where
  cut : Cut input st.scanner.index st.out pieces
  count : (placeholders pieces).length = st.index
  numbered : ∀ k bytes, (placeholders pieces)[k]? = some bytes → PositionalAt k bytes

lemma PositionalCut.copy {st : RewriteState} (h : PositionalCut input st pieces)
    (scanner : SqlScanner) (hle : st.scanner.index ≤ scanner.index) :
    PositionalCut input
      { st with
        scanner := scanner
        out := st.out ++ slice input.sql st.scanner.index scanner.index }
      (pieces ++ [.text (slice input.sql st.scanner.index scanner.index)]) where
  cut := h.cut.copy hle
  count := by rw [placeholders_text, h.count]
  numbered := by
    rw [placeholders_text]
    exact h.numbered

lemma consumePositionalPlaceholder_cut {st st' : RewriteState}
    (h : consumePositionalPlaceholder input st = .ok (some st'))
    (hcut : PositionalCut input st pieces) : ∃ pieces', PositionalCut input st' pieces' := by
  -- both kinds of placeholder are replaced in the same way
  have hreplace : ∀ stop sawQuestion sawDollar, st.scanner.index ≤ stop →
      PositionalAt st.index (slice input.sql st.scanner.index stop) →
      PositionalCut input
        { scanner := { st.scanner with index := stop }
          index := st.index + 1
          sawQuestion := sawQuestion
          sawDollar := sawDollar
          out := st.out ++ sqlPlaceholder input.backend st.index }
        (pieces ++ [.placeholder (slice input.sql st.scanner.index stop)]) := by
    intro stop sawQuestion sawDollar hle hplace
    refine ⟨?_, ?_, ?_⟩
    · rw [← hcut.count]
      exact hcut.cut.replace hle
    · rw [placeholders_placeholder, length_append, hcut.count]
      rfl
    intro k bytes hk
    rw [placeholders_placeholder] at hk
    by_cases hold : k < (placeholders pieces).length
    · rw [List.getElem?_append_left hold] at hk
      exact hcut.numbered k bytes hk
    rw [List.getElem?_append_right (not_lt.mp hold), List.getElem?_singleton] at hk
    split_ifs at hk with hlast
    cases hk
    have hk : k = st.index := by
      have := hcut.count
      omega
    rw [hk]
    exact hplace
  unfold consumePositionalPlaceholder at h
  split at h
  · cases h
  rename_i b hb
  split_ifs at h with hquestion hmixed hdollar hmixed
  · cases h
    refine ⟨_, hreplace (st.scanner.index + 1) true st.sawDollar (Nat.le_succ _) (.inl ?_)⟩
    rw [slice_cons hb (Nat.lt_succ_self _), beq_iff_eq.mp hquestion, slice, Nat.sub_self, take_zero]
  · dsimp only at h
    split at h
    · cases h
    rename_i number hnumber
    split_ifs at h with hnext
    rw [not_or, not_not] at hnext
    cases h
    refine ⟨_, hreplace _ st.sawQuestion true (by omega)
      (.inr ⟨(input.sql.drop (st.scanner.index + 1)).takeWhile isAsciiDigit, ?_, ?_, ?_⟩)⟩
    · rw [slice_cons hb (by omega), slice_takeWhile,
        beq_iff_eq.mp (Bool.and_eq_true_iff.mp hdollar).1]
    · exact fun b hb => mem_takeWhile_imp hb
    · rw [hnumber, hnext.2]
  · cases h

/-- An iteration of positional rewriting consumes one piece. -/
theorem rewriteBody_cut {st st' : RewriteState} (h : rewriteBody input st = .ok st')
    (hcut : PositionalCut input st pieces) : ∃ pieces', PositionalCut input st' pieces' := by
  rcases bind_eq_ok h with ⟨opaqueEnd, hpassed, h⟩
  split at h
  · cases h
    exact ⟨_, hcut.copy _ (le_of_lt (SqlScanner.consumeOpaque_lt hpassed))⟩
  rcases bind_eq_ok h with ⟨placeholder, hplaceholder, h⟩
  split at h
  · cases h
    exact consumePositionalPlaceholder_cut hplaceholder hcut
  · rcases bind_eq_ok h with ⟨len, -, h⟩
    cases h
    exact ⟨_, hcut.copy { st.scanner with index := st.scanner.index + len }
      (Nat.le_add_right _ _)⟩

/-! ## Names -/

section Names

variable {P : Type} {named : List (String × P)}

lemma isNameByte_lt {b : UInt8} (h : isNameByte b = true) : b.toNat < 128 := by
  by_contra hlarge
  simp only [isNameByte, isAsciiAlphanumeric, isAsciiAlphabetic, isAsciiDigit, Bool.or_eq_true,
    Bool.and_eq_true, decide_eq_true_eq, beq_iff_eq, UInt8.le_iff_toNat_le] at h
  have hbytes : (byte 'z').toNat < 128 ∧ (byte 'Z').toNat < 128 ∧ (byte '9').toNat < 128 ∧
      (byte '_').toNat < 128 := by decide
  rcases h with ((h | h) | h) | rfl <;> omega

lemma ascii_asciiString {bytes : List UInt8} (h : ∀ b ∈ bytes, b.toNat < 128) :
    ascii (asciiString bytes) = bytes := by
  have hall : ∀ n : Fin 128, (Char.ofNat n.val).toNat = n.val := by decide
  have hchar : ∀ b ∈ bytes, (Char.ofNat b.toNat).toNat = b.toNat :=
    fun b hb => hall ⟨b.toNat, h b hb⟩
  rw [ascii, asciiString, String.toList_ofList, encode_eq_map]
  · rw [map_map]
    apply (map_congr_left ?_).trans (map_id bytes)
    intro b hb
    rw [Function.comp_apply, byte, hchar b hb, UInt8.ofNat_toNat, id]
  · intro c hc
    rcases mem_map.mp hc with ⟨b, hb, rfl⟩
    rw [hchar b hb]
    exact h b hb

/-- A placeholder is the name of a supplied parameter, after a colon. -/
def Supplies (named : List (String × P)) (bytes : List UInt8) (value : P) : Prop :=
  ∃ name, bytes = byte ':' :: ascii name ∧ AssocList.lookup named name = some value

/-- The pieces that named rewriting has consumed. -/
structure NamedCut (input : ScanInput) (named : List (String × P)) (st : NamedState P)
    (pieces : List Piece) : Prop where
  cut : Cut input st.scanner.index st.out pieces
  params : List.Forall₂ (Supplies named) (placeholders pieces) st.params
  used : ∀ name ∈ st.usedNames, byte ':' :: ascii name ∈ placeholders pieces

variable {st : NamedState P}

lemma NamedCut.copy (h : NamedCut input named st pieces) (scanner : SqlScanner)
    (hle : st.scanner.index ≤ scanner.index) :
    NamedCut input named
      { st with
        scanner := scanner
        out := st.out ++ slice input.sql st.scanner.index scanner.index }
      (pieces ++ [.text (slice input.sql st.scanner.index scanner.index)]) where
  cut := h.cut.copy hle
  params := by
    rw [placeholders_text]
    exact h.params
  used := by
    rw [placeholders_text]
    exact h.used

lemma NamedCut.replace (h : NamedCut input named st pieces) {stop : Nat} {name : String}
    {value : P} (hle : st.scanner.index ≤ stop)
    (hspan : slice input.sql st.scanner.index stop = byte ':' :: ascii name)
    (hvalue : AssocList.lookup named name = some value) :
    NamedCut input named
      { scanner := { st.scanner with index := stop }
        usedNames := name :: st.usedNames
        params := st.params ++ [value]
        out := st.out ++ sqlPlaceholder input.backend st.params.length }
      (pieces ++ [.placeholder (slice input.sql st.scanner.index stop)]) where
  cut := by
    rw [← h.params.length_eq]
    exact h.cut.replace hle
  params := by
    rw [placeholders_placeholder]
    exact rel_append h.params (.cons ⟨name, hspan, hvalue⟩ .nil)
  used := by
    rw [placeholders_placeholder, hspan, forall_mem_cons]
    refine ⟨mem_append_right _ (mem_singleton_self _), ?_⟩
    intro used hused
    exact mem_append_left _ (h.used used hused)

variable {sql : List UInt8}

/-- The bytes of a name are ASCII, so that the name has these bytes. -/
lemma slice_name {index : Nat} {first : UInt8} (hcolon : sql[index]? = some (byte ':'))
    (hfirst : sql[index + 1]? = some first) (hname : isNameStart first = true) {stop : Nat}
    (hstop : stop = index + 1 + 1 + ((sql.drop (index + 1 + 1)).takeWhile isNameByte).length) :
    slice sql index stop = byte ':' :: ascii (asciiString (slice sql (index + 1) stop)) := by
  have hbytes : ∀ b ∈ slice sql (index + 1) stop, b.toNat < 128 := by
    rw [slice_cons hfirst (by omega), hstop, slice_takeWhile, forall_mem_cons]
    refine ⟨isNameByte_lt ?_, fun b hb => isNameByte_lt (mem_takeWhile_imp hb)⟩
    simp only [isNameStart, isNameByte, isAsciiAlphanumeric, Bool.or_eq_true] at hname ⊢
    tauto
  rw [ascii_asciiString hbytes, slice_cons hcolon (by omega)]

variable {st' : NamedState P}

lemma consumeNamedPlaceholder_cut (h : consumeNamedPlaceholder input named st = .ok (some st'))
    (hcut : NamedCut input named st pieces) : ∃ pieces', NamedCut input named st' pieces' := by
  unfold consumeNamedPlaceholder at h
  split at h
  · cases h
  rename_i b hb
  split_ifs at h with hmixed hnot
  · cases h
  simp only [Bool.not_eq_true', Bool.not_eq_false, Bool.and_eq_true, beq_iff_eq] at hnot
  rcases hnot with ⟨⟨rfl, hstart⟩, -⟩
  rcases (Option.any_eq_true _ _).mp hstart with ⟨first, hfirst, hname⟩
  dsimp only at h
  split at h
  · cases h
  · rename_i value hvalue
    cases h
    exact ⟨_, hcut.replace (by omega) (slice_name hb hfirst hname rfl) hvalue⟩

/-- An iteration of named rewriting consumes one piece. -/
theorem namedBody_cut (h : namedBody input named st = .ok st')
    (hcut : NamedCut input named st pieces) : ∃ pieces', NamedCut input named st' pieces' := by
  rcases bind_eq_ok h with ⟨opaqueEnd, hpassed, h⟩
  split at h
  · cases h
    exact ⟨_, hcut.copy _ (le_of_lt (SqlScanner.consumeOpaque_lt hpassed))⟩
  rcases bind_eq_ok h with ⟨placeholder, hplaceholder, h⟩
  split at h
  · cases h
    exact consumeNamedPlaceholder_cut hplaceholder hcut
  · rcases bind_eq_ok h with ⟨len, -, h⟩
    cases h
    exact ⟨_, hcut.copy { st.scanner with index := st.scanner.index + len }
      (Nat.le_add_right _ _)⟩

lemma consumeNamedPlaceholder_lt (h : consumeNamedPlaceholder input named st = .ok (some st')) :
    st.scanner.index < st'.scanner.index := by
  unfold consumeNamedPlaceholder at h
  split at h
  · cases h
  split_ifs at h
  · cases h
  dsimp only at h
  split at h
  · cases h
  · cases h
    dsimp only
    omega

/-- Every iteration of the loop consumes input. -/
lemma namedBody_progress (input : ScanInput) (named : List (String × P)) :
    Loop.Progress (fun st => input.sql.length - st.scanner.index) (NamedState.isDone input)
      (namedBody input named) := by
  refine scan_progress input fun st st' hbody => ?_
  rcases bind_eq_ok hbody with ⟨opaqueEnd, hpassed, hbody⟩
  split at hbody
  · cases hbody
    exact SqlScanner.consumeOpaque_lt hpassed
  rcases bind_eq_ok hbody with ⟨placeholder, hplaceholder, hbody⟩
  split at hbody
  · cases hbody
    exact consumeNamedPlaceholder_lt hplaceholder
  · rcases bind_eq_ok hbody with ⟨len, hlen, hbody⟩
    cases hbody
    exact Nat.lt_add_of_pos_right (sqlCharLen_pos hlen)

/-! ## Whole statements -/

lemma rewritePositionalSql_cut {backend : SqlBackend} {expected : Nat} {out : List UInt8}
    (h : rewritePositionalSql sql backend expected = .ok out) :
    ∃ pieces, source pieces = sql ∧ out = replacedFrom backend 0 pieces ∧
      (placeholders pieces).length = expected ∧
      ∀ k bytes, (placeholders pieces)[k]? = some bytes → PositionalAt k bytes := by
  rcases bind_eq_ok h with ⟨_, -, h⟩
  rcases bind_eq_ok h with ⟨st, hrun, h⟩
  have hdone := done_of_run (rewriteBody_progress _)
    (fun s hs => decide_eq_true (Nat.le_of_sub_eq_zero hs)) (Nat.sub_le _ _) hrun
  have hinitial : PositionalCut ⟨sql, backend, "SQL"⟩ RewriteState.initial [] :=
    ⟨Cut.start _, rfl, nofun⟩
  rcases run_invariant (P := fun st => ∃ pieces, PositionalCut ⟨sql, backend, "SQL"⟩ st pieces)
    (fun s s' hbody hs => hs.elim fun _ hcut => rewriteBody_cut hbody hcut) hrun ⟨_, hinitial⟩ with
    ⟨pieces, hcut⟩
  split_ifs at h with hquote hcount hnone
  cases h
  refine ⟨pieces, hcut.cut.source_of_done (of_decide_eq_true hdone), hcut.cut.out_eq, ?_,
    hcut.numbered⟩
  rw [hcut.count]
  exact not_not.mp hcount

lemma rewriteNamedSql_cut {backend : SqlBackend} {out : List UInt8} {params : List P}
    (h : rewriteNamedSql sql backend named = .ok (out, params)) :
    ∃ pieces, source pieces = sql ∧ out = replacedFrom backend 0 pieces ∧
      List.Forall₂ (Supplies named) (placeholders pieces) params ∧
      ∀ name ∈ named.map Prod.fst, byte ':' :: ascii name ∈ placeholders pieces := by
  rcases bind_eq_ok h with ⟨_, -, h⟩
  rcases bind_eq_ok h with ⟨st, hrun, h⟩
  have hdone := done_of_run (namedBody_progress _ _)
    (fun s hs => decide_eq_true (Nat.le_of_sub_eq_zero hs)) (Nat.sub_le _ _) hrun
  have hinitial : NamedCut ⟨sql, backend, "SQL"⟩ named NamedState.initial [] :=
    ⟨Cut.start _, .nil, nofun⟩
  rcases run_invariant (P := fun st => ∃ pieces, NamedCut ⟨sql, backend, "SQL"⟩ named st pieces)
    (fun s s' hbody hs => hs.elim fun _ hcut => namedBody_cut hbody hcut) hrun ⟨_, hinitial⟩ with
    ⟨pieces, hcut⟩
  split_ifs at h with hquote hnone hunused
  cases h
  refine ⟨pieces, hcut.cut.source_of_done (of_decide_eq_true hdone), hcut.cut.out_eq, hcut.params, ?_⟩
  intro name hname
  apply hcut.used
  by_contra habsent
  have hmem : name ∈ unusedNames named st.usedNames := by
    rw [unusedNames, (perm_insertionSort _ _).mem_iff, mem_filter]
    exact ⟨hname, by simpa using habsent⟩
  rw [Bool.not_eq_true', Bool.not_eq_false, List.isEmpty_iff] at hunused
  rw [hunused] at hmem
  cases hmem

end Names

/-- A successful rewriting has replaced placeholders in source order by those of the backend,
numbered from one, and has copied everything else. Positional placeholders are as many as
expected; named ones give the values of their names, and every supplied name occurs. -/
theorem rewriting_replaces_spans {P : Type} (sql : List UInt8) (backend : SqlBackend) :
    (∀ expected out, rewritePositionalSql sql backend expected = .ok out →
      ∃ pieces, source pieces = sql ∧ out = replacedFrom backend 0 pieces ∧
        (placeholders pieces).length = expected ∧
        ∀ k bytes, (placeholders pieces)[k]? = some bytes → PositionalAt k bytes) ∧
    ∀ (named : List (String × P)) out params,
      rewriteNamedSql sql backend named = .ok (out, params) →
      ∃ pieces, source pieces = sql ∧ out = replacedFrom backend 0 pieces ∧
        List.Forall₂ (Supplies named) (placeholders pieces) params ∧
        ∀ name ∈ named.map Prod.fst, byte ':' :: ascii name ∈ placeholders pieces :=
  ⟨fun _ _ h => rewritePositionalSql_cut h, fun _ _ _ h => rewriteNamedSql_cut h⟩

/-- One name at two places, after a cast and next to text outside ASCII. -/
theorem name_used_twice : ∃ pieces, source pieces = ascii "é::t = :a, :b < :a" ∧
      ascii "é::t = $1, $2 < $3" = replacedFrom .postgres 0 pieces ∧
      List.Forall₂ (Supplies [("a", 1), ("b", 2)]) (placeholders pieces) [1, 2, 1] := by
  have h : rewriteNamedSql (ascii "é::t = :a, :b < :a") .postgres [("a", 1), ("b", 2)] =
      .ok (ascii "é::t = $1, $2 < $3", [1, 2, 1]) := by decide +kernel
  rcases (rewriting_replaces_spans _ _).2 _ _ _ h with ⟨pieces, hsource, hout, hparams, -⟩
  exact ⟨pieces, hsource, hout, hparams⟩

end Sql
end MuxRuntime
