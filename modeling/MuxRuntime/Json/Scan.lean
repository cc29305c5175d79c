import Mathlib
import MuxRuntime.Json.Parse

/-!
# Scanning texts of the grammar

Both scans of the input, the one for number tokens and the one for the token
budget, agree with the grammar on every text of the grammar.
-/

namespace MuxRuntime

open List Utf8 Loop Cursor JsonGrammar

/-! ## Number tokens -/

variable {b : UInt8}

section Scanning

variable {bytes pre rest : List UInt8} {index : Nat}

lemma scanAsciiDigits_at {ds : List UInt8} (h : At bytes index pre (ds ++ rest))
    (hds : ∀ b ∈ ds, isAsciiDigit b = true) (hrest : Next (fun b => !isAsciiDigit b) rest) :
    scanAsciiDigits bytes index = index + ds.length := by
  have hstop : rest.takeWhile isAsciiDigit = [] := by
    cases rest with
    | nil => rfl
    | cons b rest =>
      have hb : isAsciiDigit b = false := by simpa using hrest b rfl
      simp [hb]
  rw [scanAsciiDigits, h.drop_index, takeWhile_append_of_pos hds, hstop, append_nil]

lemma scanJsonInteger_at {sign int : List UInt8} (hsign : sign = [] ∨ sign = [byte '-'])
    (hint : IntegerPart int) (h : At bytes index pre (sign ++ (int ++ rest)))
    (hrest : Next (fun b => !isAsciiDigit b) rest) :
    scanJsonInteger bytes index = index + (sign ++ int).length := by
  -- after the sign the integer part is read
  have hpart : ∀ index pre, At bytes index pre (int ++ rest) →
      (if bytes[index]? == some (byte '0') then index + 1 else scanAsciiDigits bytes index) =
        index + int.length := by
    intro index pre h
    cases hint with
    | zero => simp [h.head]
    | digits hd hnonzero hds =>
      have hall : ∀ b ∈ _ :: _, isAsciiDigit b = true := forall_mem_cons.mpr ⟨hd, hds⟩
      rw [scanAsciiDigits_at h hall hrest]
      simp [h.head, hnonzero]
  rcases hsign with rfl | rfl
  · have hminus : bytes[index]? ≠ some (byte '-') := by
      rw [h.head]
      cases hint with
      | zero => simp [show byte '0' ≠ byte '-' by decide]
      | @digits d ds hd _ _ =>
        have : d ≠ byte '-' := by
          rintro rfl
          exact absurd hd (by decide)
        simpa using this
    simp only [scanJsonInteger, beq_eq_false_iff_ne.mpr hminus, Bool.false_eq_true, if_false,
      nil_append]
    exact hpart index pre h
  · have hminus : bytes[index]? = some (byte '-') := by
      rw [h.head]
      rfl
    have hnext := hpart _ _ (h.advance [byte '-'])
    simp only [scanJsonInteger, hminus, BEq.rfl, if_true, length_append]
    rw [length_singleton] at hnext
    rw [hnext, length_singleton, Nat.add_assoc]

lemma scanJsonFraction_at {frac : List UInt8} (hfrac : FractionPart frac)
    (h : At bytes index pre (frac ++ rest))
    (hrest : Next (fun b => !isAsciiDigit b && b != byte '.') rest) :
    scanJsonFraction bytes index = index + frac.length := by
  cases hfrac with
  | none =>
    have hdot : bytes[index]? ≠ some (byte '.') := by
      rw [h.head]
      rcases rest with _ | ⟨b, rest⟩
      · simp
      have := hrest b rfl
      simp only [Bool.and_eq_true, bne_iff_ne] at this
      simpa using this.2
    simp [scanJsonFraction, hdot]
  | @digits d ds hds => ?_
  have hdot : bytes[index]? = some (byte '.') := by
    rw [h.head]
    rfl
  have hdigits := scanAsciiDigits_at (h.advance [byte '.']) hds
    (hrest.mono (fun b hb => (Bool.and_eq_true _ _ ▸ hb).1))
  rw [length_singleton] at hdigits
  simp only [scanJsonFraction, hdot, bne_self_eq_false, Bool.false_eq_true, if_false, hdigits,
    length_cons]
  rw [if_neg (by omega)]
  omega

lemma scanJsonExponent_at {exp : List UInt8} (hexp : ExponentPart exp)
    (h : At bytes index pre (exp ++ rest)) (hrest : Next (fun b => !isNumberByte b) rest) :
    scanJsonExponent bytes index = index + exp.length := by
  cases hexp with
  | none =>
    have hmark : bytes[index]?.any (fun b => b == byte 'e' || b == byte 'E') = false := by
      rw [h.head]
      rcases rest with _ | ⟨b, rest⟩
      · rfl
      have := hrest b rfl
      simp only [isNumberByte, Bool.not_eq_true', Bool.or_eq_false_iff] at this
      simp [this]
    simp [scanJsonExponent, hmark]
  | @digits e d sign ds he hsign hds => ?_
  have hmark : bytes[index]?.any (fun b => b == byte 'e' || b == byte 'E') = true := by
    rw [h.head]
    rcases he with rfl | rfl <;> rfl
  have hstop : Next (fun b => !isAsciiDigit b) rest := by
    refine hrest.mono (fun b hb => ?_)
    simp only [isNumberByte, Bool.not_eq_true', Bool.or_eq_false_iff] at hb
    simp [hb]
  have hafter := h.advance [e]
  have hsigned : (if bytes[index + 1]?.any (fun b => b == byte '+' || b == byte '-') then
      index + 2 else index + 1) = index + 1 + sign.length := by
    have hnext := h.getElem? 1
    rcases hsign with rfl | rfl | rfl
    · have hd : isAsciiDigit d = true := hds d (by simp)
      have hplus : d ≠ byte '+' := by
        rintro rfl
        exact absurd hd (by decide)
      have hminus : d ≠ byte '-' := by
        rintro rfl
        exact absurd hd (by decide)
      simp [hnext, hplus, hminus]
    · simp [hnext]
    · simp [hnext]
  have hdigits := scanAsciiDigits_at
    (At.advance sign (by simpa using hafter : At bytes (index + 1) (pre ++ [e])
      (sign ++ (d :: ds ++ rest)))) hds hstop
  simp only [scanJsonExponent, hmark, Bool.not_true, Bool.false_eq_true, if_false, hsigned,
    hdigits, length_cons, length_append]
  rw [if_neg (by omega)]
  omega

lemma next_exponent {exp : List UInt8} (hexp : ExponentPart exp)
    (hrest : Next (fun b => !isNumberByte b) rest) :
    Next (fun b => !isAsciiDigit b && b != byte '.') (exp ++ rest) := by
  cases hexp with
  | none =>
    refine hrest.mono (fun b hb => ?_)
    simp only [isNumberByte, Bool.not_eq_true', Bool.or_eq_false_iff] at hb
    simp only [hb.1.1.1.1.1, Bool.not_false, Bool.true_and, bne_iff_ne]
    simpa using hb.2
  | digits he _ _ => rcases he with rfl | rfl <;> exact next_cons (by decide)

lemma next_fraction {frac : List UInt8} (hfrac : FractionPart frac)
    (hrest : Next (fun b => !isAsciiDigit b && b != byte '.') rest) :
    Next (fun b => !isAsciiDigit b) (frac ++ rest) := by
  cases hfrac with
  | none => exact hrest.mono (fun b hb => (Bool.and_eq_true _ _ ▸ hb).1)
  | digits _ => exact next_cons (by decide)

/-- A number token is scanned to its end. -/
lemma scanJsonNumber_at {token : List UInt8} (htoken : NumberToken token)
    (h : At bytes index pre (token ++ rest)) (hrest : Next (fun b => !isNumberByte b) rest) :
    scanJsonNumber bytes index = index + token.length := by
  rcases htoken.parts with ⟨sign, int, frac, exp, hsign, hint, hfrac, hexp, rfl⟩
  have hafterFrac := next_exponent hexp hrest
  have hafterInt := next_fraction hfrac hafterFrac
  simp only [append_assoc] at h
  have hint' := (h.advance sign).advance int
  rw [Nat.add_assoc, ← length_append] at hint'
  rw [scanJsonNumber, scanJsonInteger_at hsign hint h hafterInt,
    scanJsonFraction_at hfrac hint' hafterFrac, scanJsonExponent_at hexp (hint'.advance frac) hrest]
  simp only [length_append]
  omega

lemma stringTail_cons {rest : List UInt8} (hquote : b ≠ byte '\x22') (hback : b ≠ byte '\\') :
    stringTail (b :: rest) = stringTail rest + 1 := by
  cases rest with
  | nil => simp [stringTail, hback]
  | cons c rest => simp [stringTail, hquote, hback]

lemma stringTail_escape : stringTail (byte '\\' :: b :: rest) = stringTail rest + 2 := by
  simp [stringTail]

lemma stringTail_quote : stringTail (byte '\x22' :: rest) = 1 := by cases rest <;> rfl

/-- A string is skipped to its end. -/
lemma stringTail_body {body : List UInt8} (h : Quoted body) :
    stringTail (body ++ byte '\x22' :: rest) = body.length + 1 := by
  induction h with
  | nil => exact stringTail_quote
  | plain hquote hback _ ih => rw [cons_append, stringTail_cons hquote hback, ih, length_cons]
  | escape _ ih => rw [cons_append, cons_append, stringTail_escape, ih, length_cons, length_cons]

end Scanning

/-! ## The scan for numbers -/

variable {unescape : List UInt8 → Option String} {bytes : List UInt8}

/-- A byte that starts neither a string nor a number is passed over. -/
def isInert (b : UInt8) : Bool :=
  b != byte '\x22' && b != byte '-' && !isAsciiDigit b

lemma isInert_of_isBlank (h : isBlank b = true) : isInert b = true := by
  simp only [isBlank, Bool.or_eq_true, beq_iff_eq] at h
  rcases h with ((rfl | rfl) | rfl) | rfl <;> decide

lemma isInert_of_isPunctuation (h : isPunctuation b = true) : isInert b = true := by
  simp only [isPunctuation, Bool.or_eq_true, beq_iff_eq] at h
  rcases h with ((((rfl | rfl) | rfl) | rfl) | rfl) | rfl <;> decide

/-- The scan stands in the rest of a literal, with tokens ahead that complete the numbers. -/
def NumberScan.Ahead (unescape : List UInt8 → Option String) (bytes : List UInt8)
    (numbers : List (List UInt8)) (st : NumberScan) : Prop :=
  ∃ pre u rest ls, At bytes st.index pre (u ++ rest) ∧ (∀ b ∈ u, isInert b = true) ∧
    Lexed unescape rest ls ∧ st.numbers ++ numberTexts ls = numbers

lemma numberScanBody_ahead {numbers : List (List UInt8)} {st : NumberScan}
    (h : st.Ahead unescape bytes numbers) (hdone : st.isDone bytes = false) :
    ∃ st', numberScanBody bytes st = .ok st' ∧ st'.Ahead unescape bytes numbers ∧
      st.index < st'.index := by
  rcases h with ⟨pre, u, rest, ls, hat, hu, hlex, rfl⟩
  -- one byte of a literal, of whitespace or a punctuation mark
  have hpass : ∀ b u rest ls', At bytes st.index pre (b :: (u ++ rest)) → isInert b = true →
      (∀ c ∈ u, isInert c = true) → Lexed unescape rest ls' → numberTexts ls' = numberTexts ls →
      ∃ st', numberScanBody bytes st = .ok st' ∧
        st'.Ahead unescape bytes (st.numbers ++ numberTexts ls) ∧ st.index < st'.index := by
    intro b u rest ls' hat hb hu hlex hsame
    simp only [isInert, Bool.and_eq_true, bne_iff_ne, Bool.not_eq_true'] at hb
    have hcur : bytes[st.index]? = some b := hat.head
    exact ⟨{ st with index := st.index + 1 }, by simp [numberScanBody, hcur, hb],
      ⟨_, u, rest, ls', hat.advance [b], hu, hlex, by rw [hsame]⟩, Nat.lt_succ_self _⟩
  cases u with
  | cons b u =>
    exact hpass b u rest ls hat (hu b (by simp)) (fun c hc => hu c (by simp [hc])) hlex rfl
  | nil => ?_
  cases hlex with
  | nil => simp [NumberScan.isDone, hat.length_le_iff] at hdone
  | blank hb h => exact hpass _ [] _ _ hat (isInert_of_isBlank hb) nofun h rfl
  | @cons l t rest ls hl hnext h => ?_
  cases hl with
  | mark hb => exact hpass _ [] _ _ hat (isInert_of_isPunctuation hb) nofun h rfl
  | null => exact hpass _ (ascii "ull") _ _ hat rfl (all_eq_true.mp rfl) h rfl
  | litTrue => exact hpass _ (ascii "rue") _ _ hat rfl (all_eq_true.mp rfl) h rfl
  | litFalse => exact hpass _ (ascii "alse") _ _ hat rfl (all_eq_true.mp rfl) h rfl
  | number htoken =>
    have hstop := scanJsonNumber_at htoken hat
      ((hnext rfl).mono (fun _ => isNumberByte_of_isDelimiter))
    rcases numberToken_start htoken with ⟨b, t, rfl, hstart⟩
    have hcur : bytes[st.index]? = some b := hat.head
    have hquote : b ≠ byte '\x22' := by
      rintro rfl
      exact absurd hstart (by decide)
    refine ⟨⟨st.index + (b :: t).length, st.numbers ++ [b :: t]⟩, ?_,
      ⟨_, [], rest, ls, hat.advance (b :: t), nofun, h, append_assoc ..⟩, by simp⟩
    simp only [numberScanBody, hcur, beq_eq_false_iff_ne.mpr hquote, Bool.false_eq_true,
      if_false, hstart, if_true, hstop]
    rw [hat.slice, nil_append, take_left]
  | string hs => ?_
  rcases hs.body with ⟨body, hbody, -, rfl⟩
  have hcur : bytes[st.index]? = some (byte '\x22') := hat.head
  have hdrop : bytes.drop (st.index + 1) = body ++ byte '\x22' :: rest := by
    rw [hat.drop 1]
    simp
  have hskip : skipJsonString bytes st.index =
      st.index + (byte '\x22' :: (body ++ [byte '\x22'])).length := by
    rw [skipJsonString, hdrop, stringTail_body hbody.quoted]
    simp
    omega
  exact ⟨⟨st.index + (byte '\x22' :: (body ++ [byte '\x22'])).length, st.numbers⟩,
    by simp [numberScanBody, hcur, hskip],
    ⟨_, [], rest, ls, hat.advance (byte '\x22' :: (body ++ [byte '\x22'])), nofun, h, rfl⟩,
    by simp⟩

variable {text : List UInt8}

/-- The scan finds the number tokens of the document. -/
theorem scanJsonNumbers_text {d : Doc} (h : Document unescape d text) :
    scanJsonNumbers text = .ok d.numbers := by
  rcases h.lexed with ⟨ls, hlex, hnumbers, -⟩
  have hrun := run_scan (NumberScan.isDone text) (numberScanBody text)
    (P := NumberScan.Ahead unescape text d.numbers) (Q := fun _ => False) (s := ⟨0, []⟩)
    (fun _ => rfl) (fun _ h hdone => .inl (numberScanBody_ahead h hdone))
    ⟨[], [], text, ls, .start text, nofun, hlex, hnumbers⟩ (n := text.length) (Nat.le_add_left _ _)
  rcases hrun with ⟨st, hrun, ⟨pre, u, rest, ls, hat, -, hlex, hall⟩, hend⟩ | ⟨_, -, hfalse⟩
  · rw [hat.length_le_iff, append_eq_nil_iff] at hend
    rw [hend.2] at hlex
    rw [hlex.eq_nil] at hall
    rw [scanJsonNumbers, hrun, ← hall]
    simp [numberTexts, bind, Except.bind]
  · exact hfalse.elim

/-! ## The scan for tokens -/

lemma stringTokenTail_body {body rest : List UInt8} (h : Quoted body) :
    stringTokenTail false (body ++ byte '\x22' :: rest) = body.length + 1 := by
  induction h with
  | nil => rfl
  | plain hquote hback _ ih => simp [stringTokenTail, hquote, hback, ih]
  | escape _ ih => simp [stringTokenTail, ih]

/-- A token is passed over as a whole. -/
lemma tokenLength_lexeme {l : Lexeme} {t rest : List UInt8} (hl : LexemeText unescape l t)
    (hnext : l = .number → Next isDelimiter rest) : tokenLength (t ++ rest) = t.length := by
  cases hl with
  | mark hb =>
    simp only [isPunctuation, Bool.or_eq_true, beq_iff_eq] at hb
    rcases hb with ((((rfl | rfl) | rfl) | rfl) | rfl) | rfl <;> rfl
  | null | litTrue | litFalse => rfl
  | number h =>
    rcases numberToken_start h with ⟨b, t, rfl, hstart⟩
    have hquote : b ≠ byte '\x22' := by
      rintro rfl
      exact absurd hstart (by decide)
    have hrun := numberToken_run h (hnext rfl)
    simp [tokenLength, hquote, hstart, hrun]
  | string h =>
    rcases h.body with ⟨body, hbody, -, rfl⟩
    simp [tokenLength, stringTokenTail_body hbody.quoted]

/-- Tokens are ahead that complete the count. -/
def TokenScan.Ahead (unescape : List UInt8 → Option String) (bytes : List UInt8) (total : Nat)
    (st : TokenScan) : Prop :=
  ∃ pre rest ls, At bytes st.index pre rest ∧ Lexed unescape rest ls ∧
    st.count + ls.length = total ∧ st.count ≤ maxJsonTokens

lemma tokenScanBody_ahead {total : Nat} {st : TokenScan} (h : st.Ahead unescape bytes total)
    (hdone : st.isDone bytes = false) :
    (∃ st', tokenScanBody bytes st = .ok st' ∧ st'.Ahead unescape bytes total ∧
      st.index < st'.index) ∨
      ∃ e, tokenScanBody bytes st = .error e ∧ e = .tooManyTokens ∧ maxJsonTokens < total := by
  rcases h with ⟨pre, rest, ls, hat, hlex, hcount, hbudget⟩
  have hlt : st.index < bytes.length := by simpa [TokenScan.isDone] using hdone
  rcases hlex.skip hat with ⟨stop, hstop, ⟨rfl, rfl⟩ |
    ⟨hmore, l, t, rest', ls', pre', rfl, hdrop, hpos, hat', hl, hnext, hlex'⟩⟩
  · exact .inl ⟨{ st with index := bytes.length }, by simp [tokenScanBody, hstop],
      ⟨bytes, [], [], ⟨by simp, rfl⟩, .nil, hcount, hbudget⟩, hlt⟩
  rw [length_cons] at hcount
  by_cases hfull : maxJsonTokens ≤ st.count
  · exact .inr ⟨_, by simp [tokenScanBody, hstop, hmore, hfull], rfl, by omega⟩
  · have hrest : st.count + 1 + ls'.length = total ∧ st.count + 1 ≤ maxJsonTokens := by omega
    refine .inl ⟨⟨stop + t.length, st.count + 1⟩, ?_, ⟨pre', rest', ls', hat', hlex', hrest⟩, ?_⟩
    · simp [tokenScanBody, hstop, hmore, hfull, hdrop, tokenLength_lexeme hl hnext]
    · exact lt_of_le_of_lt (hstop ▸ Nat.le_add_right _ _) hpos

/-- On a text of the grammar the scan counts the tokens, within the budget. -/
lemma tokenScan_text {d : Doc} (h : Document unescape d text) :
    (∃ st, run (TokenScan.isDone text) (tokenScanBody text) text.length ⟨0, 0⟩ = .ok st ∧
      st.count = d.tokenCount ∧ d.tokenCount ≤ maxJsonTokens) ∨
      run (TokenScan.isDone text) (tokenScanBody text) text.length ⟨0, 0⟩ = .error .tooManyTokens ∧
        maxJsonTokens < d.tokenCount := by
  rcases h.lexed with ⟨ls, hlex, -, hcount⟩
  have hrun := run_scan (TokenScan.isDone text) (tokenScanBody text)
    (P := TokenScan.Ahead unescape text d.tokenCount) (s := ⟨0, 0⟩) (fun _ => rfl)
    (fun _ => tokenScanBody_ahead)
    ⟨[], text, ls, .start text, hlex, (Nat.zero_add _).trans hcount, Nat.zero_le _⟩
    (n := text.length) (Nat.le_add_left _ _)
  rcases hrun with ⟨st, hrun, ⟨pre, rest, ls, hat, hlex, hall, hbudget⟩, hend⟩ |
    ⟨e, hrun, rfl, hmore⟩
  · obtain rfl := hat.length_le_iff.mp hend
    rw [hlex.eq_nil, length_nil, Nat.add_zero] at hall
    exact .inl ⟨st, hrun, hall, hall ▸ hbudget⟩
  · exact .inr ⟨hrun, hmore⟩

/-- The check fails only because of the budget. -/
lemma enforceJsonTokenLimit_error {d : Doc} {e : JsonError} (h : Document unescape d text)
    (hfailed : enforceJsonTokenLimit text = .error e) : e = .tooManyTokens := by
  rcases tokenScan_text h with ⟨st, hrun, -⟩ | ⟨hrun, -⟩
  · rw [enforceJsonTokenLimit, hrun] at hfailed
    cases hfailed
  · rw [enforceJsonTokenLimit, hrun] at hfailed
    cases hfailed
    rfl

/-- A document within the token budget passes the check. -/
theorem enforceJsonTokenLimit_text {d : Doc} (h : Document unescape d text)
    (hbudget : d.tokenCount ≤ maxJsonTokens) : enforceJsonTokenLimit text = .ok () := by
  rcases tokenScan_text h with ⟨st, hrun, -⟩ | ⟨-, hmore⟩
  · rw [enforceJsonTokenLimit, hrun]
    rfl
  · omega

end MuxRuntime
