import MuxRuntime.Json.Numbers

/-!
# The token stream

The token reader parses the whole text once and then cuts it into tokens with a
scanner of its own. On an accepted text this scanner, the one for numbers and the
one for the budget see the same tokens.
-/

namespace MuxRuntime

open List Utf8 Loop Cursor JsonGrammar

variable {F : Type}

/-! ## The reader -/

inductive JsonTokenKind where
  | startObject
  | endObject
  | startArray
  | endArray
  | colon
  | comma
  | string
  | number
  | bool
  | null
deriving DecidableEq

inductive JsonTokenValue where
  | string (value : String)
  | number (raw : List UInt8)
  | bool (value : Bool)
  | null
deriving DecidableEq

structure JsonTokenEntry where
  kind : JsonTokenKind
  text : List UInt8
  value : Option JsonTokenValue
deriving DecidableEq

/-- A token of one byte. -/
def markToken (b : UInt8) : Option JsonTokenKind :=
  if b == byte '\x7b' then some .startObject
  else if b == byte '\x7d' then some .endObject
  else if b == byte '[' then some .startArray
  else if b == byte ']' then some .endArray
  else if b == byte ':' then some .colon
  else if b == byte ',' then some .comma
  else none

section Library

variable (S : Serde F) (stringFromStr : List UInt8 → Except String String)

/-- The token at the front of a text, where `index` is its position. -/
def jsonToken (index : Nat) (text : List UInt8) : Except String JsonTokenEntry :=
  match text with
  | [] => .error ("invalid JSON token at byte " ++ toString index)
  | b :: rest =>
    match markToken b with
    | some kind => .ok ⟨kind, [b], none⟩
    | none =>
      if b == byte '\x22' then
        let stop := stringTokenTail false rest
        if text[stop]? != some (byte '\x22') then .error "unterminated JSON string token"
        else
          let raw := text.take (stop + 1)
          match stringFromStr raw with
          | .error error => .error ("invalid JSON string token: " ++ error)
          | .ok parsed => .ok ⟨.string, raw, some (.string parsed)⟩
      else if b == byte '-' || isAsciiDigit b then
        let raw := b :: rest.takeWhile isNumberByte
        match Json.parse S raw with
        | .error error => .error error.message
        | .ok (.int _) | .ok (.float _) | .ok (.number _) => .ok ⟨.number, raw, some (.number raw)⟩
        | .ok _ => .error "invalid JSON number token"
      else if (ascii "true").isPrefixOf text then .ok ⟨.bool, ascii "true", some (.bool true)⟩
      else if (ascii "false").isPrefixOf text then .ok ⟨.bool, ascii "false", some (.bool false)⟩
      else if (ascii "null").isPrefixOf text then .ok ⟨.null, ascii "null", some .null⟩
      else .error ("invalid JSON token at byte " ++ toString index)

structure TokenStream where
  index : Nat
  tokens : List JsonTokenEntry

def TokenStream.isDone (bytes : List UInt8) (st : TokenStream) : Bool :=
  bytes.length ≤ st.index

def tokenStreamBody (bytes : List UInt8) (st : TokenStream) : Except String TokenStream :=
  let index := st.index + ((bytes.drop st.index).takeWhile isAsciiWhitespace).length
  if index = bytes.length then .ok { st with index := index }
  else
    match jsonToken S stringFromStr index (bytes.drop index) with
    | .error error => .error error
    | .ok token =>
      if maxJsonTokens ≤ st.tokens.length then .error JsonError.tooManyTokens.message
      else .ok { index := index + token.text.length, tokens := st.tokens ++ [token] }

/-- The tokens of a text that parses. -/
def scanJsonTokens (input : List UInt8) : Except String (List JsonTokenEntry) :=
  match Json.parse S input with
  | .error error => .error error.message
  | .ok _ => do
    let st ← run (TokenStream.isDone input) (tokenStreamBody S stringFromStr input) input.length
      { index := 0, tokens := [] }
    .ok st.tokens

/-- What the JSON library's documentation promises about the tokens of an accepted text. -/
structure Serde.ReadsTokens : Prop where
  /-- Only texts of the grammar are accepted. -/
  grammar : ∀ text d, S.deserialize text = some d → Document S.unescape d text
  /-- A number of an accepted text is a text of its own. -/
  number : ∀ text d raw, S.deserialize text = some d → raw ∈ d.numbers →
    S.deserialize raw = some (.number raw)
  /-- The numbers that are visited are finite. -/
  finite : ∀ raw value, S.deserialize raw = some (.number raw) → S.visited raw = .f64 value →
    S.isFinite value = true
  /-- A string of the grammar is read as what it denotes. -/
  string : ∀ s t, StringText S.unescape s t → stringFromStr t = .ok s

end Library

/-! ## What the stream consists of -/

/-- Whether a byte stands in a string, or after a backslash in one. -/
inductive StringState where
  | outside
  | inside
  | escaped

/-- The text without the whitespace outside strings. -/
def squeeze : StringState → List UInt8 → List UInt8
  | _, [] => []
  | .outside, b :: rest =>
    if isAsciiWhitespace b then squeeze .outside rest
    else b :: squeeze (if b == byte '\x22' then .inside else .outside) rest
  | .inside, b :: rest =>
    b :: squeeze (if b == byte '\\' then .escaped else if b == byte '\x22' then .outside
      else .inside) rest
  | .escaped, b :: rest => b :: squeeze .inside rest

/-- The entry for a token of the grammar. -/
def tokenEntry (l : Lexeme × List UInt8) : JsonTokenEntry :=
  match l.1 with
  | .mark b => ⟨(markToken b).getD .null, l.2, none⟩
  | .null => ⟨.null, l.2, some .null⟩
  | .bool value => ⟨.bool, l.2, some (.bool value)⟩
  | .number => ⟨.number, l.2, some (.number l.2)⟩
  | .string value => ⟨.string, l.2, some (.string value)⟩

variable {unescape : List UInt8 → Option String} {l : Lexeme} {t rest : List UInt8}

lemma squeeze_body {body : List UInt8} (h : Quoted body) :
    squeeze .inside (body ++ byte '\x22' :: rest) =
      body ++ byte '\x22' :: squeeze .outside rest := by
  induction h with
  | nil => rfl
  | plain hquote hback _ ih => simp [squeeze, hquote, hback, ih]
  | escape _ ih => simp [squeeze, ih]

/-- Bytes that are neither whitespace nor a quote are kept. -/
lemma squeeze_run {run : List UInt8}
    (h : ∀ b ∈ run, isAsciiWhitespace b = false ∧ b ≠ byte '\x22') :
    squeeze .outside (run ++ rest) = run ++ squeeze .outside rest := by
  induction run with
  | nil => rfl
  | cons b run ih =>
    rcases forall_mem_cons.mp h with ⟨hb, hrun⟩
    simp [squeeze, hb, ih hrun]

lemma squeeze_lexeme (hl : LexemeText unescape l t) :
    squeeze .outside (t ++ rest) = t ++ squeeze .outside rest := by
  cases hl with
  | mark hb =>
    simp only [isPunctuation, Bool.or_eq_true, beq_iff_eq] at hb
    rcases hb with ((((rfl | rfl) | rfl) | rfl) | rfl) | rfl <;> rfl
  | null | litTrue | litFalse => rfl
  | number h =>
    refine squeeze_run fun b hb => ?_
    have hbyte := numberToken_bytes h b hb
    constructor
    · by_contra hblank
      simp only [isAsciiWhitespace, Bool.not_eq_false, Bool.or_eq_true, beq_iff_eq] at hblank
      rcases hblank with (((rfl | rfl) | rfl) | rfl) | rfl <;> exact absurd hbyte (by decide)
    · rintro rfl
      exact absurd hbyte (by decide)
  | string h =>
    rcases h.body with ⟨body, hbody, -, rfl⟩
    have hquote : squeeze .outside (byte '\x22' :: (body ++ byte '\x22' :: rest)) =
        byte '\x22' :: squeeze .inside (body ++ byte '\x22' :: rest) := rfl
    simp [hquote, squeeze_body hbody.quoted]

/-- The texts of the tokens make up the text without whitespace outside strings. -/
lemma squeeze_lexed {text : List UInt8} {ls : List (Lexeme × List UInt8)}
    (h : Lexed unescape text ls) : squeeze .outside text = ls.flatMap Prod.snd := by
  induction h with
  | nil => rfl
  | blank hb _ ih =>
    simp only [isBlank] at hb
    simp [squeeze, isAsciiWhitespace, hb, ih]
  | cons hl _ _ ih => rw [squeeze_lexeme hl, ih, flatMap_cons]

lemma tokenEntry_text (l : Lexeme × List UInt8) : (tokenEntry l).text = l.2 := by
  rcases l with ⟨_ | _ | _ | _ | _, t⟩ <;> rfl

lemma tokenEntry_mark (b : UInt8) (t : List UInt8) :
    ((tokenEntry (.mark b, t)).kind == .number) = false := by
  simp only [tokenEntry, markToken]
  split_ifs <;> rfl

/-- The number tokens of the stream. -/
lemma numbers_tokenEntry (ls : List (Lexeme × List UInt8)) :
    ((ls.map tokenEntry).filter (·.kind == .number)).map (·.text) = numberTexts ls := by
  induction ls with
  | nil => rfl
  | cons l ls ih => ?_
  rcases l with ⟨b | _ | _ | _ | _, t⟩
  · rw [map_cons, filter_cons, tokenEntry_mark b t, if_neg (by simp), ih]
    rfl
  · exact ih
  · exact ih
  · exact congrArg (t :: ·) ih
  · exact ih

section Reading

variable {S : Serde F} {stringFromStr : List UInt8 → Except String String}

/-- A number of an accepted text parses as a number. -/
lemma parse_number (hT : S.ReadsTokens stringFromStr) (hsize : t.length ≤ maxJsonInputBytes)
    (haccepts : S.deserialize t = some (.number t)) (htoken : NumberToken t) :
    Json.parse S t = .ok (parsedNumber S t) := by
  have hvisit : visit S .reject (.number t) 0 = .ok (.number 0, 1) := by
    rw [visit, visitNumber]
    cases hvisited : S.visited t with
    | i64 => rfl
    | u64 => rfl
    | f64 value =>
      simp only [hT.finite t value haccepts hvisited, if_true]
      rfl
  have hbudget : (Doc.number t).tokenCount ≤ maxJsonTokens := show 1 ≤ 1000000 by decide
  have hdocument : Document S.unescape (.number t) t := .number htoken
  exact parseWithPolicy_eq hsize (enforceJsonTokenLimit_text hdocument hbudget) haccepts hdocument
    hvisit

lemma parsedNumber_cases (S : Serde F) (raw : List UInt8) :
    (∃ value, parsedNumber S raw = .int value) ∨ (∃ value, parsedNumber S raw = .float value) ∨
      ∃ value, parsedNumber S raw = .number value := by
  unfold parsedNumber parsedReal
  split
  · exact .inl ⟨_, rfl⟩
  split
  · exact .inr (.inr ⟨_, rfl⟩)
  split
  · exact .inr (.inr ⟨_, rfl⟩)
  split
  · exact .inr (.inr ⟨_, rfl⟩)
  split
  · exact .inr (.inl ⟨_, rfl⟩)
  · exact .inr (.inr ⟨_, rfl⟩)

/-- A token of the grammar is read as its entry. -/
lemma jsonToken_lexeme (hT : S.ReadsTokens stringFromStr) (hl : LexemeText S.unescape l t)
    (hnext : l = .number → Next isDelimiter rest)
    (hnumber : l = .number → t.length ≤ maxJsonInputBytes ∧ S.deserialize t = some (.number t))
    (index : Nat) : jsonToken S stringFromStr index (t ++ rest) = .ok (tokenEntry (l, t)) := by
  cases hl with
  | mark hb =>
    simp only [isPunctuation, Bool.or_eq_true, beq_iff_eq] at hb
    rcases hb with ((((rfl | rfl) | rfl) | rfl) | rfl) | rfl <;> rfl
  | null | litTrue | litFalse => rfl
  | number h =>
    have hparse := parse_number hT (hnumber rfl).1 (hnumber rfl).2 h
    rcases numberToken_start h with ⟨b, t, rfl, hstart⟩
    have hother : ∀ c, (c == byte '-' || isAsciiDigit c) = false → b ≠ c := by
      rintro c hc rfl
      rw [hstart] at hc
      cases hc
    have hmark : markToken b = none := by
      simp [markToken, hother (byte '\x7b') (by decide), hother (byte '\x7d') (by decide),
        hother (byte '[') (by decide), hother (byte ']') (by decide),
        hother (byte ':') (by decide), hother (byte ',') (by decide)]
    have hrun := numberToken_run h (hnext rfl)
    simp only [cons_append, jsonToken, hmark, hrun, hparse, hstart, if_true,
      beq_eq_false_iff_ne.mpr (hother (byte '\x22') (by decide)), Bool.false_eq_true, if_false]
    rcases parsedNumber_cases S (b :: t) with ⟨value, hvalue⟩ | ⟨value, hvalue⟩ | ⟨value, hvalue⟩ <;>
      · rw [hvalue]
        rfl
  | @string s _ h => ?_
  have hread := hT.string s _ h
  rcases h.body with ⟨body, hbody, -, rfl⟩
  have htext : byte '\x22' :: (body ++ [byte '\x22']) ++ rest =
      byte '\x22' :: (body ++ byte '\x22' :: rest) := by simp
  have htail := @stringTokenTail_body body rest hbody.quoted
  have hmark : markToken (byte '\x22') = none := rfl
  have htake : (byte '\x22' :: (body ++ byte '\x22' :: rest)).take (body.length + 1 + 1) =
      byte '\x22' :: (body ++ [byte '\x22']) := by
    simp [take_append]
  rw [htext, jsonToken]
  simp [hmark, htail, htake, hread, tokenEntry]

/-- The stream holds the tokens before the position, and the others are ahead. -/
def TokenStream.Ahead (unescape : List UInt8 → Option String) (bytes : List UInt8)
    (all : List (Lexeme × List UInt8)) (st : TokenStream) : Prop :=
  ∃ pre rest before ls, At bytes st.index pre rest ∧ Lexed unescape rest ls ∧
    all = before ++ ls ∧ st.tokens = before.map tokenEntry

lemma tokenStreamBody_ahead {bytes : List UInt8} {all : List (Lexeme × List UInt8)}
    {st : TokenStream} (hT : S.ReadsTokens stringFromStr)
    (hnumbers : ∀ t ∈ numberTexts all, t.length ≤ maxJsonInputBytes ∧
      S.deserialize t = some (.number t))
    (hbudget : all.length ≤ maxJsonTokens) (h : st.Ahead S.unescape bytes all)
    (hdone : st.isDone bytes = false) : ∃ st', tokenStreamBody S stringFromStr bytes st = .ok st' ∧
      st'.Ahead S.unescape bytes all ∧ st.index < st'.index := by
  rcases h with ⟨pre, rest, before, ls, hat, hlex, rfl, htokens⟩
  have hlt : st.index < bytes.length := by simpa [TokenStream.isDone] using hdone
  rcases hlex.skip hat with ⟨stop, hstop, ⟨rfl, rfl⟩ |
    ⟨hmore, l, t, rest', ls', pre', rfl, hdrop, hpos, hat', hl, hnext, hlex'⟩⟩
  · exact ⟨{ st with index := bytes.length }, by simp [tokenStreamBody, hstop],
      ⟨bytes, [], before, [], ⟨by simp, rfl⟩, .nil, rfl, htokens⟩, hlt⟩
  have hread := jsonToken_lexeme hT hl hnext
    (fun hnumber => hnumbers t (mem_filterMap.mpr ⟨(l, t), by simp, by rw [hnumber]⟩)) stop
  have hroom : ¬ maxJsonTokens ≤ st.tokens.length := by
    rw [length_append, length_cons] at hbudget
    rw [htokens, length_map]
    omega
  refine ⟨⟨stop + t.length, st.tokens ++ [tokenEntry (l, t)]⟩, ?_,
    ⟨pre', rest', before ++ [(l, t)], ls', hat', hlex', by simp, by simp [htokens]⟩, ?_⟩
  · simp [tokenStreamBody, hstop, hmore, hdrop, hread, hroom, tokenEntry_text]
  · exact lt_of_le_of_lt (hstop ▸ Nat.le_add_right _ _) hpos

lemma length_le_of_lexed {text : List UInt8} {ls : List (Lexeme × List UInt8)}
    (h : Lexed unescape text ls) : ∀ l ∈ ls, l.2.length ≤ text.length := by
  induction h with
  | nil => exact nofun
  | blank _ _ ih => exact fun l hl => (ih l hl).trans (Nat.le_succ _)
  | cons _ _ _ ih =>
    simp only [forall_mem_cons, length_append]
    exact ⟨Nat.le_add_right _ _, fun l hl => (ih l hl).trans (Nat.le_add_left _ _)⟩

/-- On an accepted text the token reader succeeds; the texts of its tokens are the text
without the whitespace outside strings, its numbers are those of the scan for numbers, and
there are as many tokens as the check of the budget counts. -/
theorem scanJsonTokens_accepted (hT : S.ReadsTokens stringFromStr) (text : List UInt8) (j : Json F)
    (hparse : Json.parse S text = .ok j) :
    ∃ tokens st, scanJsonTokens S stringFromStr text = .ok tokens ∧
      tokens.flatMap (·.text) = squeeze .outside text ∧
      scanJsonNumbers text = .ok ((tokens.filter (·.kind == .number)).map (·.text)) ∧
      run (TokenScan.isDone text) (tokenScanBody text) text.length ⟨0, 0⟩ = .ok st ∧
      tokens.length = st.count := by
  rcases parse_eq_ok hparse with ⟨d, hsize, hlimit, haccepts⟩
  have hdocument := hT.grammar text d haccepts
  rcases hdocument.lexed with ⟨ls, hlex, hnumbers, hcount⟩
  rcases tokenScan_text hdocument with ⟨st, hscan, hst, hbudget⟩ | ⟨hscan, -⟩
  · have hvalid : ∀ t ∈ numberTexts ls, t.length ≤ maxJsonInputBytes ∧
        S.deserialize t = some (.number t) := by
      intro t ht
      refine ⟨?_, hT.number text d t haccepts (hnumbers ▸ ht)⟩
      rcases mem_filterMap.mp ht with ⟨⟨l, t'⟩, hl, heq⟩
      have hlength := length_le_of_lexed hlex _ hl
      cases l <;> cases heq
      exact hlength.trans hsize
    have hrun := run_scan (TokenStream.isDone text) (tokenStreamBody S stringFromStr text)
      (P := TokenStream.Ahead S.unescape text ls) (Q := fun _ => False) (s := ⟨0, []⟩) (fun _ => rfl)
      (fun _ h hdone => .inl (tokenStreamBody_ahead hT hvalid (hcount ▸ hbudget) h hdone))
      ⟨[], text, [], ls, .start text, hlex, rfl, rfl⟩ (n := text.length) (Nat.le_add_left _ _)
    rcases hrun with ⟨stream, hrun, ⟨pre, rest, before, ls', hat, hlex', hall, htokens⟩, hend⟩ |
      ⟨_, -, hfalse⟩
    · obtain rfl := hat.length_le_iff.mp hend
      rw [hlex'.eq_nil, append_nil] at hall
      subst hall
      refine ⟨ls.map tokenEntry, st, ?_, ?_, ?_, hscan, by rw [length_map, hcount, hst]⟩
      · simp only [scanJsonTokens, hparse, hrun, ← htokens]
        rfl
      · rw [squeeze_lexed hlex, flatMap_map]
        simp [tokenEntry_text]
      · rw [numbers_tokenEntry, hnumbers]
        exact scanJsonNumbers_text hdocument
    · exact hfalse.elim
  · rw [enforceJsonTokenLimit, hscan] at hlimit
    cases hlimit

end Reading

/-! ## An object with one member -/

def pairText : List UInt8 :=
  ascii "\x7b\"a\": 10\x7d"

/-- A library that knows this text and its number. -/
def pairSerde : Serde Unit :=
  { repeatedKeySerde with
    deserialize := fun text =>
      if text = pairText then some (.object [("a", .number (ascii "10"))])
      else if text = ascii "10" then some (.number (ascii "10"))
      else none }

def pairStrings (raw : List UInt8) : Except String String :=
  if raw = ascii "\"a\"" then .ok "a" else .error "expected value at line 1 column 1"

lemma pairSerde_readsTokens : pairSerde.ReadsTokens pairStrings where
  grammar := by
    have hint : NumberToken (ascii "10") :=
      ⟨[], ascii "10", [], [], .inl rfl, .digits (by decide) (by decide) (all_eq_true.mp rfl),
        .none, .none, rfl⟩
    have hkey : StringText pairSerde.unescape "a" (ascii "\"a\"") :=
      ⟨ascii "a", .plain (by decide) (by decide) (by decide) .nil, rfl, rfl⟩
    intro text d h
    simp only [pairSerde] at h
    split_ifs at h with htext hnumber
    · cases h
      subst htext
      have hmember := Text.member blank_nil hkey blank_nil
        (.element (w := [byte ' ']) (by simp [Blank, isBlank]) (.number hint) blank_nil)
      have hobject := Text.element blank_nil (.object (.lastMember hmember)) blank_nil
      exact hobject
    · cases h
      subst hnumber
      exact .number hint
  number := by
    intro text d raw h hraw
    simp only [pairSerde] at h
    split_ifs at h <;>
      · cases h
        obtain rfl : raw = ascii "10" := by simpa [Doc.numbers, memberNumbers] using hraw
        rfl
  finite := fun _ _ _ _ => rfl
  string := by
    rintro s t ⟨body, -, hs, rfl⟩
    simp only [pairSerde, repeatedKeySerde] at hs
    split_ifs at hs with hbody
    cases hs
    subst hbody
    rfl

theorem scanJsonTokens_pair : ∃ j, Json.parse pairSerde pairText = .ok j ∧
      ∃ tokens st, scanJsonTokens pairSerde pairStrings pairText = .ok tokens ∧
        tokens.flatMap (·.text) = squeeze .outside pairText ∧
        scanJsonNumbers pairText = .ok ((tokens.filter (·.kind == .number)).map (·.text)) ∧
        run (TokenScan.isDone pairText) (tokenScanBody pairText) pairText.length ⟨0, 0⟩ = .ok st ∧
        tokens.length = st.count :=
  ⟨_, rfl, scanJsonTokens_accepted pairSerde_readsTokens pairText _ rfl⟩

end MuxRuntime
