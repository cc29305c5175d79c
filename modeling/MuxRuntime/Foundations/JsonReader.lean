import MuxRuntime.Foundations.JsonGrammar

/-!
# A reader for JSON texts

An executable reader that accepts every text of the grammar and returns the
document it spells, so that the grammar is unambiguous.
-/

namespace JsonGrammar

open List Utf8 Cursor

variable (unescape : List UInt8 → Option String)

def skipBlank (text : List UInt8) : List UInt8 :=
  text.dropWhile isBlank

/-- The body of a string and what follows its closing quote. -/
def splitString : List UInt8 → Option (List UInt8 × List UInt8)
  | [] => none
  | [b] => if b == byte '\x22' then some ([], []) else none
  | b :: c :: rest =>
    if b == byte '\x22' then some ([], c :: rest)
    else if b == byte '\\' then (splitString rest).map (fun r => (b :: c :: r.1, r.2))
    else (splitString (c :: rest)).map (fun r => (b :: r.1, r.2))

/-- Read a string whose opening quote has been consumed. -/
def readString (text : List UInt8) : Option (String × List UInt8) := do
  let (body, rest) ← splitString text
  let s ← unescape body
  some (s, rest)

mutual

/-- Read a value that is at the front of the text. -/
def readValue : Nat → List UInt8 → Option (Doc × List UInt8)
  | 0, _ => none
  | _, [] => none
  | n + 1, b :: rest =>
    if b == byte '\x22' then (readString unescape rest).map (fun r => (.string r.1, r.2))
    else if b == byte '[' then
      if (skipBlank rest).head? == some (byte ']') then some (.array [], (skipBlank rest).tail)
      else (readElements n rest).map (fun r => (.array r.1, r.2))
    else if b == byte '\x7b' then
      if (skipBlank rest).head? == some (byte '\x7d') then
        some (.object [], (skipBlank rest).tail)
      else (readMembers n rest).map (fun r => (.object r.1, r.2))
    else if b == byte 'n' then some (.null, rest.drop 3)
    else if b == byte 't' then some (.bool true, rest.drop 3)
    else if b == byte 'f' then some (.bool false, rest.drop 4)
    else some (.number ((b :: rest).takeWhile isNumberByte), (b :: rest).dropWhile isNumberByte)

/-- Read the elements of an array up to the closing bracket. -/
def readElements : Nat → List UInt8 → Option (List Doc × List UInt8)
  | 0, _ => none
  | n + 1, text => do
    let (d, rest) ← readValue n (skipBlank text)
    match skipBlank rest with
    | [] => none
    | b :: rest =>
      if b == byte ',' then (readElements n rest).map (fun r => (d :: r.1, r.2))
      else if b == byte ']' then some ([d], rest)
      else none

/-- Read the members of an object up to the closing brace. -/
def readMembers : Nat → List UInt8 → Option (List (String × Doc) × List UInt8)
  | 0, _ => none
  | n + 1, text => do
    let (key, rest) ← readString unescape (skipBlank text).tail
    let (d, rest) ← readValue n (skipBlank (skipBlank rest).tail)
    match skipBlank rest with
    | [] => none
    | b :: rest =>
      if b == byte ',' then (readMembers n rest).map (fun r => ((key, d) :: r.1, r.2))
      else if b == byte '\x7d' then some ([(key, d)], rest)
      else none

end

/-- Read a whole text. -/
def read (text : List UInt8) : Option Doc := do
  let (d, rest) ← readValue unescape (text.length + 1) (skipBlank text)
  if skipBlank rest = [] then some d else none

/-! ## Completeness -/

variable {unescape}

variable {rest : List UInt8}

lemma skipBlank_append {w : List UInt8} (hw : Blank w) :
    skipBlank (w ++ rest) = skipBlank rest := by
  simp [skipBlank, dropWhile_append_of_pos hw]

variable {b : UInt8}

lemma skipBlank_cons (hb : isBlank b = false) : skipBlank (b :: rest) = b :: rest := by
  simp [skipBlank, hb]

lemma splitString_cons {text : List UInt8} (hquote : b ≠ byte '\x22') (hback : b ≠ byte '\\')
    (hne : text ≠ []) :
    splitString (b :: text) = (splitString text).map (fun r => (b :: r.1, r.2)) := by
  cases text with
  | nil => exact absurd rfl hne
  | cons c text => simp [splitString, hquote, hback]

lemma splitString_escape (c : UInt8) (text : List UInt8) : splitString (byte '\\' :: c :: text) =
      (splitString text).map (fun r => (byte '\\' :: c :: r.1, r.2)) := by
  rw [splitString, if_neg (by decide), if_pos (by decide)]

lemma splitString_body {body : List UInt8} (h : Quoted body) :
    splitString (body ++ byte '\x22' :: rest) = some (body, rest) := by
  induction h with
  | nil => cases rest <;> rfl
  | plain hquote hback _ ih =>
    rw [cons_append, splitString_cons hquote hback (by simp), ih]
    rfl
  | escape _ ih =>
    rw [cons_append, cons_append, splitString_escape, ih]
    rfl

variable {t : List UInt8}

lemma readString_text {s : String} (h : StringText unescape s t) (rest : List UInt8) :
    ∃ t', t = byte '\x22' :: t' ∧ readString unescape (t' ++ rest) = some (s, rest) := by
  rcases h.body with ⟨body, hbody, hs, rfl⟩
  refine ⟨body ++ [byte '\x22'], rfl, ?_⟩
  rw [append_assoc, singleton_append, readString, splitString_body hbody.quoted]
  simp [hs]

variable {part : Part}

/-- A phrase starts with whitespace and a byte that does not end a value; a value
starts with that byte. -/
lemma Text.head (h : Text unescape part t) :
    ∃ w b t', t = w ++ b :: t' ∧ Blank w ∧ isDelimiter b = false ∧
      ∀ d, part = .value d → w = [] := by
  induction h with
  | null => exact ⟨[], byte 'n', _, rfl, blank_nil, by decide, fun _ _ => rfl⟩
  | litTrue => exact ⟨[], byte 't', _, rfl, blank_nil, by decide, fun _ _ => rfl⟩
  | litFalse => exact ⟨[], byte 'f', _, rfl, blank_nil, by decide, fun _ _ => rfl⟩
  | number h =>
    have hbytes := numberToken_bytes h
    rcases numberToken_head h with ⟨b, t, rfl, -⟩
    refine ⟨[], b, t, rfl, blank_nil, ?_, fun _ _ => rfl⟩
    by_contra hb
    have hnot := isNumberByte_of_isDelimiter (Bool.not_eq_false _ ▸ hb)
    simp [hbytes b (by simp)] at hnot
  | string h =>
    rcases h.body with ⟨body, -, -, rfl⟩
    exact ⟨[], byte '\x22', _, rfl, blank_nil, by decide, fun _ _ => rfl⟩
  | emptyArray _ | array _ _ => exact ⟨[], byte '[', _, rfl, blank_nil, by decide, fun _ _ => rfl⟩
  | emptyObject _ | object _ _ =>
    exact ⟨[], byte '\x7b', _, rfl, blank_nil, by decide, fun _ _ => rfl⟩
  | @element d w t w' hw _ _ ih =>
    rcases ih with ⟨v, b, t', rfl, hv, hb, -⟩
    exact ⟨w ++ v, b, t' ++ w', by simp, blank_append hw hv, hb, nofun⟩
  | lastElement _ ih | lastMember _ ih =>
    rcases ih with ⟨w, b, t', rfl, hw, hb, -⟩
    exact ⟨w, b, t', rfl, hw, hb, nofun⟩
  | @moreElements _ _ _ ts _ _ ih _ | @moreMembers _ _ _ _ ts _ _ ih _ =>
    rcases ih with ⟨w, b, t', rfl, hw, hb, -⟩
    exact ⟨w, b, t' ++ byte ',' :: ts, by simp, hw, hb, nofun⟩
  | @member key d w k w' t hw hk _ _ _ =>
    rcases hk.body with ⟨body, -, -, rfl⟩
    exact ⟨w, byte '\x22', _, rfl, hw, by decide, nofun⟩

lemma isBlank_of_isDelimiter_false (h : isDelimiter b = false) : isBlank b = false := by
  simp only [isDelimiter, Bool.or_eq_false_iff] at h
  exact h.1.1.1

/-- A value is read where it stands. -/
lemma Text.skipBlank_value {d : Doc} (h : Text unescape (.value d) t) :
    skipBlank (t ++ rest) = t ++ rest := by
  rcases h.head with ⟨w, b, t', rfl, -, hb, hw⟩
  rw [hw d rfl]
  exact skipBlank_cons (isBlank_of_isDelimiter_false hb)

/-- The first byte after whitespace does not close a bracket. -/
lemma Text.head_skipBlank (h : Text unescape part t) (hb : isDelimiter b = true) :
    (skipBlank (t ++ rest)).head? ≠ some b := by
  rcases h.head with ⟨w, c, t', rfl, hw, hc, -⟩
  rw [append_assoc, skipBlank_append hw, cons_append,
    skipBlank_cons (isBlank_of_isDelimiter_false hc)]
  rintro hcb
  obtain rfl : c = b := by simpa using hcb
  rw [hc] at hb
  cases hb

/-- What the reader does on a phrase. -/
def ReadsPart (unescape : List UInt8 → Option String) : Part → List UInt8 → Prop
  | .value d, t => ∀ n rest, t.length < n → Next isDelimiter rest →
      readValue unescape n (t ++ rest) = some (d, rest)
  | .element d, t => ∀ n rest, t.length < n → Next isDelimiter rest →
      ∃ rest', readValue unescape n (skipBlank (t ++ rest)) = some (d, rest') ∧
        skipBlank rest' = skipBlank rest
  | .elements items, t => ∀ n rest, t.length + 1 < n →
      readElements unescape n (t ++ byte ']' :: rest) = some (items, rest)
  | .member key d, t => ∀ n rest, t.length < n → Next isDelimiter rest →
      ∃ afterKey rest', readString unescape (skipBlank (t ++ rest)).tail = some (key, afterKey) ∧
        readValue unescape n (skipBlank (skipBlank afterKey).tail) = some (d, rest') ∧
        skipBlank rest' = skipBlank rest
  | .members members, t => ∀ n rest, t.length + 1 < n →
      readMembers unescape n (t ++ byte '\x7d' :: rest) = some (members, rest)

lemma readsPart_text (h : Text unescape part t) : ReadsPart unescape part t := by
  induction h with
  | null | litTrue | litFalse =>
    rintro (_ | n) rest hn _
    · cases hn
    rfl
  | @number token h =>
    rintro (_ | n) rest hn hrest
    · cases hn
    have hbytes := numberToken_bytes h
    have htake : (token ++ rest).takeWhile isNumberByte = token :=
      takeWhile_run hbytes (fun b hb => by simpa using isNumberByte_of_isDelimiter (hrest b hb))
    have hdrop : (token ++ rest).dropWhile isNumberByte = rest := by
      have hsplit := takeWhile_append_dropWhile (p := isNumberByte) (l := token ++ rest)
      rw [htake] at hsplit
      exact append_cancel_left hsplit
    rcases numberToken_head h with ⟨b, t, rfl, hb⟩
    have hother : ∀ c, isAsciiDigit c = false → c ≠ byte '-' → ¬ (b == c) = true := by
      intro c hdigit hminus hbc
      obtain rfl := beq_iff_eq.mp hbc
      rcases hb with hb | hb
      · exact hminus hb
      · rw [hdigit] at hb
        cases hb
    rw [cons_append] at htake hdrop ⊢
    rw [readValue, if_neg (hother _ (by decide) (by decide)),
      if_neg (hother _ (by decide) (by decide)), if_neg (hother _ (by decide) (by decide)),
      if_neg (hother _ (by decide) (by decide)), if_neg (hother _ (by decide) (by decide)),
      if_neg (hother _ (by decide) (by decide)), htake, hdrop]
  | string h =>
    rintro (_ | n) rest hn _
    · cases hn
    rcases readString_text h rest with ⟨t', rfl, hread⟩
    rw [cons_append, readValue, if_pos (by decide), hread]
    rfl
  | @emptyArray w hw =>
    rintro (_ | n) rest hn _
    · cases hn
    have hskip : skipBlank (w ++ [byte ']'] ++ rest) = byte ']' :: rest := by
      rw [append_assoc, skipBlank_append hw]
      rfl
    rw [cons_append, readValue, if_neg (by decide), if_pos (by decide), hskip]
    rfl
  | @array items t h ih =>
    rintro (_ | n) rest hn _
    · cases hn
    have hopen : (skipBlank (t ++ [byte ']'] ++ rest)).head? ≠ some (byte ']') := by
      rw [append_assoc]
      exact h.head_skipBlank (by decide)
    have hread := ih n rest (by simp at hn; omega)
    rw [cons_append, readValue, if_neg (by decide), if_pos (by decide),
      if_neg (by simpa using hopen), append_assoc, singleton_append, hread]
    rfl
  | @emptyObject w hw =>
    rintro (_ | n) rest hn _
    · cases hn
    have hskip : skipBlank (w ++ [byte '\x7d'] ++ rest) = byte '\x7d' :: rest := by
      rw [append_assoc, skipBlank_append hw]
      rfl
    rw [cons_append, readValue, if_neg (by decide), if_neg (by decide),
      if_pos (by decide), hskip]
    rfl
  | @object members t h ih =>
    rintro (_ | n) rest hn _
    · cases hn
    have hopen : (skipBlank (t ++ [byte '\x7d'] ++ rest)).head? ≠ some (byte '\x7d') := by
      rw [append_assoc]
      exact h.head_skipBlank (by decide)
    have hread := ih n rest (by simp at hn; omega)
    rw [cons_append, readValue, if_neg (by decide), if_neg (by decide),
      if_pos (by decide), if_neg (by simpa using hopen), append_assoc,
      singleton_append, hread]
    rfl
  | @element d w t w' hw h hw' ih =>
    intro n rest hn hrest
    refine ⟨w' ++ rest, ?_, skipBlank_append hw'⟩
    rw [append_assoc, append_assoc, skipBlank_append hw, h.skipBlank_value]
    exact ih n (w' ++ rest) (by simp at hn; omega) (next_blank hw' hrest)
  | @lastElement d t _ ih =>
    rintro (_ | n) rest hn
    · cases hn
    rcases ih n (byte ']' :: rest) (by omega) (next_cons (by decide)) with
      ⟨rest', hread, hskip⟩
    rw [readElements, hread]
    simp only [Option.bind_eq_bind, Option.bind_some, hskip]
    rfl
  | @moreElements d items t ts _ _ ih ihs =>
    rintro (_ | n) rest hn
    · cases hn
    simp only [length_append, length_cons] at hn
    rcases ih n (byte ',' :: (ts ++ byte ']' :: rest)) (by omega) (next_cons (by decide)) with
      ⟨rest', hread, hskip⟩
    have hrest := ihs n rest (by omega)
    rw [skipBlank_cons (by decide)] at hskip
    rw [append_assoc, cons_append, readElements, hread]
    simp only [Option.bind_eq_bind, Option.bind_some, hskip, BEq.rfl, if_true, hrest]
    rfl
  | @member key d w k w' t hw hk hw' _ ih =>
    intro n rest hn hrest
    simp only [length_append, length_cons] at hn
    rcases ih n rest (by omega) hrest with ⟨rest', hread, hskip⟩
    rcases readString_text hk (w' ++ byte ':' :: (t ++ rest)) with ⟨k', rfl, hkey⟩
    refine ⟨w' ++ byte ':' :: (t ++ rest), rest', ?_, ?_, hskip⟩
    · have hquote : skipBlank (w ++ (byte '\x22' :: k' ++ (w' ++ byte ':' :: t)) ++ rest) =
          byte '\x22' :: (k' ++ (w' ++ byte ':' :: (t ++ rest))) := by
        rw [append_assoc, skipBlank_append hw]
        simp [skipBlank_cons (show isBlank (byte '\x22') = false by decide)]
      rw [hquote]
      exact hkey
    · rw [skipBlank_append hw', skipBlank_cons (by decide)]
      exact hread
  | @lastMember key d t _ ih =>
    rintro (_ | n) rest hn
    · cases hn
    rcases ih n (byte '\x7d' :: rest) (by omega) (next_cons (by decide)) with
      ⟨afterKey, rest', hkey, hread, hskip⟩
    rw [readMembers, hkey]
    simp only [Option.bind_eq_bind, Option.bind_some, hread, hskip]
    rfl
  | @moreMembers key d members t ts _ _ ih ihs => ?_
  rintro (_ | n) rest hn
  · cases hn
  simp only [length_append, length_cons] at hn
  rcases ih n (byte ',' :: (ts ++ byte '\x7d' :: rest)) (by omega)
    (next_cons (by decide)) with ⟨afterKey, rest', hkey, hread, hskip⟩
  have hrest := ihs n rest (by omega)
  rw [skipBlank_cons (by decide)] at hskip
  rw [append_assoc, cons_append, readMembers, hkey]
  simp only [Option.bind_eq_bind, Option.bind_some, hread, hskip, BEq.rfl, if_true, hrest]
  rfl

/-- The reader accepts every text of the grammar. -/
theorem read_complete {d : Doc} {text : List UInt8} (h : Document unescape d text) :
    read unescape text = some d := by
  rcases readsPart_text h (text.length + 1) [] (by omega) (next_nil _) with
    ⟨rest, hread, hskip⟩
  rw [append_nil] at hread
  rw [read, hread]
  simp only [Option.bind_eq_bind, Option.bind_some, hskip]
  rfl

end JsonGrammar
