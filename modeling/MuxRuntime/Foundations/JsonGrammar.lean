import MuxRuntime.Foundations.Cursor
import MuxRuntime.Foundations.Utf8

/-!
# The JSON grammar

The relation between the bytes of a JSON text and the document they spell. A number is
kept as its token; the meaning of an escaped string is a parameter. The phrases of the
grammar are indexed by `Part`, so that facts about texts are proved by one induction.
`Lexed` cuts a text into tokens, which scanners follow.
-/

namespace JsonGrammar

open List Utf8 Cursor

/-- A document: members are in source order and may repeat a key. -/
inductive Doc where
  | null
  | bool (value : Bool)
  | number (token : List UInt8)
  | string (value : String)
  | array (items : List Doc)
  | object (members : List (String × Doc))

mutual

/-- The number tokens of a document, in source order. -/
def Doc.numbers : Doc → List (List UInt8)
  | .number token => [token]
  | .array items => itemNumbers items
  | .object members => memberNumbers members
  | .null | .bool _ | .string _ => []

def itemNumbers : List Doc → List (List UInt8)
  | [] => []
  | d :: items => d.numbers ++ itemNumbers items

def memberNumbers : List (String × Doc) → List (List UInt8)
  | [] => []
  | (_, d) :: members => d.numbers ++ memberNumbers members

end

mutual

/-- How deeply arrays and objects are nested. -/
def Doc.depth : Doc → Nat
  | .array items => itemDepth items + 1
  | .object members => memberDepth members + 1
  | .null | .bool _ | .number _ | .string _ => 0

def itemDepth : List Doc → Nat
  | [] => 0
  | d :: items => max d.depth (itemDepth items)

def memberDepth : List (String × Doc) → Nat
  | [] => 0
  | (_, d) :: members => max d.depth (memberDepth members)

end

mutual

/-- The lexical tokens of a document: scalars, keys and punctuation. -/
def Doc.tokenCount : Doc → Nat
  | .array items => itemTokens items + 2
  | .object members => memberTokens members + 2
  | .null | .bool _ | .number _ | .string _ => 1

/-- The tokens of the items with the commas between them. -/
def itemTokens : List Doc → Nat
  | [] => 0
  | [d] => d.tokenCount
  | d :: items => d.tokenCount + 1 + itemTokens items

/-- The tokens of the members: key, colon, value and the commas between. -/
def memberTokens : List (String × Doc) → Nat
  | [] => 0
  | [(_, d)] => d.tokenCount + 2
  | (_, d) :: members => d.tokenCount + 3 + memberTokens members

end

/-! ## Tokens -/

/-- Insignificant whitespace. -/
def isBlank (b : UInt8) : Bool :=
  b == byte ' ' || b == byte '\t' || b == byte '\n' || b == byte '\r'

def Blank (w : List UInt8) : Prop :=
  ∀ b ∈ w, isBlank b = true

inductive IntegerPart : List UInt8 → Prop
  | zero : IntegerPart [byte '0']
  | digits {d : UInt8} {ds : List UInt8} (hd : isAsciiDigit d = true) (hnonzero : d ≠ byte '0')
      (hds : ∀ b ∈ ds, isAsciiDigit b = true) : IntegerPart (d :: ds)

inductive FractionPart : List UInt8 → Prop
  | none : FractionPart []
  | digits {d : UInt8} {ds : List UInt8} (hds : ∀ b ∈ d :: ds, isAsciiDigit b = true) :
      FractionPart (byte '.' :: d :: ds)

inductive ExponentPart : List UInt8 → Prop
  | none : ExponentPart []
  | digits {e d : UInt8} {sign ds : List UInt8} (he : e = byte 'e' ∨ e = byte 'E')
      (hsign : sign = [] ∨ sign = [byte '+'] ∨ sign = [byte '-'])
      (hds : ∀ b ∈ d :: ds, isAsciiDigit b = true) : ExponentPart (e :: (sign ++ d :: ds))

/-- A number: optional minus sign, integer part, fraction and exponent. -/
structure NumberToken (token : List UInt8) : Prop where
  parts : ∃ sign int frac exp, (sign = [] ∨ sign = [byte '-']) ∧ IntegerPart int ∧
    FractionPart frac ∧ ExponentPart exp ∧ token = sign ++ (int ++ (frac ++ exp))

/-- The escape letters, the unicode escape apart. -/
def isEscape (b : UInt8) : Bool :=
  (ascii "\"\\/bfnrt").contains b

def isHexDigit (b : UInt8) : Bool :=
  isAsciiDigit b || (byte 'a' ≤ b && b ≤ byte 'f') || (byte 'A' ≤ b && b ≤ byte 'F')

variable {b : UInt8}

lemma isHexDigit_ne (h : isHexDigit b = true) : b ≠ byte '\x22' ∧ b ≠ byte '\\' := by
  constructor
  all_goals
    rintro rfl
    exact absurd h (by decide)

/-- What stands between the quotes of a string. -/
inductive StringBody : List UInt8 → Prop
  | nil : StringBody []
  | plain {b : UInt8} {body : List UInt8} (hquote : b ≠ byte '\x22') (hback : b ≠ byte '\\')
      (hcontrol : 0x20 ≤ b) (h : StringBody body) : StringBody (b :: body)
  | escape {b : UInt8} {body : List UInt8} (hb : isEscape b = true) (h : StringBody body) :
      StringBody (byte '\\' :: b :: body)
  | unicode {a b c d : UInt8} {body : List UInt8}
      (hhex : ∀ x ∈ [a, b, c, d], isHexDigit x = true) (h : StringBody body) :
      StringBody (byte '\\' :: byte 'u' :: a :: b :: c :: d :: body)

/-- What scanners see of a string body: plain bytes and bytes after a backslash. -/
inductive Quoted : List UInt8 → Prop
  | nil : Quoted []
  | plain {b : UInt8} {body : List UInt8} (hquote : b ≠ byte '\x22') (hback : b ≠ byte '\\')
      (h : Quoted body) : Quoted (b :: body)
  | escape {b : UInt8} {body : List UInt8} (h : Quoted body) : Quoted (byte '\\' :: b :: body)

lemma StringBody.quoted {body : List UInt8} (h : StringBody body) : Quoted body := by
  have hex : ∀ {b body}, isHexDigit b = true → Quoted body → Quoted (b :: body) :=
    fun hb => .plain (isHexDigit_ne hb).1 (isHexDigit_ne hb).2
  induction h with
  | nil => exact .nil
  | plain hquote hback _ _ ih => exact .plain hquote hback ih
  | escape _ _ ih => exact .escape ih
  | unicode hhex _ ih =>
    simp only [forall_mem_cons] at hhex
    exact .escape (hex hhex.1 (hex hhex.2.1 (hex hhex.2.2.1 (hex hhex.2.2.2.1 ih))))

/-! ## Texts -/

/-- The phrases of the grammar. An element is a value with whitespace around it. -/
inductive Part where
  | value (d : Doc)
  | element (d : Doc)
  | elements (items : List Doc)
  | member (key : String) (d : Doc)
  | members (members : List (String × Doc))

def Part.numbers : Part → List (List UInt8)
  | value d | element d | member _ d => d.numbers
  | elements items => itemNumbers items
  | members ms => memberNumbers ms

section Grammar

variable (unescape : List UInt8 → Option String)

/-- A string token and the string it denotes. -/
structure StringText (s : String) (text : List UInt8) : Prop where
  body : ∃ body, StringBody body ∧ unescape body = some s ∧
    text = byte '\x22' :: (body ++ [byte '\x22'])

/-- The texts of the phrases of the grammar. -/
inductive Text : Part → List UInt8 → Prop
  | null : Text (.value .null) (ascii "null")
  | litTrue : Text (.value (.bool true)) (ascii "true")
  | litFalse : Text (.value (.bool false)) (ascii "false")
  | number {token : List UInt8} (h : NumberToken token) : Text (.value (.number token)) token
  | string {s : String} {t : List UInt8} (h : StringText unescape s t) : Text (.value (.string s)) t
  | emptyArray {w : List UInt8} (hw : Blank w) :
      Text (.value (.array [])) (byte '[' :: (w ++ [byte ']']))
  | array {items : List Doc} {t : List UInt8} (h : Text (.elements items) t) :
      Text (.value (.array items)) (byte '[' :: (t ++ [byte ']']))
  | emptyObject {w : List UInt8} (hw : Blank w) :
      Text (.value (.object [])) (byte '\x7b' :: (w ++ [byte '\x7d']))
  | object {members : List (String × Doc)} {t : List UInt8} (h : Text (.members members) t) :
      Text (.value (.object members)) (byte '\x7b' :: (t ++ [byte '\x7d']))
  | element {d : Doc} {w t w' : List UInt8} (hw : Blank w) (h : Text (.value d) t)
      (hw' : Blank w') : Text (.element d) (w ++ (t ++ w'))
  | lastElement {d : Doc} {t : List UInt8} (h : Text (.element d) t) : Text (.elements [d]) t
  | moreElements {d : Doc} {items : List Doc} {t ts : List UInt8} (h : Text (.element d) t)
      (hs : Text (.elements items) ts) : Text (.elements (d :: items)) (t ++ byte ',' :: ts)
  | member {key : String} {d : Doc} {w k w' t : List UInt8} (hw : Blank w)
      (hk : StringText unescape key k) (hw' : Blank w') (h : Text (.element d) t) :
      Text (.member key d) (w ++ (k ++ (w' ++ byte ':' :: t)))
  | lastMember {key : String} {d : Doc} {t : List UInt8} (h : Text (.member key d) t) :
      Text (.members [(key, d)]) t
  | moreMembers {key : String} {d : Doc} {members : List (String × Doc)} {t ts : List UInt8}
      (h : Text (.member key d) t) (hs : Text (.members members) ts) :
      Text (.members ((key, d) :: members)) (t ++ byte ',' :: ts)

/-- A whole text: one value with whitespace around it. -/
def Document (d : Doc) (text : List UInt8) : Prop :=
  Text unescape (.element d) text

end Grammar

/-! ## What follows a value -/

/-- The bytes that may follow a value. -/
def isDelimiter (b : UInt8) : Bool :=
  isBlank b || b == byte ',' || b == byte ']' || b == byte '\x7d'

/-- The next byte, if there is one, satisfies `p`. -/
def Next (p : UInt8 → Bool) (rest : List UInt8) : Prop :=
  ∀ b ∈ rest.head?, p b = true

variable {p : UInt8 → Bool} {rest : List UInt8}

lemma Next.mono {q : UInt8 → Bool} (h : Next p rest) (hpq : ∀ b, p b = true → q b = true) :
    Next q rest :=
  fun b hb => hpq b (h b hb)

lemma next_nil (p : UInt8 → Bool) : Next p [] := by simp [Next]

lemma next_cons (h : p b = true) : Next p (b :: rest) := by simpa [Next] using h

variable {w : List UInt8}

lemma next_append (hw : ∀ b ∈ w, p b = true) (h : Next p rest) : Next p (w ++ rest) := by
  cases w with
  | nil => exact h
  | cons b w => exact next_cons (hw b (by simp))

lemma isDelimiter_of_isBlank (h : isBlank b = true) : isDelimiter b = true := by
  simp [isDelimiter, h]

/-- The bytes that occur in numbers. -/
def isNumberByte (b : UInt8) : Bool :=
  isAsciiDigit b || b == byte 'e' || b == byte 'E' || b == byte '+' || b == byte '-' ||
    b == byte '.'

lemma isNumberByte_of_isDelimiter (h : isDelimiter b = true) : (!isNumberByte b) = true := by
  simp only [isDelimiter, isBlank, Bool.or_eq_true, beq_iff_eq] at h
  rcases h with (((((rfl | rfl) | rfl) | rfl) | rfl) | rfl) | rfl <;> decide

lemma isNumberByte_of_isAsciiDigit (h : isAsciiDigit b = true) : isNumberByte b = true := by
  simp [isNumberByte, h]

lemma blank_append {v : List UInt8} (hw : Blank w) (hv : Blank v) : Blank (w ++ v) := by
  intro b hb
  rcases mem_append.mp hb with hb | hb
  · exact hw b hb
  · exact hv b hb

lemma blank_nil : Blank [] := by simp [Blank]

variable {token : List UInt8}

lemma Document.bare {unescape : List UInt8 → Option String} {d : Doc} {t : List UInt8}
    (h : Text unescape (.value d) t) : Document unescape d t := by
  have helement := Text.element blank_nil h blank_nil
  rwa [nil_append, append_nil] at helement

lemma Document.number {unescape : List UInt8 → Option String} (h : NumberToken token) :
    Document unescape (.number token) token :=
  .bare (.number h)

lemma next_blank (hw : Blank w) (h : Next isDelimiter rest) : Next isDelimiter (w ++ rest) :=
  next_append (fun b hb => isDelimiter_of_isBlank (hw b hb)) h

lemma numberToken_head (h : NumberToken token) :
    ∃ b t, token = b :: t ∧ (b = byte '-' ∨ isAsciiDigit b = true) := by
  rcases h.parts with ⟨sign, int, frac, exp, hsign, hint, -, -, rfl⟩
  rcases hsign with rfl | rfl
  · cases hint with
    | zero => exact ⟨_, _, rfl, Or.inr (by decide)⟩
    | digits hd _ _ => exact ⟨_, _, rfl, Or.inr hd⟩
  · exact ⟨_, _, rfl, Or.inl rfl⟩

lemma numberToken_start (h : NumberToken token) :
    ∃ b t, token = b :: t ∧ (b == byte '-' || isAsciiDigit b) = true := by
  rcases numberToken_head h with ⟨b, t, rfl, hb⟩
  exact ⟨b, t, rfl, by rcases hb with hb | hb <;> simp [hb]⟩

lemma numberToken_bytes (h : NumberToken token) : ∀ b ∈ token, isNumberByte b = true := by
  rcases h.parts with ⟨sign, int, frac, exp, hsign, hint, hfrac, hexp, rfl⟩
  have hdigits : ∀ ds : List UInt8, (∀ b ∈ ds, isAsciiDigit b = true) →
      ∀ b ∈ ds, isNumberByte b = true :=
    fun ds hds b hb => isNumberByte_of_isAsciiDigit (hds b hb)
  intro b hb
  simp only [mem_append] at hb
  rcases hb with hb | hb | hb | hb
  · rcases hsign with rfl | rfl
    · cases hb
    · obtain rfl := mem_singleton.mp hb
      decide
  · cases hint with
    | zero =>
      obtain rfl := mem_singleton.mp hb
      decide
    | digits hd _ hds => exact hdigits _ (forall_mem_cons.mpr ⟨hd, hds⟩) b hb
  · cases hfrac with
    | none => cases hb
    | digits hds =>
      rcases mem_cons.mp hb with rfl | hb
      · decide
      · exact hdigits _ hds b hb
  cases hexp with
  | none => cases hb
  | digits he hsign hds => ?_
  rcases mem_cons.mp hb with rfl | hb
  · rcases he with rfl | rfl <;> decide
  rcases mem_append.mp hb with hb | hb
  · rcases hsign with rfl | rfl | rfl
    · cases hb
    · obtain rfl := mem_singleton.mp hb
      decide
    · obtain rfl := mem_singleton.mp hb
      decide
  · exact hdigits _ hds b hb

/-- The bytes of a number are read up to a delimiter. -/
lemma numberToken_run {t : List UInt8} (h : NumberToken (b :: t)) (hrest : Next isDelimiter rest) :
    (t ++ rest).takeWhile isNumberByte = t :=
  takeWhile_run (forall_mem_cons.mp (numberToken_bytes h)).2
    (fun c hc => by simpa using isNumberByte_of_isDelimiter (hrest c hc))

/-! ## Tokens of a text -/

/-- The tokens that are a single byte. -/
def isPunctuation (b : UInt8) : Bool :=
  b == byte '[' || b == byte ']' || b == byte '\x7b' || b == byte '\x7d' || b == byte ',' ||
    b == byte ':'

inductive Lexeme where
  | mark (b : UInt8)
  | null
  | bool (value : Bool)
  | number
  | string (value : String)

section Lexemes

variable (unescape : List UInt8 → Option String)

/-- A token and its text. -/
inductive LexemeText : Lexeme → List UInt8 → Prop
  | mark {b : UInt8} (hb : isPunctuation b = true) : LexemeText (.mark b) [b]
  | null : LexemeText .null (ascii "null")
  | litTrue : LexemeText (.bool true) (ascii "true")
  | litFalse : LexemeText (.bool false) (ascii "false")
  | number {t : List UInt8} (h : NumberToken t) : LexemeText .number t
  | string {s : String} {t : List UInt8} (h : StringText unescape s t) : LexemeText (.string s) t

/-- A text is cut into tokens with whitespace between them. -/
inductive Lexed : List UInt8 → List (Lexeme × List UInt8) → Prop
  | nil : Lexed [] []
  | blank {b : UInt8} {rest : List UInt8} {ls : List (Lexeme × List UInt8)}
      (hb : isBlank b = true) (h : Lexed rest ls) : Lexed (b :: rest) ls
  | cons {l : Lexeme} {t rest : List UInt8} {ls : List (Lexeme × List UInt8)}
      (hl : LexemeText unescape l t) (hnext : l = .number → Next isDelimiter rest)
      (h : Lexed rest ls) : Lexed (t ++ rest) ((l, t) :: ls)

/-- The texts of the numbers among the tokens. -/
def numberTexts (ls : List (Lexeme × List UInt8)) : List (List UInt8) :=
  ls.filterMap fun l => match l.1 with | .number => some l.2 | _ => none

/-- Before a text that satisfies `P`, the text `t` is cut into `count` tokens with these
numbers. -/
def Spells (P : List UInt8 → Prop) (t : List UInt8) (numbers : List (List UInt8)) (count : Nat) :
    Prop :=
  ∃ ls, numberTexts ls = numbers ∧ ls.length = count ∧
    ∀ rest ls', P rest → Lexed unescape rest ls' → Lexed unescape (t ++ rest) (ls ++ ls')

end Lexemes

variable {unescape : List UInt8 → Option String} {P Q : List UInt8 → Prop} {t : List UInt8}
  {numbers : List (List UInt8)} {count : Nat}

namespace Spells

lemma lexeme {l : Lexeme} (hl : LexemeText unescape l t)
    (hP : l = .number → ∀ rest, P rest → Next isDelimiter rest) :
    Spells unescape P t (numberTexts [(l, t)]) 1 :=
  ⟨[(l, t)], rfl, rfl, fun rest _ hrest h => .cons hl (fun hnumber => hP hnumber rest hrest) h⟩

lemma mark (P : List UInt8 → Prop) (hb : isPunctuation b = true) : Spells unescape P [b] [] 1 :=
  lexeme (.mark hb) nofun

lemma blank (P : List UInt8 → Prop) (hw : Blank w) : Spells unescape P w [] 0 := by
  refine ⟨[], rfl, rfl, fun rest ls _ h => ?_⟩
  induction w with
  | nil => exact h
  | cons b w ih =>
    rcases forall_mem_cons.mp hw with ⟨hb, hw⟩
    exact .blank hb (ih hw)

lemma append {t' : List UInt8} {numbers' : List (List UInt8)} {count' : Nat}
    (h : Spells unescape P t numbers count) (h' : Spells unescape Q t' numbers' count')
    (hfollows : ∀ rest, Q rest → P (t' ++ rest)) :
    Spells unescape Q (t ++ t') (numbers ++ numbers') (count + count') := by
  rcases h with ⟨ls, rfl, rfl, h⟩
  rcases h' with ⟨ls', rfl, rfl, h'⟩
  refine ⟨ls ++ ls', filterMap_append, length_append, fun rest ls'' hrest hlex => ?_⟩
  rw [append_assoc, append_assoc]
  exact h _ _ (hfollows rest hrest) (h' rest ls'' hrest hlex)

lemma bracketed {opening closing : UInt8} (hopening : isPunctuation opening = true)
    (hclosing : isPunctuation closing = true) (hend : isDelimiter closing = true)
    (h : Spells unescape (Next isDelimiter) t numbers count) :
    Spells unescape (Next isDelimiter) (opening :: (t ++ [closing])) numbers (count + 2) := by
  have hinner := h.append (mark (Next isDelimiter) hclosing) (fun _ _ => next_cons hend)
  have houter := (mark (fun _ => True) hopening).append hinner (fun _ _ => trivial)
  rwa [nil_append, append_nil, Nat.add_comm 1] at houter

end Spells

/-- The number of tokens of a phrase. -/
def Part.tokens : Part → Nat
  | .value d | .element d => d.tokenCount
  | .elements items => itemTokens items
  | .member _ d => d.tokenCount + 2
  | .members ms => memberTokens ms

lemma itemTokens_cons {items : List Doc} (d : Doc) (h : Text unescape (.elements items) t) :
    itemTokens (d :: items) = d.tokenCount + (1 + itemTokens items) := by
  cases h <;> simp only [itemTokens, Nat.add_assoc]

lemma memberTokens_cons {members : List (String × Doc)} (key : String) (d : Doc)
    (h : Text unescape (.members members) t) :
    memberTokens ((key, d) :: members) = d.tokenCount + 2 + (1 + memberTokens members) := by
  cases h <;> simp only [memberTokens, Nat.add_assoc] <;> omega

/-- A phrase is cut into its tokens. -/
theorem Text.spells {part : Part} (h : Text unescape part t) :
    Spells unescape (Next isDelimiter) t part.numbers part.tokens := by
  induction h with
  | null => exact .lexeme .null nofun
  | litTrue => exact .lexeme .litTrue nofun
  | litFalse => exact .lexeme .litFalse nofun
  | number h => exact .lexeme (.number h) fun _ _ => id
  | string h => exact .lexeme (.string h) nofun
  | emptyArray hw | emptyObject hw =>
    exact .bracketed (by decide) (by decide) (by decide) (.blank _ hw)
  | array _ ih | object _ ih => exact .bracketed (by decide) (by decide) (by decide) ih
  | element hw _ hw' ih =>
    have hvalue := ih.append (.blank (Next isDelimiter) hw') (fun _ => next_blank hw')
    have hall := (Spells.blank (fun _ => True) hw).append hvalue (fun _ _ => trivial)
    rwa [nil_append, append_nil, Nat.zero_add] at hall
  | lastElement _ ih => simpa [Part.numbers, Part.tokens, itemNumbers, itemTokens] using ih
  | moreElements _ hs ih ihs =>
    have htail := (Spells.mark (fun _ => True) (b := byte ',') (by decide)).append ihs
      (fun _ _ => trivial)
    have hall := ih.append htail (fun _ _ => next_cons (by decide))
    rwa [Part.tokens, Part.tokens, ← itemTokens_cons _ hs] at hall
  | @member key d _ _ _ _ hw hk hw' _ ih =>
    have hvalue := (Spells.mark (fun _ => True) (b := byte ':') (by decide)).append ih
      (fun _ _ => trivial)
    have hcolon := (Spells.blank (fun _ => True) hw').append hvalue (fun _ _ => trivial)
    have hkey := (Spells.lexeme (P := fun _ => True) (.string hk) nofun).append hcolon
      (fun _ _ => trivial)
    have hall := (Spells.blank (fun _ => True) hw).append hkey (fun _ _ => trivial)
    have hcount : 0 + (1 + (0 + (1 + d.tokenCount))) = d.tokenCount + 2 := by omega
    rwa [Part.tokens, hcount] at hall
  | lastMember _ ih => simpa [Part.numbers, Part.tokens, memberNumbers, memberTokens] using ih
  | moreMembers _ hs ih ihs =>
    have htail := (Spells.mark (fun _ => True) (b := byte ',') (by decide)).append ihs
      (fun _ _ => trivial)
    have hall := ih.append htail (fun _ _ => next_cons (by decide))
    rwa [Part.tokens, Part.tokens, ← memberTokens_cons _ _ hs] at hall

/-- A whole text is cut into the tokens of its document. -/
lemma Document.lexed {d : Doc} {text : List UInt8} (h : Document unescape d text) :
    ∃ ls, Lexed unescape text ls ∧ numberTexts ls = d.numbers ∧ ls.length = d.tokenCount := by
  rcases Text.spells h with ⟨ls, hnumbers, hcount, hlex⟩
  have hall := hlex [] [] (next_nil _) .nil
  rw [append_nil, append_nil] at hall
  exact ⟨ls, hall, hnumbers, hcount⟩

/-- A token starts with a byte that is not whitespace. -/
lemma LexemeText.head {l : Lexeme} (h : LexemeText unescape l t) :
    ∃ b t', t = b :: t' ∧ isAsciiWhitespace b = false := by
  cases h with
  | mark hb =>
    simp only [isPunctuation, Bool.or_eq_true, beq_iff_eq] at hb
    rcases hb with ((((rfl | rfl) | rfl) | rfl) | rfl) | rfl <;> exact ⟨_, _, rfl, by decide⟩
  | null | litTrue | litFalse => exact ⟨_, _, rfl, by decide⟩
  | number h =>
    rcases numberToken_head h with ⟨b, t, rfl, hb⟩
    refine ⟨b, t, rfl, ?_⟩
    by_contra hblank
    simp only [isAsciiWhitespace, Bool.not_eq_false, Bool.or_eq_true, beq_iff_eq] at hblank
    rcases hblank with (((rfl | rfl) | rfl) | rfl) | rfl <;>
      exact absurd hb (by decide)
  | string h =>
    rcases h.body with ⟨body, -, -, rfl⟩
    exact ⟨_, _, rfl, by decide⟩

variable {ls : List (Lexeme × List UInt8)}

/-- After the whitespace there is nothing, or a token. -/
lemma Lexed.skip {bytes pre rest : List UInt8} {index : Nat} (h : Lexed unescape rest ls)
    (hat : At bytes index pre rest) :
    ∃ stop, index + ((bytes.drop index).takeWhile isAsciiWhitespace).length = stop ∧
      ((stop = bytes.length ∧ ls = []) ∨ stop ≠ bytes.length ∧ ∃ l t rest' ls' pre',
        ls = (l, t) :: ls' ∧ bytes.drop stop = t ++ rest' ∧ stop < stop + t.length ∧
          At bytes (stop + t.length) pre' rest' ∧ LexemeText unescape l t ∧
          (l = .number → Next isDelimiter rest') ∧ Lexed unescape rest' ls') := by
  rw [hat.drop_index]
  induction h generalizing index pre with
  | nil =>
    have hend : index = bytes.length := by rw [hat.input_eq, hat.index_eq, append_nil]
    exact ⟨index, rfl, .inl ⟨hend, rfl⟩⟩
  | @blank b _ _ hb _ ih =>
    have hwhite : isAsciiWhitespace b = true := by
      simp only [isBlank] at hb
      simp [isAsciiWhitespace, hb]
    rcases ih (hat.advance [b]) with ⟨stop, hstop, hrest⟩
    refine ⟨stop, ?_, hrest⟩
    rw [takeWhile_cons, if_pos hwhite, ← hstop, length_cons, length_singleton]
    omega
  | @cons l t rest ls hl hnext h _ => ?_
  rcases hl.head with ⟨b, t', rfl, hb⟩
  refine ⟨index, ?_, .inr ⟨?_, l, _, rest, ls, _, rfl, hat.drop_index, ?_, hat.advance _, hl, hnext,
    h⟩⟩
  · rw [cons_append, takeWhile_cons, if_neg (by simp [hb]), length_nil]
    rfl
  · intro hend
    cases hat.length_le_iff.mp (Nat.le_of_eq hend.symm)
  · exact Nat.lt_add_of_pos_right (Nat.succ_pos _)

lemma Lexed.eq_nil (h : Lexed unescape [] ls) : ls = [] := by
  rcases h.skip (.start []) with ⟨stop, rfl, ⟨-, hls⟩ | ⟨hne, -⟩⟩
  · exact hls
  · exact absurd rfl hne

end JsonGrammar
