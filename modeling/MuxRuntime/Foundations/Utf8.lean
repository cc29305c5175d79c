import Mathlib

/-!
# UTF-8 text as bytes

Scanners that work on the bytes of a text rely on two facts about UTF-8: an
ASCII byte never occurs inside a longer character, and the first byte of a
character tells its length.
-/

namespace Utf8

/-- The bytes of a text. -/
def encode (s : List Char) : List UInt8 :=
  s.flatMap String.utf8EncodeChar

@[simp]
lemma encode_nil : encode [] = [] := rfl

@[simp]
lemma encode_cons (c : Char) (s : List Char) :
    encode (c :: s) = String.utf8EncodeChar c ++ encode s := rfl

@[simp]
lemma encode_append (s t : List Char) : encode (s ++ t) = encode s ++ encode t := by simp [encode]

/-- Length of the character that starts with this byte. -/
def charLen (b : UInt8) : Nat :=
  if b < 0x80 then 1
  else if b < 0xe0 then 2
  else if b < 0xf0 then 3
  else 4

/-- A byte that continues a character. -/
def isContinuation (b : UInt8) : Bool :=
  0x80 ≤ b && b < 0xc0

/-- The byte of an ASCII character. -/
def byte (c : Char) : UInt8 :=
  UInt8.ofNat c.toNat

/-- The bytes of a text given as a string. -/
def ascii (s : String) : List UInt8 :=
  encode s.toList

def isAsciiDigit (b : UInt8) : Bool :=
  byte '0' ≤ b && b ≤ byte '9'

def isAsciiAlphabetic (b : UInt8) : Bool :=
  (byte 'a' ≤ b && b ≤ byte 'z') || (byte 'A' ≤ b && b ≤ byte 'Z')

def isAsciiAlphanumeric (b : UInt8) : Bool :=
  isAsciiAlphabetic b || isAsciiDigit b

def isAsciiWhitespace (b : UInt8) : Bool :=
  b == byte ' ' || b == byte '\t' || b == byte '\n' || b == byte '\r' || b == 0x0c

variable {c : Char}

lemma encodeChar_ascii (h : c.toNat < 128) : String.utf8EncodeChar c = [byte c] := by
  have hsize : c.utf8Size = 1 := by
    rw [Char.utf8Size_eq_one_iff, UInt32.le_iff_toNat_le]
    exact Nat.le_of_lt_succ h
  rw [String.utf8EncodeChar_eq_singleton hsize]
  rfl

/-- Leading bytes of two, three and four byte characters, and continuation bytes. -/
lemma leading_bytes (b : UInt8) :
    (0xc0 ≤ (b &&& 0x1f ||| 0xc0) ∧ charLen (b &&& 0x1f ||| 0xc0) = 2) ∧
    (0xc0 ≤ (b &&& 0x0f ||| 0xe0) ∧ charLen (b &&& 0x0f ||| 0xe0) = 3) ∧
    (0xc0 ≤ (b &&& 0x07 ||| 0xf0) ∧ charLen (b &&& 0x07 ||| 0xf0) = 4) ∧
    0x80 ≤ (b &&& 0x3f ||| 0x80) := by
  have hall : ∀ n : Fin 256,
      (0xc0 ≤ (UInt8.ofFin n &&& 0x1f ||| 0xc0) ∧ charLen (UInt8.ofFin n &&& 0x1f ||| 0xc0) = 2) ∧
      (0xc0 ≤ (UInt8.ofFin n &&& 0x0f ||| 0xe0) ∧ charLen (UInt8.ofFin n &&& 0x0f ||| 0xe0) = 3) ∧
      (0xc0 ≤ (UInt8.ofFin n &&& 0x07 ||| 0xf0) ∧ charLen (UInt8.ofFin n &&& 0x07 ||| 0xf0) = 4) ∧
      0x80 ≤ (UInt8.ofFin n &&& 0x3f ||| 0x80) := by decide +kernel
  simpa using hall b.toFin

/-- A character is a single ASCII byte, or a leading byte that announces its
length followed by bytes outside ASCII. -/
theorem encodeChar_cases (c : Char) : (c.toNat < 128 ∧ String.utf8EncodeChar c = [byte c]) ∨
    (128 ≤ c.toNat ∧ ∃ b rest, String.utf8EncodeChar c = b :: rest ∧ 0xc0 ≤ b ∧
      charLen b = rest.length + 1 ∧ rest ≠ [] ∧ ∀ x ∈ rest, 0x80 ≤ x) := by
  by_cases hascii : c.toNat < 128
  · exact Or.inl ⟨hascii, encodeChar_ascii hascii⟩
  refine Or.inr ⟨by omega, ?_⟩
  have hsize : c.utf8Size = 2 ∨ c.utf8Size = 3 ∨ c.utf8Size = 4 := by
    rcases Char.utf8Size_eq c with h | h
    · rw [Char.utf8Size_eq_one_iff, UInt32.le_iff_toNat_le] at h
      exact absurd (Nat.lt_succ_of_le h) hascii
    · exact h
  rcases hsize with h | h | h
  · rw [String.utf8EncodeChar_eq_cons_cons h]
    refine ⟨_, _, rfl, (leading_bytes _).1.1, (leading_bytes _).1.2, by simp, ?_⟩
    simp [(leading_bytes _).2.2.2]
  · rw [String.utf8EncodeChar_eq_cons_cons_cons h]
    refine ⟨_, _, rfl, (leading_bytes _).2.1.1, (leading_bytes _).2.1.2, by simp, ?_⟩
    simp [(leading_bytes _).2.2.2]
  · rw [String.utf8EncodeChar_eq_cons_cons_cons_cons h]
    refine ⟨_, _, rfl, (leading_bytes _).2.2.1.1, (leading_bytes _).2.2.1.2, by simp, ?_⟩
    simp [(leading_bytes _).2.2.2]

lemma charLen_ascii {b : UInt8} (h : b < 0x80) : charLen b = 1 := by simp [charLen, h]

lemma charLen_pos (b : UInt8) : 0 < charLen b := by
  unfold charLen
  split_ifs <;> omega

variable {d : Char}

lemma byte_inj (hc : c.toNat < 128) (hd : d.toNat < 128) : byte c = byte d ↔ c = d := by
  constructor
  · intro h
    have hnat : c.toNat = d.toNat := by
      have := congrArg UInt8.toNat h
      simp only [byte, UInt8.toNat_ofNat'] at this
      omega
    exact Char.toNat_inj.mp hnat
  · rintro rfl
    rfl

lemma byte_lt (h : c.toNat < 128) : byte c < 0x80 := by exact Nat.lt_of_le_of_lt (Nat.mod_le _ _) h

/-- What a byte scanner needs to know about a character: its first byte gives its
length and identifies it among the ASCII characters, and its other bytes are
outside ASCII. -/
lemma encodeChar_head (c : Char) :
    ∃ b rest, String.utf8EncodeChar c = b :: rest ∧ charLen b = rest.length + 1 ∧
      isContinuation b = false ∧ (∀ d : Char, d.toNat < 128 → (b = byte d ↔ c = d)) ∧
      ∀ x ∈ rest, 0x80 ≤ x := by
  rcases encodeChar_cases c with ⟨hc, henc⟩ | ⟨hc, b, rest, henc, hb, hlen, -, hrest⟩
  · have hbyte := byte_lt hc
    refine ⟨byte c, [], henc, by simp [charLen_ascii hbyte], ?_, fun d hd => byte_inj hc hd,
      by simp⟩
    simp only [isContinuation, Bool.and_eq_false_iff, decide_eq_false_iff_not,
      UInt8.le_iff_toNat_le]
    left
    exact Nat.not_le.mpr hbyte
  · refine ⟨b, rest, henc, hlen, ?_, fun d hd => ?_, hrest⟩
    · simp only [isContinuation, Bool.and_eq_false_iff, decide_eq_false_iff_not]
      right
      exact UInt8.not_lt.mpr hb
    · constructor
      · rintro rfl
        exact absurd (UInt8.lt_of_le_of_lt hb (byte_lt hd)) (by decide)
      · rintro rfl
        omega

/-- An ASCII byte occurs in a text exactly where its character does. -/
lemma byte_mem_encodeChar (hd : d.toNat < 128) : byte d ∈ String.utf8EncodeChar c ↔ c = d := by
  rcases encodeChar_head c with ⟨b, rest, henc, -, -, hascii, hrest⟩
  rw [henc, List.mem_cons, eq_comm, hascii d hd]
  constructor
  · intro h
    rcases h with h | h
    · exact h
    · exact absurd (UInt8.lt_of_le_of_lt (hrest _ h) (byte_lt hd)) (by decide)
  · exact Or.inl

variable {s : List Char}

lemma byte_mem_encode (hd : d.toNat < 128) : byte d ∈ encode s ↔ d ∈ s := by
  simp [encode, byte_mem_encodeChar hd]

lemma encode_getElem?_zero (hd : d.toNat < 128) :
    (encode s)[0]? = some (byte d) ↔ s.head? = some d := by
  cases s with
  | nil => simp
  | cons c s =>
    rcases encodeChar_head c with ⟨b, rest, henc, -, -, hascii, -⟩
    simp [henc, hascii d hd]

/-- An ASCII byte at the end of a text is its last character. -/
lemma getLast?_encode (hd : d.toNat < 128) (h : (encode s).getLast? = some (byte d)) :
    s.getLast? = some d := by
  rcases List.eq_nil_or_concat' s with rfl | ⟨init, c, rfl⟩
  · cases h
  rw [List.getLast?_concat]
  rw [encode_append, encode_cons, encode_nil, List.append_nil, List.getLast?_append] at h
  rcases encodeChar_head c with ⟨b, tail, henc, -, -, hascii, htail⟩
  rw [henc] at h
  rcases List.eq_nil_or_concat' tail with rfl | ⟨front, x, rfl⟩
  · have hb : b = byte d := by simpa using h
    rw [(hascii d hd).mp hb]
  have hx : x = byte d := by
    rw [← List.cons_append, List.getLast?_concat] at h
    simpa using h
  have hlarge := htail x (by simp)
  rw [hx] at hlarge
  exact absurd (UInt8.lt_of_le_of_lt hlarge (byte_lt hd)) (by decide)

end Utf8
