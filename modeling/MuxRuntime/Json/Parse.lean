import MuxRuntime.Foundations.AssocList
import MuxRuntime.Foundations.JsonGrammar
import MuxRuntime.Foundations.Loop

/-!
# Parsing and rendering JSON

Executable model of the JSON parser and printer. The deserializer drives a
visitor that only learns that a number was seen; the spelling of the numbers is
collected by a separate scan of the text and associated by position. The library
is a parameter: `Serde`.
-/

namespace MuxRuntime

open Utf8 Loop Cursor JsonGrammar

/-! ## Values -/

/-- A 64-bit signed integer. -/
structure I64 where
  val : Int
  inRange : -2 ^ 63 ≤ val ∧ val < 2 ^ 63
deriving DecidableEq

def I64.ofInt? (n : Int) : Option I64 :=
  if h : -2 ^ 63 ≤ n ∧ n < 2 ^ 63 then some ⟨n, h⟩ else none

/-- A JSON number whose original token is retained exactly. -/
structure JsonNumber where
  raw : List UInt8
deriving DecidableEq

/-- A parsed JSON document over the floating-point type `F`. -/
inductive Json (F : Type) where
  | null
  | bool (value : Bool)
  | int (value : I64)
  | float (value : F)
  | number (value : JsonNumber)
  | string (value : String)
  | array (values : List (Json F))
  | object (values : List (String × Json F))

/-- The parse tree between the visitor and the JSON model: a number is its position
in the list of number tokens. -/
inductive ParsedJson where
  | null
  | bool (value : Bool)
  | number (index : Nat)
  | string (value : String)
  | array (values : List ParsedJson)
  | object (values : List (String × ParsedJson))

/-- What happens to an object that contains a key more than once. -/
inductive JsonDuplicatePolicy where
  | reject
  | first
  | last
deriving DecidableEq, Repr

/-! ## The JSON library -/

/-- The callback the deserializer makes for a number. -/
inductive NumberVisit (F : Type) where
  | i64
  | u64
  | f64 (value : F)

/-- The numbers of the library. -/
inductive SerdeNumber (F : Type) where
  | posInt (value : Nat)
  | negInt (value : Int)
  | float (value : F)

/-- The errors the visitor raises. -/
inductive VisitError where
  | notFinite
  | duplicateKey (key : String)

def VisitError.message : VisitError → String
  | notFinite => "JSON numbers must be finite"
  | duplicateKey key => "duplicate object key '" ++ key ++ "'"

/-- The functions of the JSON library that the runtime calls. -/
structure Serde (F : Type) where
  /-- The string between two quotes. -/
  unescape : List UInt8 → Option String
  /-- The document of an accepted text. -/
  deserialize : List UInt8 → Option Doc
  /-- The error for a text that is not accepted. -/
  failure : JsonDuplicatePolicy → List UInt8 → String
  /-- The text of a visitor's error together with its position. -/
  located : List UInt8 → String → String
  /-- The callback made for a number token. -/
  visited : List UInt8 → NumberVisit F
  isFinite : F → Bool
  /-- `str::parse` at the library's number type. -/
  parseNumber : List UInt8 → Option (SerdeNumber F)
  asF64 : SerdeNumber F → Option F
  /-- `Number::to_string`. -/
  displayNumber : SerdeNumber F → List UInt8
  /-- `serde_json::to_string` of a number. -/
  serializeNumber : SerdeNumber F → Option (List UInt8)
  /-- `serde_json::to_string` of a string. -/
  serializeString : String → Option (List UInt8)

variable {F : Type}

/-- `Number::from_f64`: only finite values are numbers. -/
def Serde.numberFromF64 (S : Serde F) (value : F) : Option (SerdeNumber F) :=
  if S.isFinite value then some (.float value) else none

/-! ## Scanning the text -/

/-- Why a text is refused. -/
inductive JsonError where
  | inputTooLarge
  | tooManyTokens
  | deserializer (text : String)
  | numberAccounting
deriving DecidableEq

def JsonError.message : JsonError → String
  | inputTooLarge => "JSON input exceeds the 16 MiB limit"
  | tooManyTokens => "JSON token stream exceeds the one-million-token limit"
  | deserializer text => text
  | numberAccounting => "JSON number token accounting failed"

def maxJsonInputBytes : Nat :=
  16 * 1024 * 1024

def maxJsonTokens : Nat :=
  1000000

def scanAsciiDigits (bytes : List UInt8) (index : Nat) : Nat :=
  index + ((bytes.drop index).takeWhile isAsciiDigit).length

def scanJsonInteger (bytes : List UInt8) (index : Nat) : Nat :=
  let index := if bytes[index]? == some (byte '-') then index + 1 else index
  if bytes[index]? == some (byte '0') then index + 1 else scanAsciiDigits bytes index

def scanJsonFraction (bytes : List UInt8) (index : Nat) : Nat :=
  if bytes[index]? != some (byte '.') then index
  else
    let digitsStart := index + 1
    let stop := scanAsciiDigits bytes digitsStart
    if digitsStart = stop then index else stop

def scanJsonExponent (bytes : List UInt8) (index : Nat) : Nat :=
  if !(bytes[index]?.any (fun b => b == byte 'e' || b == byte 'E')) then index
  else
    let digitsStart :=
      if bytes[index + 1]?.any (fun b => b == byte '+' || b == byte '-') then index + 2
      else index + 1
    let stop := scanAsciiDigits bytes digitsStart
    if digitsStart = stop then index else stop

/-- The end of the number that starts at `start`. -/
def scanJsonNumber (bytes : List UInt8) (start : Nat) : Nat :=
  scanJsonExponent bytes (scanJsonFraction bytes (scanJsonInteger bytes start))

/-- How far a string reaches after its opening quote. A backslash at the very end
counts for two bytes, as in the source. -/
def stringTail : List UInt8 → Nat
  | [] => 0
  | [b] => if b == byte '\\' then 2 else 1
  | b :: c :: rest =>
    if b == byte '\\' then stringTail rest + 2
    else if b == byte '\x22' then 1
    else stringTail (c :: rest) + 1

def skipJsonString (bytes : List UInt8) (index : Nat) : Nat :=
  index + 1 + stringTail (bytes.drop (index + 1))

structure NumberScan where
  index : Nat
  numbers : List (List UInt8)

def NumberScan.isDone (bytes : List UInt8) (st : NumberScan) : Bool :=
  bytes.length ≤ st.index

def numberScanBody (bytes : List UInt8) (st : NumberScan) : Except JsonError NumberScan :=
  match bytes[st.index]? with
  | none => .ok st
  | some b =>
    if b == byte '\x22' then .ok { st with index := skipJsonString bytes st.index }
    else if b == byte '-' || isAsciiDigit b then
      let stop := scanJsonNumber bytes st.index
      .ok { index := stop, numbers := st.numbers ++ [slice bytes st.index stop] }
    else .ok { st with index := st.index + 1 }

/-- The number tokens of a text, found without parsing it. -/
def scanJsonNumbers (bytes : List UInt8) : Except JsonError (List (List UInt8)) := do
  let st ← run (NumberScan.isDone bytes) (numberScanBody bytes) bytes.length
    { index := 0, numbers := [] }
  .ok st.numbers

/-! ## The token budget -/

/-- How far a string token reaches after its opening quote. -/
def stringTokenTail : Bool → List UInt8 → Nat
  | _, [] => 0
  | escaped, b :: rest =>
    if escaped then stringTokenTail false rest + 1
    else if b == byte '\\' then stringTokenTail true rest + 1
    else if b == byte '\x22' then 1
    else stringTokenTail false rest + 1

structure TokenScan where
  index : Nat
  count : Nat

def TokenScan.isDone (bytes : List UInt8) (st : TokenScan) : Bool :=
  bytes.length ≤ st.index

/-- The length of the token at the front of a non-empty text. -/
def tokenLength (text : List UInt8) : Nat :=
  match text with
  | [] => 0
  | b :: rest =>
    if b == byte '\x22' then stringTokenTail false rest + 1
    else if b == byte '-' || isAsciiDigit b then (rest.takeWhile isNumberByte).length + 1
    else if (ascii "true").isPrefixOf text then 4
    else if (ascii "false").isPrefixOf text then 5
    else if (ascii "null").isPrefixOf text then 4
    else 1

def tokenScanBody (bytes : List UInt8) (st : TokenScan) : Except JsonError TokenScan :=
  let index := st.index + ((bytes.drop st.index).takeWhile isAsciiWhitespace).length
  if index = bytes.length then .ok { st with index := index }
  else if maxJsonTokens ≤ st.count then .error .tooManyTokens
  else .ok { index := index + tokenLength (bytes.drop index), count := st.count + 1 }

/-- Check the lexical token budget. -/
def enforceJsonTokenLimit (bytes : List UInt8) : Except JsonError Unit := do
  let _ ← run (TokenScan.isDone bytes) (tokenScanBody bytes) bytes.length
    { index := 0, count := 0 }
  .ok ()

/-! ## The visitor -/

section Library

variable (S : Serde F)

/-- Whether the visitor accepts a number: floats must be finite. -/
def visitNumber (token : List UInt8) : Except VisitError Unit :=
  match S.visited token with
  | .i64 | .u64 => .ok ()
  | .f64 value => if S.isFinite value then .ok () else .error .notFinite

mutual

/-- Visit a document, numbering its numbers from `index` on. -/
def visit (policy : JsonDuplicatePolicy) : Doc → Nat → Except VisitError (ParsedJson × Nat)
  | .null, index => .ok (.null, index)
  | .bool value, index => .ok (.bool value, index)
  | .number token, index => do
    visitNumber S token
    .ok (.number index, index + 1)
  | .string value, index => .ok (.string value, index)
  | .array items, index => do
    let (values, index) ← visitSeq policy items [] index
    .ok (.array values, index)
  | .object members, index => do
    let (values, index) ← visitMap policy members [] index
    .ok (.object values, index)

def visitSeq (policy : JsonDuplicatePolicy) :
    List Doc → List ParsedJson → Nat → Except VisitError (List ParsedJson × Nat)
  | [], values, index => .ok (values, index)
  | d :: items, values, index => do
    let (value, index) ← visit policy d index
    visitSeq policy items (values ++ [value]) index

/-- A discarded duplicate is visited too, so it consumes its numbers. -/
def visitMap (policy : JsonDuplicatePolicy) :
    List (String × Doc) → List (String × ParsedJson) → Nat →
      Except VisitError (List (String × ParsedJson) × Nat)
  | [], values, index => .ok (values, index)
  | (key, d) :: members, values, index =>
    let duplicate := AssocList.contains values key
    if duplicate && policy == .reject then .error (.duplicateKey key)
    else do
      let (value, index) ← visit policy d index
      if duplicate && policy == .first then visitMap policy members values index
      else visitMap policy members (AssocList.insert values key value) index

end

/-! ## Conversion -/

/-- The value of a non-empty run of digits. -/
def digitsValue (digits : List UInt8) : Option Nat :=
  if digits.isEmpty || !digits.all isAsciiDigit then none
  else some (digits.foldl (fun n b => n * 10 + (b.toNat - 48)) 0)

/-- `str::parse::<i64>`: an optional sign and digits, within the range. -/
def parseI64 (raw : List UInt8) : Option I64 :=
  match raw with
  | [] => none
  | b :: rest =>
    if b == byte '-' then (digitsValue rest).bind (fun n => I64.ofInt? (-n))
    else if b == byte '+' then (digitsValue rest).bind (fun n => I64.ofInt? n)
    else (digitsValue raw).bind (fun n => I64.ofInt? n)

/-- `i64::to_string`. -/
def I64.toText (value : I64) : List UInt8 :=
  ascii (toString value.val)

/-- The canonical case of a number token with a fraction or an exponent. -/
def parsedReal (raw : List UInt8) : Json F :=
  match S.parseNumber raw with
  | none => .number ⟨raw⟩
  | some number =>
    match S.asF64 number with
    | none => .number ⟨raw⟩
    | some value => if S.serializeNumber number = some raw then .float value else .number ⟨raw⟩

/-- A token without fraction or exponent must not become a float. -/
def isReal (raw : List UInt8) : Bool :=
  raw.any (fun b => b == byte '.' || b == byte 'e' || b == byte 'E')

def parsedNumber (raw : List UInt8) : Json F :=
  match (parseI64 raw).filter (fun value => value.toText == raw) with
  | some value => .int value
  | none => if !isReal raw then .number ⟨raw⟩ else parsedReal S raw

mutual

def convertParsedValue (numberTokens : List (List UInt8)) : ParsedJson → Except JsonError (Json F)
  | .null => .ok .null
  | .bool b => .ok (.bool b)
  | .number index =>
    match numberTokens[index]? with
    | some raw => .ok (parsedNumber S raw)
    | none => .error .numberAccounting
  | .string s => .ok (.string s)
  | .array values => do
    let values ← convertItems numberTokens values
    .ok (.array values)
  | .object values => do
    let values ← convertMembers numberTokens values []
    .ok (.object values)

def convertItems (numberTokens : List (List UInt8)) :
    List ParsedJson → Except JsonError (List (Json F))
  | [] => .ok []
  | value :: values => do
    let value ← convertParsedValue numberTokens value
    let values ← convertItems numberTokens values
    .ok (value :: values)

def convertMembers (numberTokens : List (List UInt8)) :
    List (String × ParsedJson) → List (String × Json F) → Except JsonError (List (String × Json F))
  | [], m => .ok m
  | (key, value) :: values, m => do
    let value ← convertParsedValue numberTokens value
    convertMembers numberTokens values (AssocList.insert m key value)

end

def Json.parseWithPolicy (policy : JsonDuplicatePolicy) (input : List UInt8) :
    Except JsonError (Json F) :=
  if input.length > maxJsonInputBytes then .error .inputTooLarge
  else do
    enforceJsonTokenLimit input
    let numberTokens ← scanJsonNumbers input
    match S.deserialize input with
    | none => .error (.deserializer (S.failure policy input))
    | some doc =>
      match visit S policy doc 0 with
      | .error e => .error (.deserializer (S.located input e.message))
      | .ok (value, numberIndex) =>
        if numberIndex ≠ numberTokens.length then .error .numberAccounting
        else convertParsedValue S numberTokens value

/-- Duplicates are rejected. -/
def Json.parse (input : List UInt8) : Except JsonError (Json F) :=
  Json.parseWithPolicy S .reject input

/-! ## Rendering -/

def renderKey (key : String) : List UInt8 :=
  (S.serializeString key).getD (ascii "\"\"")

/-- `count` spaces. -/
def spaces (count : Nat) : List UInt8 :=
  List.replicate count (byte ' ')

/-- Brackets around the entries, on lines of their own when there is an indent. -/
def renderEntries (opening closing : UInt8) (indent : Option Nat) (depth : Nat)
    (entries : List (List UInt8)) : List UInt8 :=
  match indent with
  | none => [opening] ++ List.intercalate (ascii ",") entries ++ [closing]
  | some width =>
    let pad := spaces (width * (depth + 1))
    let closePad := spaces (width * depth)
    [opening] ++ ascii "\n" ++
      List.intercalate (ascii ",\n") (entries.map (fun entry => pad ++ entry)) ++
      ascii "\n" ++ closePad ++ [closing]

mutual

def renderJson (indent : Option Nat) (depth : Nat) : Json F → List UInt8
  | .null => ascii "null"
  | .bool value => ascii (toString value)
  | .int value => value.toText
  | .float value =>
    match S.numberFromF64 value with
    | some number => S.displayNumber number
    | none => ascii "null"
  | .number number => number.raw
  | .string value => (S.serializeString value).getD (ascii "null")
  | .array values =>
    if values.isEmpty then ascii "[]"
    else renderEntries (byte '[') (byte ']') indent depth (renderItems indent (depth + 1) values)
  | .object values =>
    if values.isEmpty then [byte '\x7b', byte '\x7d']
    else
      renderEntries (byte '\x7b') (byte '\x7d') indent depth
        (renderMembers indent (depth + 1) values)

def renderItems (indent : Option Nat) (depth : Nat) : List (Json F) → List (List UInt8)
  | [] => []
  | value :: values => renderJson indent depth value :: renderItems indent depth values

def renderMembers (indent : Option Nat) (depth : Nat) : List (String × Json F) → List (List UInt8)
  | [] => []
  | (key, value) :: values =>
    (renderKey S key ++ ascii (if indent.isSome then ": " else ":") ++
      renderJson indent depth value) :: renderMembers indent depth values

end

def Json.stringify (indent : Option Nat) (value : Json F) : List UInt8 :=
  renderJson S indent 0 value

end Library

end MuxRuntime
