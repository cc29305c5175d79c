import MuxRuntime.Foundations.Registry
import MuxRuntime.Json.Parse
import MuxRuntime.Values.Snapshot

/-!
# JSON documents as runtime values

A parsed document becomes a runtime value made of lists and maps. A number whose
token is retained becomes an object that holds a handle into the table of number
tokens; its type registers a copy callback and no comparison.

Floats of a document are given by their bits, as those of a value are.
-/

namespace MuxRuntime

variable {env : Runtime}

/-! ## Numbers -/

/-- The object type of the numbers with a retained token. -/
structure JsonNumberType (env : Runtime) where
  id : UInt32
  copyJsonNumber : List UInt8 → List UInt8
  registered : env.registry id = some
    { size := 8
      copy := some copyJsonNumber
      shared := false
      equals := none
      compare := none
      hash := none }

/-- Allocation state together with the table of number tokens. -/
structure JsonHeap where
  heap : Heap
  nextJsonNumber : Nat
  jsonNumbers : Registry (List UInt8)

/-- The bytes of a handle in an object's storage. -/
def handleBytes (handle : Nat) : List UInt8 :=
  (List.range 8).map (fun i => UInt8.ofNat (handle / 256 ^ i))

/-- The handle that an object's storage holds. -/
def handleOfBytes (data : List UInt8) : Nat :=
  data.foldr (fun b acc => b.toNat + 256 * acc) 0

def jsonNumberHandle (T : JsonNumberType env) (h : JsonHeap) : Value → Option Nat
  | .object o =>
    if o.typeId != T.id then none
    else if (h.jsonNumbers (handleOfBytes o.data)).isSome then some (handleOfBytes o.data)
    else none
  | _ => none

def jsonNumberRaw (T : JsonNumberType env) (h : JsonHeap) (value : Value) : Option (List UInt8) :=
  (jsonNumberHandle T h value).bind h.jsonNumbers

/-- A new object for a number token; the counter starts again at one when it is
used up. -/
def jsonNumberValue (T : JsonNumberType env) (raw : List UInt8) (h : JsonHeap) : Value × JsonHeap :=
  let handle := h.nextJsonNumber
  let nextJsonNumber := if handle + 1 < 2 ^ 63 then handle + 1 else 1
  match allocObject env h.heap T.id with
  | (none, heap) => (.unit, { heap, nextJsonNumber, jsonNumbers := h.jsonNumbers.remove handle })
  | (some object, heap) =>
    (.object { object with data := handleBytes handle },
      { heap, nextJsonNumber, jsonNumbers := h.jsonNumbers.insert handle raw })

/-! ## From documents to values -/

def I64.toInt64 (i : I64) : Int64 :=
  Int64.ofInt i.val

def I64.ofInt64 (i : Int64) : I64 :=
  ⟨i.toInt, Int64.le_toInt i, Int64.toInt_lt i⟩

mutual

/-- The value of a document. -/
def jsonToValue (T : JsonNumberType env) : Json UInt64 → JsonHeap → Value × JsonHeap
  | .null, h => (.unit, h)
  | .bool b, h => (.bool b, h)
  | .int i, h => (.int i.toInt64, h)
  | .float f, h => (.float f, h)
  | .number number, h => jsonNumberValue T number.raw h
  | .string s, h => (.string s, h)
  | .array a, h =>
    let (items, h) := jsonToItems T a h
    (.list items, h)
  | .object m, h =>
    let (s, heap) := h.heap.newHasher
    let (entries, h) := jsonToEntries T s m [] { h with heap }
    (.map s entries, h)

def jsonToItems (T : JsonNumberType env) : List (Json UInt64) → JsonHeap → List Value × JsonHeap
  | [], h => ([], h)
  | j :: items, h =>
    let (value, h) := jsonToValue T j h
    let (values, h) := jsonToItems T items h
    (value :: values, h)

/-- The loop that fills a map with the members of an object. -/
def jsonToEntries (T : JsonNumberType env) (s : RandomState) :
    List (String × Json UInt64) → List (Value × Value) → JsonHeap → List (Value × Value) × JsonHeap
  | [], map, h => (map, h)
  | (k, v) :: members, map, h =>
    let (value, h) := jsonToValue T v h
    jsonToEntries T s members (Value.mapInsert env s map (.string k) value) h

end

/-! ## From values to documents -/

/-- The exponent of a double whose value is not finite is all ones. -/
def floatIsFinite (bits : UInt64) : Bool :=
  (bits >>> 52) &&& 0x7FF != 0x7FF

def floatIsNan (bits : UInt64) : Bool :=
  !floatIsFinite bits && bits &&& 0xFFFFFFFFFFFFF != 0

mutual

/-- The document of a value. -/
def valueToJson (T : JsonNumberType env) (h : JsonHeap) : Value → Except String (Json UInt64)
  | .unit => .ok .null
  | .bool b => .ok (.bool b)
  | .int i => .ok (.int (I64.ofInt64 i))
  | .float f =>
    if floatIsFinite f then .ok (.float f)
    else if floatIsNan f then .error "cannot serialize NaN to JSON"
    else .error "cannot serialize infinity to JSON"
  | .string s => .ok (.string s)
  | .list list => do
    let items ← itemsToJson T h list
    .ok (.array items)
  | .map _ entries => do
    let members ← entriesToJson T h entries []
    .ok (.object members)
  | .object o =>
    match jsonNumberRaw T h (.object o) with
    | some raw => .ok (.number { raw })
    | none => .error "unsupported value type for JSON conversion"
  | _ => .error "unsupported value type for JSON conversion"

def itemsToJson (T : JsonNumberType env) (h : JsonHeap) :
    List Value → Except String (List (Json UInt64))
  | [] => .ok []
  | v :: items => do
    let j ← valueToJson T h v
    let rest ← itemsToJson T h items
    .ok (j :: rest)

def entriesToJson (T : JsonNumberType env) (h : JsonHeap) :
    List (Value × Value) → List (String × Json UInt64) → Except String (List (String × Json UInt64))
  | [], members => .ok members
  | (k, v) :: entries, members =>
    match k with
    | .string key => do
      let j ← valueToJson T h v
      entriesToJson T h entries (AssocList.insert members key j)
    | _ => .error "map contains non-string key, cannot convert to JSON"

end

/-! ## A runtime with the type of JSON numbers -/

def sampleJsonRuntime : Runtime :=
  sampleRuntime (fun typeId =>
    if typeId = 1 then
      some
        { size := 8
          copy := some id
          shared := false
          equals := none
          compare := none
          hash := none }
    else none)

def sampleNumberType : JsonNumberType sampleJsonRuntime :=
  { id := 1, copyJsonNumber := id, registered := rfl }

def JsonHeap.initial : JsonHeap :=
  { heap := { next := 0, hasher := ⟨0, 0⟩ }
    nextJsonNumber := 1
    jsonNumbers := fun _ => none }

end MuxRuntime
