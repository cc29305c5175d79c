import MuxRuntime.Foundations.Str
import MuxRuntime.Json.Convert

/-!
# JSON pointers, patches and merge patches

Executable model of the functions that read and change a document through
pointers. A function that changes a value in place returns the changed value; on
an error nothing has been changed. `none` stands for a null pointer.
-/

namespace MuxRuntime

open Value

variable (env : Runtime)

/-! ## Maps with one entry removed -/

/-- Remove the entry of a key. -/
def Value.mapRemove (s : RandomState) : List (Value × Value) → Value → List (Value × Value)
  | [], _ => []
  | e :: entries, k => if keyMatches env s e.1 k then entries else e :: mapRemove s entries k

/-! ## Pointer texts -/

/-- The loop over the characters of a reference token. -/
def unescapeToken : List Char → Except String (List Char)
  | [] => .ok []
  | '~' :: '0' :: chars => (unescapeToken chars).map ('~' :: ·)
  | '~' :: '1' :: chars => (unescapeToken chars).map ('/' :: ·)
  | '~' :: _ => .error "json pointer contains an invalid '~' escape"
  | ch :: chars => (unescapeToken chars).map (ch :: ·)

/-- The loop over the parts between the slashes. -/
def decodeTokens : List (List Char) → List String → Except String (List String)
  | [], tokens => .ok tokens
  | raw :: parts, tokens =>
    if maxJsonTokens ≤ tokens.length then
      .error "JSON Pointer exceeds the one-million-token limit"
    else
      match unescapeToken raw with
      | .error e => .error e
      | .ok token => decodeTokens parts (tokens ++ [String.ofList token])

def decodePointerText (text : String) : Except String (List String) :=
  if maxJsonInputBytes < text.utf8ByteSize then
    .error "JSON Pointer exceeds the 16 MiB input limit"
  else
    match text.toList with
    | [] => .ok []
    | '/' :: rest => decodeTokens (rest.splitOn '/') []
    | _ => .error "json pointer must be empty or start with '/'"

/-! ## Walking along a pointer -/

def usizeMax : Nat :=
  2 ^ 64 - 1

/-- The spelling that an index must not have. -/
def notCanonical (token : String) : Bool :=
  token.isEmpty || (1 < token.utf8ByteSize && token.toList.head? == some '0')

/-- The index of a token. -/
def pointerIndex (token : String) (length : Nat) (allowAppend : Bool) :
    Except String (Option (Fin length)) :=
  if allowAppend && token == "-" then .ok none
  else if notCanonical token then .error "json pointer array index is not canonical"
  else
    match Str.fromStrRadix usizeMax 10 token.toList with
    | none => .error "json pointer array index is invalid"
    | some index =>
      if h : index < length then .ok (some ⟨index, h⟩)
      else .error "json pointer array index is out of bounds"

def fieldMissing (token : String) : String :=
  "json pointer object field '" ++ token ++ "' is missing"

/-- The located value. -/
def pointerGet : Value → List String → Except String Value
  | value, [] => .ok (value.clone env)
  | .map s entries, token :: rest =>
    match mapGet env (eq env) s entries (.string token) with
    | none => .error (fieldMissing token)
    | some child => pointerGet child rest
  | .list items, token :: rest =>
    match pointerIndex token items.length false with
    | .error e => .error e
    | .ok none => .error "JSON Pointer append is not valid for reads"
    | .ok (some index) => pointerGet (items.get index) rest
  | _, _ :: _ => .error "json pointer traverses a non-container value"

def pointerSet : Value → List String → Value → Except String Value
  | _, [], replacement => .ok (replacement.clone env)
  | .map s entries, token :: rest, replacement =>
    if rest.isEmpty then
      .ok (.map s (mapInsert env s entries (.string token) (replacement.clone env)))
    else
      match mapGet env (eq env) s entries (.string token) with
      | none => .error (fieldMissing token)
      | some child =>
        match pointerSet child rest replacement with
        | .error e => .error e
        | .ok child => .ok (.map s (mapInsert env s entries (.string token) child))
  | .list items, token :: rest, replacement =>
    match pointerIndex token items.length rest.isEmpty with
    | .error e => .error e
    | .ok none => .ok (.list (items ++ [replacement.clone env]))
    | .ok (some index) =>
      if rest.isEmpty then .ok (.list (items.set index (replacement.clone env)))
      else
        match pointerSet (items.get index) rest replacement with
        | .error e => .error e
        | .ok child => .ok (.list (items.set index child))
  | _, _ :: _, _ => .error "json pointer traverses a non-container value"

/-- The place for an addition to a list at the last token of a path. The index is
read here on its own, and its spelling is checked only after it was read. -/
def insertIndex (token : String) (length : Nat) : Except String (Option Nat) :=
  if token == "-" then .ok none
  else
    match Str.fromStrRadix usizeMax 10 token.toList with
    | none => .error "json patch array index is invalid"
    | some index =>
      if notCanonical token then .error "json patch array index is not canonical"
      else if length < index then .error "json patch array index is out of bounds"
      else .ok (some index)

def insertItem (items : List Value) (token : String) (addition : Value) :
    Except String (List Value) :=
  match insertIndex token items.length with
  | .error e => .error e
  | .ok none => .ok (items ++ [addition])
  | .ok (some index) => .ok (items.insertIdx index addition)

def pointerAdd : Value → List String → Value → Except String Value
  | _, [], addition => .ok (addition.clone env)
  | .map s entries, [token], addition =>
    .ok (.map s (mapInsert env s entries (.string token) (addition.clone env)))
  | .list items, [token], addition => (insertItem items token (addition.clone env)).map .list
  | _, [_], _ => .error "json patch path traverses a non-container value"
  | .map s entries, token :: rest, addition =>
    match mapGet env (eq env) s entries (.string token) with
    | none => .error ("json patch object field '" ++ token ++ "' is missing")
    | some child =>
      match pointerAdd child rest addition with
      | .error e => .error e
      | .ok child => .ok (.map s (mapInsert env s entries (.string token) child))
  | .list items, token :: rest, addition =>
    match pointerIndex token items.length false with
    | .error e => .error e
    | .ok none => .error "JSON Patch append is not valid for nested paths"
    | .ok (some index) =>
      match pointerAdd (items.get index) rest addition with
      | .error e => .error e
      | .ok child => .ok (.list (items.set index child))
  | _, _ :: _, _ => .error "json patch path traverses a non-container value"

/-- The removed value and the value without it. -/
def pointerRemove : Value → List String → Except String (Value × Value)
  | _, [] => .error "removing the JSON document root is not supported"
  | .map s entries, token :: rest =>
    match mapGet env (eq env) s entries (.string token) with
    | none => .error (fieldMissing token)
    | some child =>
      if rest.isEmpty then .ok (child, .map s (mapRemove env s entries (.string token)))
      else
        match pointerRemove child rest with
        | .error e => .error e
        | .ok (removed, child) =>
          .ok (removed, .map s (mapInsert env s entries (.string token) child))
  | .list items, token :: rest =>
    match pointerIndex token items.length false with
    | .error e => .error e
    | .ok none => .error "JSON Pointer append is not valid for removals"
    | .ok (some index) =>
      if rest.isEmpty then .ok (items.get index, .list (items.eraseIdx index))
      else
        match pointerRemove (items.get index) rest with
        | .error e => .error e
        | .ok (removed, child) => .ok (removed, .list (items.set index child))
  | _, _ :: _ => .error "json pointer traverses a non-container value"

/-! ## Patches -/

/-- A required field of an operation. -/
def patchField (s : RandomState) (fields : List (Value × Value)) (name : String) :
    Except String Value :=
  match mapGet env (eq env) s fields (.string name) with
  | none => .error ("JSON Patch operation is missing '" ++ name ++ "'")
  | some value => .ok value

/-- A required field that holds a text. -/
def patchText (s : RandomState) (fields : List (Value × Value)) (name : String) :
    Except String String :=
  match patchField env s fields name with
  | .error e => .error e
  | .ok (.string text) => .ok text
  | .ok _ => .error ("JSON Patch '" ++ name ++ "' must be a string")

/-- Apply one operation; the result is the changed document. -/
def applyJsonPatchOperation (document operation : Value) : Except String Value := do
  match operation with
  | .map s fields =>
    let op ← patchText env s fields "op"
    let path ← patchText env s fields "path"
    let tokens ← decodePointerText path
    match op with
    | "add" =>
      let value ← patchField env s fields "value"
      pointerAdd env document tokens value
    | "remove" =>
      let (_, document) ← pointerRemove env document tokens
      .ok document
    | "replace" =>
      let _ ← pointerGet env document tokens
      let value ← patchField env s fields "value"
      pointerSet env document tokens value
    | "copy" =>
      let source ← patchText env s fields "from"
      let sourceTokens ← decodePointerText source
      let source ← pointerGet env document sourceTokens
      pointerAdd env document tokens source
    | "move" =>
      let source ← patchText env s fields "from"
      let sourceTokens ← decodePointerText source
      if sourceTokens.length < tokens.length && sourceTokens.isPrefixOf tokens then
        .error "JSON Patch cannot move a value into its own child"
      else
        let source ← pointerGet env document sourceTokens
        let (_, document) ← pointerRemove env document sourceTokens
        pointerAdd env document tokens source
    | "test" =>
      let located ← pointerGet env document tokens
      let value ← patchField env s fields "value"
      if !eq env located value then .error "JSON Patch test operation failed"
      else .ok document
    | _ => .error ("unsupported JSON Patch operation '" ++ op ++ "'")
  | _ => .error "each JSON Patch operation must be an object"

/-- The loop over the operations of a patch. -/
def applyOperations : Value → List Value → Except String Value
  | candidate, [] => .ok candidate
  | candidate, operation :: operations =>
    match applyJsonPatchOperation env candidate operation with
    | .error e => .error e
    | .ok candidate => applyOperations candidate operations

variable {env}

/-- Whether a value has a JSON representation. -/
def isRepresentable (T : JsonNumberType env) (h : JsonHeap) (value : Value) : Bool :=
  (valueToJson T h value).isOk

def muxJsonApplyPatch (T : JsonNumberType env) (h : JsonHeap) (val patch : Option Value) :
    Option Value × Except String Unit :=
  match val, patch with
  | none, _ => (val, .error "json patch received a null document")
  | some document, some (.list operations) =>
    if operations.any (fun operation => !isRepresentable T h operation) then
      (val, .error "patch contains a value that is not representable as JSON")
    else
      match applyOperations env (document.clone env) operations with
      | .error e => (val, .error e)
      | .ok candidate => (some candidate, .ok ())
  | some _, _ => (val, .error "json patch must be a list of operations")

/-! ## Merge patches -/

variable (env)

mutual

/-- The patched target. A target that is no map is replaced by a map with the
hasher `fresh` before the members of the patch are merged into it. -/
def applyMergePatch (fresh : RandomState) (target : Value) : Value → Value
  | .map _ patchEntries =>
    match target with
    | .map s entries => .map s (mergeEntries fresh s entries patchEntries)
    | _ => .map fresh (mergeEntries fresh fresh [] patchEntries)
  | patch => patch.clone env

/-- The loop over the members of a patch. -/
def mergeEntries (fresh s : RandomState) (entries : List (Value × Value)) :
    List (Value × Value) → List (Value × Value)
  | [] => entries
  | (key, patchValue) :: patchEntries =>
    match key with
    | .string name =>
      match patchValue with
      | .unit => mergeEntries fresh s (mapRemove env s entries (.string name)) patchEntries
      | patchValue =>
        match mapGet env (eq env) s entries (.string name) with
        | some existing =>
          mergeEntries fresh s
            (mapInsert env s entries (.string name)
              (applyMergePatch fresh existing patchValue)) patchEntries
        | none =>
          mergeEntries fresh s
            (mapInsert env s entries (.string name) (patchValue.clone env)) patchEntries
    | _ => mergeEntries fresh s entries patchEntries

end

variable {env}

def muxJsonMergePatch (T : JsonNumberType env) (h : JsonHeap) (val patch : Option Value) :
    Option Value × Except String Unit :=
  match val, patch with
  | none, _ => (val, .error "json merge patch received a null document")
  | some _, none => (val, .error "json merge patch received a null patch")
  | some document, some patch =>
    if !isRepresentable T h patch then (val, .error "patch is not representable as JSON")
    else (some (applyMergePatch env h.heap.hasher document patch), .ok ())

end MuxRuntime
