import MuxRuntime.Foundations.Search
import MuxRuntime.Foundations.Reads
import MuxRuntime.Foundations.Str
import MuxRuntime.Foundations.Cursor
import MuxRuntime.Foundations.Loop

/-!
# The HTTP/1 request reader

A request is read from a socket that hands out its bytes in pieces of at most
1024. The reader looks for the end of the header block, parses it, and reads the
body as the headers frame it: by length, or in chunks.

The libraries for the header block and for the `Host` field are parameters. Byte
counts are natural numbers: the saturating additions of the source differ only
above the size of any buffer.
-/

namespace MuxRuntime.Http

open Utf8 Reads Str

/-- The socket reads into a buffer of 1024 bytes. -/
abbrev SocketRead := Read UInt8 1024

/-- What follows the last read: the peer closes, or a read fails. -/
inductive Ending where
  | closed
  | failed (error : String)
  deriving DecidableEq, Repr

/-- The error of a reader that still needs bytes. -/
def Ending.report (message : String) : Ending → String
  | .closed => message
  | .failed error => "http read failed: " ++ error

def crlf : List UInt8 := [byte '\r', byte '\n']

def usizeMax : Nat := 2 ^ 64 - 1

def maxHttpBodyBytes : Nat := 16 * 1024 * 1024

/-- The limits of a server. -/
structure HttpServerLimits where
  maxHeaderBytes : Nat
  maxBodyBytes : Nat
  maxHeaders : Nat
  deriving DecidableEq, Repr

/-- Header fields in the order of the request. -/
abbrev Headers := List (List Char × List Char)

/-! ## Header block -/

/-- The end of the header block. -/
def findDoubleCrlf (buffer : List UInt8) : Option Nat :=
  Search.position (crlf ++ crlf) buffer

def httpHeaderEndWithinLimit (buffer : List UInt8) (maxHeaderBytes : Nat) :
    Except String (Option Nat) :=
  match findDoubleCrlf buffer with
  | some position =>
    let headerEnd := position + 4
    if headerEnd > maxHeaderBytes then .error "http headers too large" else .ok (some headerEnd)
  | none => if buffer.length > maxHeaderBytes then .error "http headers too large" else .ok none

/-- Read until the header block is complete. -/
def readHttpRequestHeaders (ending : Ending) (maxHeaderBytes : Nat) :
    List UInt8 → List SocketRead → Except String (List UInt8 × Nat × List SocketRead)
  | _, [] => .error (ending.report "connection closed before request headers")
  | buffer, r :: reads =>
    match httpHeaderEndWithinLimit (buffer ++ r.data) maxHeaderBytes with
    | .error e => .error e
    | .ok (some headerEnd) => .ok (buffer ++ r.data, headerEnd, reads)
    | .ok none => readHttpRequestHeaders ending maxHeaderBytes (buffer ++ r.data) reads

/-- The parts of a header block as the parsing library reports them. -/
structure ParsedRequest where
  complete : Bool
  method : Option (List Char)
  path : Option (List Char)
  version : Option Nat
  headers : List (List Char × List UInt8)
  deriving DecidableEq, Repr

/-- The parts of a URL that the `Host` check looks at. -/
structure Url where
  host : Option (List Char)
  username : List Char
  password : Option (List Char)
  path : List Char
  query : Option (List Char)
  fragment : Option (List Char)
  deriving DecidableEq, Repr

/-- The libraries that the reader calls. -/
structure Libraries where
  httparse : List UInt8 → Nat → Except String ParsedRequest
  parseUrl : List Char → Option Url

def isTokenByte (b : UInt8) : Bool :=
  isAsciiAlphanumeric b || (ascii "!#$%&\x27*+-.^_\x60|~").contains b

def isHttpToken (value : List Char) : Bool :=
  !value.isEmpty && (encode value).all isTokenByte

/-- A name in lower case. -/
def headerName (name : List Char) : Except String (List Char) :=
  if isHttpToken name then .ok (toAsciiLowercase name)
  else .error "header name must be a non-empty HTTP token"

def isControlByte (b : UInt8) : Bool :=
  b == byte '\r' || b == byte '\n' || (b < 0x20 && b != byte '\t') || b == 0x7f

def headerValue (value : List Char) : Except String Unit :=
  if (encode value).any isControlByte then .error "header value cannot contain control characters"
  else .ok ()

def validateHttpHostValue (lib : Libraries) (value : List Char) : Except String Unit :=
  if (encode value).any isAsciiWhitespace then
    .error "HTTP request Host header must be a URI authority"
  else
    match lib.parseUrl ("http://".toList ++ value ++ ['/']) with
    | none => .error "HTTP request Host header must be a URI authority"
    | some parsed =>
      if parsed.host.isNone || !parsed.username.isEmpty || parsed.password.isSome ||
          parsed.path != ['/'] || parsed.query.isSome || parsed.fragment.isSome then
        .error "HTTP request Host header must be a URI authority"
      else .ok ()

/-- The values of the fields with this name. -/
def fieldValues (name : String) (headers : Headers) : List (List Char) :=
  (headers.filter fun header => eqIgnoreAsciiCase header.1 name.toList).map Prod.snd

def validateHttpRequestHost (lib : Libraries) (version : String) (headers : Headers) :
    Except String Unit :=
  match fieldValues "host" headers with
  | _ :: _ :: _ => .error "HTTP request must contain exactly one Host header"
  | [value] =>
    if value.isEmpty then .error "HTTP request Host header must not be empty"
    else validateHttpHostValue lib value
  | [] =>
    if version == "HTTP/1.1" then .error "HTTP/1.1 request is missing the Host header"
    else .ok ()

/-- Check and normalise the fields one by one. -/
def headerPairs : List (List Char × List UInt8) → Except String Headers
  | [] => .ok []
  | (name, bytes) :: rest => do
    match fromUtf8 bytes with
    | none => throw ("header '" ++ String.ofList name ++ "' contains invalid utf-8")
    | some value =>
      let trimmedValue := trim value
      let normalizedName ← headerName name
      headerValue trimmedValue
      let headers ← headerPairs rest
      return (normalizedName, trimmedValue) :: headers

def httpVersion : Option Nat → Except String String
  | some 0 => .ok "HTTP/1.0"
  | some 1 => .ok "HTTP/1.1"
  | some v => .error ("unsupported http version " ++ toString v)
  | none => .error "http request missing version"

def parseHttpRequestHeaderPairs (lib : Libraries) (headerSlice : List UInt8) (maxHeaders : Nat) :
    Except String (List Char × List Char × String × Headers) := do
  match lib.httparse headerSlice maxHeaders with
  | .error e => throw ("invalid http request: " ++ e)
  | .ok request =>
    if !request.complete then throw "incomplete http request headers"
    else
      match request.method with
      | none => throw "http request missing method"
      | some method =>
        match request.path with
        | none => throw "http request missing target"
        | some rawTarget => do
          let version ← httpVersion request.version
          let headers ← headerPairs request.headers
          validateHttpRequestHost lib version headers
          return (method, rawTarget, version, headers)

/-! ## Framing -/

/-- All `Content-Length` values must be the same number. -/
def contentLengthOf : Option Nat → List (List Char) → Except String (Option Nat)
  | length, [] => .ok length
  | length, rawValue :: rest =>
    match fromStrRadix usizeMax 10 (trim rawValue) with
    | none => .error "invalid Content-Length header"
    | some parsed =>
      if length.any (· != parsed) then .error "conflicting Content-Length headers"
      else contentLengthOf (some parsed) rest

def headerContentLengthPairs (headers : Headers) : Except String (Option Nat) := do
  match ← contentLengthOf none (fieldValues "content-length" headers) with
  | none => return none
  | some length =>
    if length > maxHttpBodyBytes then throw "request body too large"
    else return some length

/-- Exactly one coding is understood, and it may be named once. -/
def chunkedTokens : Bool → List (List Char) → Except String Bool
  | chunked, [] => .ok chunked
  | chunked, rawToken :: rest =>
    let token := trim rawToken
    if token.isEmpty then .error "invalid Transfer-Encoding header"
    else if !eqIgnoreAsciiCase token "chunked".toList then
      .error ("unsupported Transfer-Encoding '" ++ String.ofList token ++
        "'; only chunked is supported")
    else if chunked then .error "request must contain exactly one chunked transfer encoding"
    else chunkedTokens true rest

def requestUsesChunkedTransferEncoding (headers : Headers) : Except String Bool :=
  chunkedTokens false
    ((fieldValues "transfer-encoding" headers).flatMap fun value => value.splitOn ',')

/-- How the headers say where the body ends. -/
inductive BodyFraming where
  | chunked
  | length (n : Nat)
  | unannounced
  deriving DecidableEq, Repr

/-- What the header block says. -/
structure RequestHead where
  method : List Char
  target : List Char
  headers : Headers
  framing : BodyFraming
  deriving DecidableEq, Repr

/-- Chunks go before a length. -/
def bodyFraming (chunked : Bool) (contentLength : Option Nat) : BodyFraming :=
  if chunked then .chunked
  else
    match contentLength with
    | some length => .length length
    | none => .unannounced

/-- Everything that is decided from the header block alone. -/
def requestHead (lib : Libraries) (limits : HttpServerLimits) (headerSlice : List UInt8) :
    Except String RequestHead := do
  let (method, rawTarget, _, headers) ←
    parseHttpRequestHeaderPairs lib headerSlice limits.maxHeaders
  if !isHttpToken method then throw "invalid HTTP request method"
  else do
    let contentLength ← headerContentLengthPairs headers
    let chunked ← requestUsesChunkedTransferEncoding headers
    if chunked && contentLength.isSome then
      throw "request cannot use both Transfer-Encoding and Content-Length"
    else return ⟨method, rawTarget, headers, bodyFraming chunked contentLength⟩

/-! ## Bodies of a given length -/

def readHttpRequestBody (ending : Ending) (initialBody : List UInt8) (contentLength : Nat)
    (maxBodyBytes : Nat) (reads : List SocketRead) : Except String (List UInt8) :=
  if contentLength > maxBodyBytes then .error "request body too large"
  else do
    let (_, body, _) ← readUntil
      (fun body => if body.length < contentLength then none else some ())
      (fun _ => none) (fun body chunk => .ok (body ++ chunk))
      (ending.report "connection closed before request body complete") initialBody reads
    return body.take contentLength

/-! ## Chunked bodies -/

/-- What the chunked reader works on: buffered bytes, a position in them, and the
reads still to come. -/
structure Source where
  buffer : List UInt8
  cursor : Nat
  reads : List SocketRead

section Chunked

variable (ending : Ending) (maxHeaderBytes maxBodyBytes : Nat)

/-- Add a read to the buffer. -/
def readMoreHttpBytes (buffer chunk : List UInt8) : Except String (List UInt8) :=
  if (buffer ++ chunk).length > maxBodyBytes + maxHeaderBytes then .error "request body too large"
  else .ok (buffer ++ chunk)

/-- The error of a chunked body that ends early. -/
def chunkedBodyCut : String :=
  ending.report "connection closed before chunked request body complete"

def readHttpLineEnd (cursor : Nat) (tooLargeMessage : Option String) (buffer : List UInt8)
    (reads : List SocketRead) : Except String (Nat × List UInt8 × List SocketRead) :=
  readUntil (fun buffer => (Search.position crlf (buffer.drop cursor)).map (cursor + ·))
    (fun buffer => tooLargeMessage.bind fun message =>
      if buffer.length - cursor > maxHeaderBytes then some message else none)
    (readMoreHttpBytes maxHeaderBytes maxBodyBytes) (chunkedBodyCut ending) buffer reads

/-- The text of a size line before any extension. -/
def sizeToken (line : List Char) : List Char :=
  trim (line.takeWhile (· != ';'))

/-- The size that a size line gives. -/
def chunkSize (line : List UInt8) : Except String Nat :=
  match fromUtf8 line with
  | none => .error "chunk size line is not utf-8"
  | some line =>
    match fromStrRadix usizeMax 16 (sizeToken line) with
    | none => .error "invalid chunk size"
    | some size => .ok size

def readChunkSize (s : Source) : Except String (Nat × Source) := do
  let (lineEnd, buffer, reads) ← readHttpLineEnd ending maxHeaderBytes maxBodyBytes s.cursor
    (some "chunk size line too large") s.buffer s.reads
  let size ← chunkSize (Cursor.slice buffer s.cursor lineEnd)
  return (size, ⟨buffer, lineEnd + 2, reads⟩)

def readChunkData (size : Nat) (s : Source) (body : List UInt8) :
    Except String (List UInt8 × Source) := do
  let (_, buffer, reads) ← readUntil
    (fun buffer => if buffer.length - s.cursor < size + 2 then none else some ())
    (fun _ => none) (readMoreHttpBytes maxHeaderBytes maxBodyBytes) (chunkedBodyCut ending)
    s.buffer s.reads
  let cursor := s.cursor + size
  if Cursor.slice buffer cursor (cursor + 2) ≠ crlf then
    throw "chunk is missing its trailing CRLF"
  else return (body ++ Cursor.slice buffer s.cursor cursor, ⟨buffer, cursor + 2, reads⟩)

/-- Trailer fields are not kept, but they must not change the framing. -/
def validateHttpRequestTrailer (line : List UInt8) : Except String Unit := do
  match line.findIdx? (· == byte ':') with
  | none => throw "invalid HTTP request trailer field"
  | some separator =>
    match fromUtf8 (line.take separator) with
    | none => throw "HTTP request trailer name is not utf-8"
    | some name =>
      match fromUtf8 (line.drop (separator + 1)) with
      | none => throw "HTTP request trailer value is not utf-8"
      | some value =>
        let name ← headerName name
        headerValue (trim value)
        if eqIgnoreAsciiCase name "content-length".toList ||
            eqIgnoreAsciiCase name "transfer-encoding".toList then
          throw ("HTTP request trailer '" ++ String.ofList name ++ "' is not permitted")
        else return ()

/-- The trailer loop. Every line takes at least two bytes, so the bound on the
number of lines is never reached when it exceeds the bytes ahead. -/
def readTrailers (maxTrailers : Nat) : Nat → Nat → Nat → Source → Except String Source
  | 0, _, _, _ => .error (chunkedBodyCut ending)
  | bound + 1, trailerBytes, trailerCount, s => do
    let (trailerEnd, buffer, reads) ←
      readHttpLineEnd ending maxHeaderBytes maxBodyBytes s.cursor none s.buffer s.reads
    let trailerLine := Cursor.slice buffer s.cursor trailerEnd
    if trailerLine.isEmpty then return ⟨buffer, trailerEnd + 2, reads⟩
    else if trailerBytes + trailerLine.length + 2 > maxHeaderBytes then
      throw "chunked request trailers too large"
    else if trailerCount + 1 > maxTrailers then throw "too many HTTP request trailer fields"
    else do
      validateHttpRequestTrailer trailerLine
      readTrailers maxTrailers bound (trailerBytes + trailerLine.length + 2) (trailerCount + 1)
        ⟨buffer, trailerEnd + 2, reads⟩

/-- Bytes between the cursor and the end of the stream. -/
def Source.ahead (s : Source) : List UInt8 :=
  (s.buffer ++ delivered s.reads).drop s.cursor

def readChunkedRequestTrailers (maxTrailers : Nat) (s : Source) : Except String Source :=
  readTrailers ending maxHeaderBytes maxBodyBytes maxTrailers (s.ahead.length + 1) 0 0 s

/-- The chunk loop, with a bound on the number of chunks. -/
def readChunks (maxTrailers : Nat) : Nat → Source → List UInt8 → Except String (List UInt8)
  | 0, _, _ => .error (chunkedBodyCut ending)
  | bound + 1, s, body => do
    let (size, s) ← readChunkSize ending maxHeaderBytes maxBodyBytes s
    if size = 0 then do
      let _ ← readChunkedRequestTrailers ending maxHeaderBytes maxBodyBytes maxTrailers s
      return body
    else if body.length + size > maxBodyBytes then throw "request body too large"
    else do
      let (body, s) ← readChunkData ending maxHeaderBytes maxBodyBytes size s body
      readChunks maxTrailers bound s body

def readChunkedHttpRequestBody (initialBody : List UInt8) (maxTrailers : Nat)
    (reads : List SocketRead) : Except String (List UInt8) :=
  readChunks ending maxHeaderBytes maxBodyBytes maxTrailers
    ((initialBody ++ delivered reads).length + 1) ⟨initialBody, 0, reads⟩ []

end Chunked

/-! ## The whole request -/

/-- A request of the program. -/
structure HttpRequestEntry where
  method : List Char
  url : List Char
  requestId : List Char
  proxy : Option (List Char)
  headers : Headers
  body : Option (List UInt8)
  pathParams : List (List Char × List Char)
  connectTimeoutMs : Int
  timeoutMs : Int
  maxRedirects : Int
  retries : Int
  retryBackoffMs : Int
  names : Nat
  deriving DecidableEq, Repr

/-- A request keeps a printable identifier that it came with. -/
def httpRequestId (nextId : Nat) (headers : Headers) : List Char :=
  let generated := "mux-".toList ++ (toString nextId).toList
  match headers.find? fun header => eqIgnoreAsciiCase header.1 "x-request-id".toList with
  | none => generated
  | some (_, value) =>
    let value := trim value
    if !value.isEmpty && (encode value).length ≤ 128 &&
        (encode value).all (fun b => 0x21 ≤ b && b ≤ 0x7e) then value
    else generated

/-- The entry of an accepted request, with the default options. -/
def requestEntry (nextId : Nat) (head : RequestHead) (body : List UInt8) : HttpRequestEntry :=
  let headerData := head.headers.map fun header => (toAsciiLowercase header.1, header.2)
  { method := toAsciiUppercase head.method
    url := head.target
    requestId := httpRequestId nextId headerData
    proxy := none
    headers := headerData
    body := some body
    pathParams := []
    connectTimeoutMs := 10000
    timeoutMs := 30000
    maxRedirects := 10
    retries := 0
    retryBackoffMs := 100
    names := 1 }

/-- Read the body as the headers frame it. -/
def readFramedBody (ending : Ending) (limits : HttpServerLimits) (head : RequestHead)
    (initialBody : List UInt8) (reads : List SocketRead) : Except String (List UInt8) :=
  match head.framing with
  | .chunked =>
    readChunkedHttpRequestBody ending limits.maxHeaderBytes limits.maxBodyBytes initialBody
      (limits.maxHeaders - head.headers.length) reads
  | .length length => readHttpRequestBody ending initialBody length limits.maxBodyBytes reads
  | .unannounced =>
    if initialBody.isEmpty then
      readHttpRequestBody ending initialBody 0 limits.maxBodyBytes reads
    else .error "request body present without Content-Length header"

def readTypedHttpRequestWithLimits (lib : Libraries) (nextId : Nat) (limits : HttpServerLimits)
    (ending : Ending) (reads : List SocketRead) : Except String HttpRequestEntry := do
  let (buffer, headerEnd, reads) ← readHttpRequestHeaders ending limits.maxHeaderBytes [] reads
  let head ← requestHead lib limits (buffer.take headerEnd)
  let body ← readFramedBody ending limits head (buffer.drop headerEnd) reads
  return requestEntry nextId head body

end MuxRuntime.Http
