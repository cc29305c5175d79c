import MuxRuntime.Foundations.AssocList
import MuxRuntime.Http.Request
import MuxRuntime.Values.Value

/-!
# The router

A route is a method and a pattern of path segments: literals, parameters that capture
one segment, and a catch-all. Patterns are compiled together with a vector that says how
specific they are. Of the routes that match a request the first one with the greatest
vector is selected.
-/

namespace MuxRuntime.Http

open Utf8 Str

/-! ## Patterns -/

/-- A segment of a pattern. -/
inductive HttpRouteSegment where
  | literal (text : List Char)
  | parameter (name : List Char)
  | catchAll (name : List Char)
deriving DecidableEq, Repr

/-- A compiled route. -/
structure HttpRouteEntry where
  method : List Char
  segments : List HttpRouteSegment
  specificity : List Int
  handler : Nat
deriving DecidableEq, Repr

def validRouteCaptureName : List Char → Bool
  | [] => false
  | first :: rest => (first == '_' || first.isAlpha) && rest.all fun c => c == '_' || c.isAlphanum

def routePathSegments (path : List Char) : Except String (List (List Char)) :=
  if path.head? ≠ some '/' then .error "HTTP route path must start with '/'"
  else if path = ['/'] then .ok []
  else .ok (path.tail.splitOn '/')

def malformedEncoding : String := "HTTP route path contains malformed percent-encoding"

def percentDecodeBytes : List UInt8 → Except String (List UInt8)
  | [] => .ok []
  | b :: rest =>
    if b ≠ byte '%' then (percentDecodeBytes rest).map (b :: ·)
    else
      match rest with
      | high :: low :: rest =>
        match digit 16 (Char.ofNat high.toNat), digit 16 (Char.ofNat low.toNat) with
        | some high, some low => (percentDecodeBytes rest).map (UInt8.ofNat (high * 16 + low) :: ·)
        | _, _ => .error malformedEncoding
      | _ => .error malformedEncoding

def percentDecodeRouteSegment (segment : List Char) : Except String (List Char) := do
  let decoded ← percentDecodeBytes (encode segment)
  match fromUtf8 decoded with
  | none => .error "HTTP route path contains invalid UTF-8"
  | some text => .ok text

def startsWith (c : Char) (raw : List Char) : Bool :=
  raw.head? == some c

def endsWith (c : Char) (raw : List Char) : Bool :=
  raw.getLast? == some c

/-- What is between the braces of a capture, and whether it is a catch-all. -/
def captureName (raw : List Char) : Bool × List Char :=
  let name := raw.tail.dropLast
  if "...".toList.isPrefixOf name then (true, name.drop 3) else (false, name)

local instance lawfulName : LawfulBEq (List Char) := inferInstance

/-- One segment of a pattern, after the captures `names`. -/
def routeSegment (names : List (List Char)) (isFinal : Bool) (raw : List Char) :
    Except String HttpRouteSegment :=
  if startsWith '\x7b' raw || endsWith '\x7d' raw then
    if !startsWith '\x7b' raw || !endsWith '\x7d' raw || decide ((encode raw).length < 3) then
      .error "HTTP route capture has invalid braces"
    else
      let (isCatchAll, name) := captureName raw
      if !validRouteCaptureName name then
        .error ("HTTP route capture name is invalid: " ++ String.ofList name)
      else if name ∈ names then
        .error ("HTTP route capture name is duplicated: " ++ String.ofList name)
      else if isCatchAll && !isFinal then
        .error "HTTP catch-all capture must be the final path segment"
      else if isCatchAll then .ok (.catchAll name)
      else .ok (.parameter name)
  else if '\x7b' ∈ raw ∨ '\x7d' ∈ raw then .error "HTTP route literal contains an unmatched brace"
  else (percentDecodeRouteSegment raw).map .literal

def HttpRouteSegment.name? : HttpRouteSegment → Option (List Char)
  | .literal _ => none
  | .parameter name | .catchAll name => some name

def HttpRouteSegment.isCatchAll : HttpRouteSegment → Bool
  | .catchAll _ => true
  | _ => false

def HttpRouteSegment.specificity : HttpRouteSegment → Int
  | .catchAll _ => 0
  | .parameter _ => 1
  | .literal _ => 2

def compileSegments (names : List (List Char)) :
    List (List Char) → Except String (List HttpRouteSegment)
  | [] => .ok []
  | raw :: rest => do
    let segment ← routeSegment names rest.isEmpty raw
    let segments ← compileSegments (names ++ segment.name?.toList) rest
    .ok (segment :: segments)

/-- An exact end is more specific than a catch-all that captures nothing. -/
def routeSpecificity (segments : List HttpRouteSegment) : List Int :=
  segments.map HttpRouteSegment.specificity ++
    if segments.any HttpRouteSegment.isCatchAll then [] else [3]

def compileHttpRoute (path : List Char) : Except String (List HttpRouteSegment × List Int) :=
  if '?' ∈ path then .error "HTTP route patterns must not contain a query string"
  else do
    let rawSegments ← routePathSegments path
    let segments ← compileSegments [] rawSegments
    .ok (segments, routeSpecificity segments)

/-! ## Matching -/

def requestPathSegments (url : List Char) : Except String (List (List Char)) := do
  let rawSegments ← routePathSegments (url.takeWhile (· ≠ '?'))
  rawSegments.mapM percentDecodeRouteSegment

abbrev Captures := List (List Char × List Char)

def joinSegments (segments : List (List Char)) : List Char :=
  ['/'].intercalate segments

/-- Match a pattern against what is left of the path. -/
def matchSegments : List HttpRouteSegment → List (List Char) → Captures → Option Captures
  | [], [], captures => some captures
  | [], _ :: _, _ => none
  | .literal expected :: segments, path, captures =>
    match path with
    | [] => none
    | actual :: path => if actual = expected then matchSegments segments path captures else none
  | .parameter name :: segments, path, captures =>
    match path with
    | [] => none
    | value :: path => matchSegments segments path (AssocList.insert captures name value)
  | .catchAll name :: segments, path, captures =>
    matchSegments segments [] (AssocList.insert captures name (joinSegments path))

def httpRouteMatch (route : HttpRouteEntry) (path : List (List Char)) : Option Captures :=
  matchSegments route.segments path []

/-! ## The routes of a router -/

inductive HttpMiddlewareEntry where
  | callback (callback : Nat)
  | basic (username password : List Char)
  | bearer (token : List Char)
  | oauthOidc (issuer audience jwksUrl : List Char)
deriving DecidableEq, Repr

/-- A router. -/
structure HttpRouterData where
  routes : List HttpRouteEntry
  middleware : List HttpMiddlewareEntry

def httpRouterNew : HttpRouterData where
  routes := []
  middleware := []

abbrev HttpRouteMatch := Nat × Captures

def isBetter (routes : List HttpRouteEntry) (route : HttpRouteEntry) : Option HttpRouteMatch → Bool
  | none => true
  | some (index, _) =>
    match routes[index]? with
    | none => false
    | some selected => decide (selected.specificity < route.specificity)

def selectStep (routes : List HttpRouteEntry) (method : List Char) (path : List (List Char))
    (selected : Option HttpRouteMatch) (entry : HttpRouteEntry × Nat) : Option HttpRouteMatch :=
  let (route, index) := entry
  if !eqIgnoreAsciiCase route.method method then selected
  else
    match httpRouteMatch route path with
    | none => selected
    | some captures => if isBetter routes route selected then some (index, captures) else selected

def selectRoute (routes : List HttpRouteEntry) (method : List Char) (path : List (List Char)) :
    Option HttpRouteMatch :=
  routes.zipIdx.foldl (selectStep routes method path) none

/-- `none` is a router whose handle is not valid. -/
def httpRouterRouteMatch (router : Option HttpRouterData) (method url : List Char) :
    Except String (Option HttpRouteMatch) := do
  let path ← requestPathSegments url
  match router with
  | none => .error "invalid HttpRouter handle"
  | some data => .ok (selectRoute data.routes method path)

def sameSegment : HttpRouteSegment → HttpRouteSegment → Bool
  | .literal left, .literal right => left == right
  | .parameter _, .parameter _ => true
  | .catchAll _, .catchAll _ => true
  | _, _ => false

/-- Equal but for capture names. -/
def isAmbiguous (method : List Char) (segments : List HttpRouteSegment) (specificity : List Int)
    (route : HttpRouteEntry) : Bool :=
  eqIgnoreAsciiCase route.method method && route.specificity == specificity &&
    (route.segments.zip segments).all fun pair => sameSegment pair.1 pair.2

/-- A closure of the compiled program. -/
structure HttpServerClosure where
  address : Nat
  boxed : Bool
deriving DecidableEq, Repr

def muxNetHttpRouterRoute (router : Option HttpRouterData) (method path : Option Value)
    (handler : Option HttpServerClosure) : Except String HttpRouterData := do
  match router, method, path with
  | none, _, _ => .error "invalid HttpRouter handle"
  | some data, some (.string method), some (.string path) =>
    if method.toList.isEmpty then .error "HTTP route method must not be empty"
    else if !isHttpToken method.toList then .error "HTTP route method must be an HTTP token"
    else do
      let (segments, specificity) ← compileHttpRoute path.toList
      match handler with
      | none => .error "HTTP route handler is null"
      | some closure =>
        if !closure.boxed then
          .error "HTTP route handler must return result<HttpResponse, HttpError>"
        else if data.routes.any (isAmbiguous method.toList segments specificity) then
          .error "HTTP route is duplicate or ambiguous with an existing route"
        else
          .ok
            { data with
              routes := data.routes ++
                [{ method := toAsciiUppercase method.toList
                   segments := segments
                   specificity := specificity
                   handler := closure.address }] }
  | some _, some (.string _), _ => .error "HTTP route path must be a string"
  | some _, _, _ => .error "HTTP route method must be a string"

end MuxRuntime.Http
