import MuxRuntime.Foundations.Machine
import MuxRuntime.Foundations.Registry
import MuxRuntime.Http.Router

/-!
# Middleware

A request goes through the middleware of a router stage by stage before it reaches the
handler of its route. Built-in authentication continues with the next stage itself. A
callback of the program gets a handle that holds the number of the next stage, and
continues as often as it likes, also after it has passed the handle on.
-/

namespace MuxRuntime.Http

open List Utf8 Str

/-! ## Authentication -/

def isAsciiSpace (c : Char) : Bool :=
  c == ' ' || c == '\t' || c == '\n' || c == '\x0c' || c == '\r'

def splitAsciiWhitespace (s : List Char) : List (List Char) :=
  (s.splitOnP isAsciiSpace).filter fun part => !part.isEmpty

def httpRequestHeader (request : HttpRequestEntry) (name : String) : Option (List Char) :=
  (request.headers.find? fun header => eqIgnoreAsciiCase header.1 name.toList).map Prod.snd

/-- Every byte of the longer text is visited. -/
def constantTimeEqual (left right : List UInt8) : Bool :=
  (List.range (max left.length right.length)).foldl
    (fun difference i => difference ||| ((left.getD i 0).toNat ^^^ (right.getD i 0).toNat))
    (left.length ^^^ right.length) == 0

/-- What the router asks of the system: the base64 decoder, whether the identity provider
confirms a token at the time of a call, and whether a handle could be allocated. -/
structure RouterHost where
  decodeBase64 : List Char → Option (List UInt8)
  oauthOidcTokenIsValid : Nat → List Char → List Char → List Char → List Char → Except String Bool
  allocated : Nat → Bool

def basicAuthMatches (host : RouterHost) (request : HttpRequestEntry)
    (username password : List Char) : Bool :=
  match httpRequestHeader request "authorization" with
  | none => false
  | some header =>
    match splitAsciiWhitespace header with
    | [scheme, encoded] =>
      if !eqIgnoreAsciiCase scheme "Basic".toList then false
      else
        match host.decodeBase64 encoded with
        | none => false
        | some decoded => constantTimeEqual decoded (encode (username ++ ':' :: password))
    | _ => false

def bearerAuthMatches (request : HttpRequestEntry) (token : List Char) : Bool :=
  match httpRequestHeader request "authorization" with
  | none => false
  | some header =>
    match splitAsciiWhitespace header with
    | [scheme, candidate] =>
      eqIgnoreAsciiCase scheme "Bearer".toList &&
        constantTimeEqual (encode candidate) (encode token)
    | _ => false

def validBearerToken (token : List Char) : Bool :=
  !token.isEmpty && (encode token).all fun b =>
    isAsciiAlphanumeric b || (ascii "-._~+/").contains b || b == byte '='

def bearerToken (request : HttpRequestEntry) : Option (List Char) :=
  match httpRequestHeader request "authorization" with
  | none => none
  | some header =>
    match splitAsciiWhitespace header with
    | [scheme, token] =>
      if eqIgnoreAsciiCase scheme "Bearer".toList && validBearerToken token then some token
      else none
    | _ => none

/-! ## Dispatch -/

/-- The handle of a callback for the stage after its own. -/
structure HttpNextEntry where
  stage : Nat
  names : Nat
deriving DecidableEq, Repr

/-- What happens to a request. -/
inductive RouterEvent where
  /-- The middleware of a stage accepted it. -/
  | accepted (stage call : Nat)
  | invoked (handler : Nat)
deriving DecidableEq, Repr

/-- The handles of callbacks, those that were given to callbacks for this request, the
callbacks that run, the parameters of the request's path, the number of calls of the
system and what happened to the request. -/
structure RouterState where
  nexts : Registry HttpNextEntry
  nextHandle : Nat
  given : List Nat
  running : List Nat
  pathParams : Captures
  calls : Nat
  log : List RouterEvent

inductive HttpErrorKind where
  | invalid
  | status
  | transport
deriving DecidableEq, Repr

structure HttpResponse where
  status : Nat
  headers : Headers
  body : List UInt8
deriving DecidableEq, Repr

/-- The value a dispatch returns. What a handler returns is its own. -/
inductive DispatchResult where
  | error (message : String)
  | errorWithKind (kind : HttpErrorKind) (message : String) (status : Nat) (method url : List Char)
  | response (response : HttpResponse)
  | handled (handler : Nat)
deriving DecidableEq, Repr

/-- A dispatch returns, or waits for a callback. -/
inductive DispatchOutcome where
  | returned (result : DispatchResult)
  | waiting (callback : Nat)
deriving DecidableEq, Repr

def bindHttpRouteCaptures (data : HttpRouterData) (routeMatch : Option HttpRouteMatch)
    (s : RouterState) : RouterState :=
  match routeMatch with
  | none => { s with pathParams := [] }
  | some (index, captures) =>
    { s with pathParams := if (data.routes[index]?).isSome then captures else [] }

/-- The captures are bound once, when the dispatch starts. -/
def bindAtStart (data : HttpRouterData) (routeMatch : Option HttpRouteMatch) (stage : Nat)
    (s : RouterState) : RouterState :=
  if stage = 0 then bindHttpRouteCaptures data routeMatch s else s

def httpRouterCallback (data : HttpRouterData) (routeMatch : Option HttpRouteMatch) : Option Nat :=
  routeMatch.bind fun found => data.routes[found.1]?.map HttpRouteEntry.handler

namespace RouterState

def accept (s : RouterState) (stage : Nat) : RouterState :=
  { s with calls := s.calls + 1, log := s.log ++ [.accepted stage s.calls] }

def call (s : RouterState) : RouterState :=
  { s with calls := s.calls + 1 }

def invoke (s : RouterState) (handler : Nat) : RouterState :=
  { s with log := s.log ++ [.invoked handler] }

end RouterState

section Dispatch

variable (host : RouterHost) (data : HttpRouterData) (request : HttpRequestEntry)

def unauthorizedResponse (scheme : String) (s : RouterState) : DispatchOutcome × RouterState :=
  if host.allocated s.calls then
    (.returned (.response
      { status := 401
        headers :=
          [("www-authenticate".toList, (scheme ++ " realm=\"Mux\"").toList),
            ("content-type".toList, "text/plain; charset=utf-8".toList)]
        body := ascii "unauthorized" }), s.call)
  else (.returned (.error "failed to allocate HTTP authentication response"), s.call)

def invokeHttpRouterMiddlewareCallback (callback nextStage : Nat) (s : RouterState) :
    DispatchOutcome × RouterState :=
  let handle := s.nextHandle
  if host.allocated s.calls then
    (.waiting callback, { s with
        nexts := s.nexts.insert handle { stage := nextStage, names := 1 }
        nextHandle := handle + 1
        given := handle :: s.given
        running := handle :: s.running
        calls := s.calls + 1 })
  else
    (.returned (.error "failed to allocate HttpNext handle"),
      { s with nextHandle := handle + 1, calls := s.calls + 1 })

/-- Dispatch from a stage on, with the middleware that is left. -/
def dispatchFrom : List HttpMiddlewareEntry → Nat → RouterState → DispatchOutcome × RouterState
  | middleware, stage, s =>
    let method := toAsciiUppercase request.method
    let url := request.url
    match httpRouterRouteMatch (some data) method url with
    | .error e => (.returned (.errorWithKind .invalid e 400 method url), s)
    | .ok routeMatch =>
      let s := bindAtStart data routeMatch stage s
      match middleware with
      | .basic username password :: rest =>
        if basicAuthMatches host request username password then
          dispatchFrom rest (stage + 1) (s.accept stage)
        else unauthorizedResponse host "Basic" s
      | .bearer token :: rest =>
        if bearerAuthMatches request token then
          dispatchFrom rest (stage + 1) (s.accept stage)
        else unauthorizedResponse host "Bearer" s
      | .oauthOidc issuer audience jwksUrl :: rest =>
        match bearerToken request with
        | none => unauthorizedResponse host "Bearer" s
        | some token =>
          match host.oauthOidcTokenIsValid s.calls token issuer audience jwksUrl with
          | .ok true => dispatchFrom rest (stage + 1) (s.accept stage)
          | .ok false => unauthorizedResponse host "Bearer" s.call
          | .error detail => (.returned (.errorWithKind .transport detail 503 method url), s.call)
      | .callback callback :: _ => invokeHttpRouterMiddlewareCallback host callback (stage + 1) s
      | [] =>
        match httpRouterCallback data routeMatch with
        | some handler => (.returned (.handled handler), s.invoke handler)
        | none => (.returned (.errorWithKind .status "HTTP route not found" 404 method url), s)

def httpRouterDispatch (stage : Nat) (s : RouterState) : DispatchOutcome × RouterState :=
  dispatchFrom host data request (data.middleware.drop stage) stage s

/-- What callbacks do with handles. A callback may also return, and a dispatch of another
request may give a handle to its own callback. -/
inductive CallbackInput where
  | next (handle : Nat)
  | copy (handle : Nat)
  | release (handle : Nat)
  | finish
  | other (stage : Nat)
deriving DecidableEq, Repr

def copyHttpNext (s : RouterState) (handle : Nat) : RouterState :=
  match s.nexts handle with
  | none => s
  | some entry => { s with nexts := s.nexts.insert handle { entry with names := entry.names + 1 } }

def dropHttpNext (s : RouterState) (handle : Nat) : RouterState :=
  match s.nexts handle with
  | none => s
  | some entry =>
    if entry.names - 1 = 0 then { s with nexts := s.nexts.remove handle }
    else { s with nexts := s.nexts.insert handle { entry with names := entry.names - 1 } }

/-- A handle that is not valid is an error for the callback and changes nothing. -/
def muxNetHttpNextHandle (s : RouterState) (handle : Nat) : RouterState :=
  match s.nexts handle with
  | none => s
  | some entry => (httpRouterDispatch host data request entry.stage s).2

def callbackStep (s : RouterState) : CallbackInput → RouterState
  | .next handle => muxNetHttpNextHandle host data request s handle
  | .copy handle => copyHttpNext s handle
  | .release handle => dropHttpNext s handle
  | .finish =>
    match s.running with
    | [] => s
    | handle :: running => dropHttpNext { s with running := running } handle
  | .other stage =>
    { s with
      nexts := s.nexts.insert s.nextHandle { stage := stage, names := 1 }
      nextHandle := s.nextHandle + 1 }

/-- The request arrives, with handles of other requests in the registry. -/
def arrive (nexts : Registry HttpNextEntry) (nextHandle : Nat) : RouterState :=
  { nexts := nexts, nextHandle := nextHandle, given := [], running := [], pathParams := []
    calls := 0, log := [] }

/-- A dispatch of the request from the first stage, and what callbacks do. -/
def dispatchRun (nexts : Registry HttpNextEntry) (nextHandle : Nat) (inputs : List CallbackInput) :
    RouterState :=
  Machine.run (callbackStep host data request)
    (httpRouterDispatch host data request 0 (arrive nexts nextHandle)).2 inputs

end Dispatch

/-! ## The invariant -/

def HttpMiddlewareEntry.isBuiltin : HttpMiddlewareEntry → Bool
  | .callback _ => false
  | .basic _ _ | .bearer _ | .oauthOidc _ _ _ => true

/-- The middleware accepts the request, at the time of a call. -/
def Accepts (host : RouterHost) (request : HttpRequestEntry) (call : Nat) :
    HttpMiddlewareEntry → Prop
  | .callback _ => True
  | .basic username password => basicAuthMatches host request username password = true
  | .bearer token => bearerAuthMatches request token = true
  | .oauthOidc issuer audience jwksUrl => ∃ token, bearerToken request = some token ∧
      host.oauthOidcTokenIsValid call token issuer audience jwksUrl = .ok true

section Invariant

variable (host : RouterHost) (data : HttpRouterData) (request : HttpRequestEntry)

/-- All built-in middleware before a stage has accepted the request. -/
def Passed (log : List RouterEvent) (stage : Nat) : Prop :=
  ∀ i entry, data.middleware[i]? = some entry → entry.isBuiltin = true → i < stage →
    ∃ call, .accepted i call ∈ log ∧ Accepts host request call entry

/-- Handles that callbacks have are for stages that the request has reached, and handlers
were only invoked after all stages. -/
structure RouterInvariant (s : RouterState) : Prop where
  below : s.nexts.Below s.nextHandle
  given_lt : ∀ handle ∈ s.given, handle < s.nextHandle
  reached : ∀ handle ∈ s.given, ∀ entry, s.nexts handle = some entry →
    Passed host data request s.log entry.stage
  guarded : ∀ before after handler, s.log = before ++ .invoked handler :: after →
    Passed host data request before data.middleware.length

end Invariant

variable {host : RouterHost} {data : HttpRouterData} {request : HttpRequestEntry} {s s' : RouterState}

/-- Callbacks continue with handles that were given to callbacks of this request. -/
def OwnHandle (s : RouterState) : CallbackInput → Prop
  | .next handle => handle ∈ s.given
  | _ => True

namespace Passed

variable {log log' : List RouterEvent} {stage call : Nat}

lemma zero : Passed host data request log 0 := by
  intro i entry _ _ hi
  exact absurd hi (Nat.not_lt_zero i)

section

variable (h : Passed host data request log stage)

include h

lemma mono (hlog : log ⊆ log') : Passed host data request log' stage := by
  intro i entry hget hbuiltin hi
  rcases h i entry hget hbuiltin hi with ⟨call, hmem, haccepts⟩
  exact ⟨call, hlog hmem, haccepts⟩

/-- A callback accepts by continuing: it is no built-in middleware. -/
lemma callback {c : Nat} (hentry : data.middleware[stage]? = some (.callback c)) :
    Passed host data request log (stage + 1) := by
  intro i entry hget hbuiltin hi
  by_cases heq : i = stage
  · subst heq
    rw [hentry] at hget
    cases hget
    cases hbuiltin
  · exact h i entry hget hbuiltin (by omega)

lemma accept {entry : HttpMiddlewareEntry} (hentry : data.middleware[stage]? = some entry)
    (haccepts : Accepts host request call entry) :
    Passed host data request (log ++ [.accepted stage call]) (stage + 1) := by
  intro i entry' hget hbuiltin hi
  by_cases heq : i = stage
  · subst heq
    rw [hentry] at hget
    cases hget
    exact ⟨call, mem_append_right _ mem_cons_self, haccepts⟩
  · exact h.mono (subset_append_left _ _) i entry' hget hbuiltin (by omega)

lemma all (hstage : data.middleware.length ≤ stage) :
    Passed host data request log data.middleware.length := by
  intro i entry hget hbuiltin hi
  exact h i entry hget hbuiltin (by omega)

end

end Passed

/-- An event of a log with one more is an event of the log, or the last one. -/
lemma append_eq_split {α : Type} {log before after : List α} {e x : α}
    (h : log ++ [e] = before ++ x :: after) :
    (∃ after', log = before ++ x :: after') ∨ (log = before ∧ e = x) := by
  rcases eq_nil_or_concat after with rfl | ⟨after', last, rfl⟩
  · exact .inr (by simpa using append_inj' h rfl)
  · have hsplit : log ++ [e] = (before ++ x :: after') ++ [last] := by simpa using h
    exact .inl ⟨after', (append_inj' hsplit rfl).1⟩

namespace RouterInvariant

variable {stage callback handle handler : Nat} {entry : HttpNextEntry}
  (hs : RouterInvariant host data request s)

include hs

lemma bindCaptures {routeMatch : Option HttpRouteMatch} :
    RouterInvariant host data request (bindAtStart data routeMatch stage s) := by
  unfold bindAtStart bindHttpRouteCaptures
  split
  · split <;> exact ⟨hs.below, hs.given_lt, hs.reached, hs.guarded⟩
  · exact hs

lemma call : RouterInvariant host data request s.call :=
  ⟨hs.below, hs.given_lt, hs.reached, hs.guarded⟩

lemma accept : RouterInvariant host data request (s.accept stage) where
  below := hs.below
  given_lt := hs.given_lt
  reached := by
    intro handle hhandle entry hentry
    exact (hs.reached handle hhandle entry hentry).mono (subset_append_left _ _)
  guarded := by
    intro before after handler hlog
    rcases append_eq_split hlog with ⟨after', hlog⟩ | ⟨-, hevent⟩
    · exact hs.guarded before after' handler hlog
    · cases hevent

lemma invoke (hall : Passed host data request s.log data.middleware.length) :
    RouterInvariant host data request (s.invoke handler) where
  below := hs.below
  given_lt := hs.given_lt
  reached := by
    intro handle hhandle entry hentry
    exact (hs.reached handle hhandle entry hentry).mono (subset_append_left _ _)
  guarded := by
    intro before after handler' hlog
    rcases append_eq_split hlog with ⟨after', hlog⟩ | ⟨hlog, -⟩
    · exact hs.guarded before after' handler' hlog
    · rw [← hlog]
      exact hall

lemma unauthorized {scheme : String} :
    RouterInvariant host data request (unauthorizedResponse host scheme s).2 := by
  unfold unauthorizedResponse
  split <;> exact hs.call

/-- A new handle is none of those that were given before. -/
lemma invokeCallback (hp : Passed host data request s.log stage) : RouterInvariant host data request
      (invokeHttpRouterMiddlewareCallback host callback stage s).2 := by
  unfold invokeHttpRouterMiddlewareCallback
  split
  · constructor
    · exact (hs.below.mono (Nat.le_succ _)).insert (Nat.lt_succ_self _)
    · intro handle hhandle
      rcases mem_cons.mp hhandle with rfl | hhandle
      · exact Nat.lt_succ_self _
      · exact Nat.lt_succ_of_lt (hs.given_lt handle hhandle)
    · intro handle hhandle entry hentry
      rcases Registry.insert_eq_some_iff.mp hentry with ⟨-, rfl⟩ | ⟨hne, hentry⟩
      · exact hp
      · rcases mem_cons.mp hhandle with heq | hhandle
        · exact absurd heq hne
        · exact hs.reached handle hhandle entry hentry
    · exact hs.guarded
  · exact ⟨hs.below.mono (Nat.le_succ _),
      fun handle hhandle => Nat.lt_succ_of_lt (hs.given_lt handle hhandle), hs.reached, hs.guarded⟩

/-- Names come and go, the stage of a handle stays. -/
lemma rename {names : Nat}
    (hentry : s.nexts handle = some entry) :
    RouterInvariant host data request
      { s with nexts := s.nexts.insert handle { entry with names := names } } where
  below := hs.below.insert (hs.below handle entry hentry)
  given_lt := hs.given_lt
  reached := by
    intro handle' hgiven entry' hentry'
    rcases Registry.insert_eq_some_iff.mp hentry' with ⟨rfl, rfl⟩ | ⟨-, hentry'⟩
    · exact hs.reached handle' hgiven entry hentry
    · exact hs.reached handle' hgiven entry' hentry'
  guarded := hs.guarded

lemma copyNext : RouterInvariant host data request (copyHttpNext s handle) := by
  unfold copyHttpNext
  split
  · exact hs
  · next hentry => exact hs.rename hentry

lemma dropNext : RouterInvariant host data request (dropHttpNext s handle) := by
  unfold dropHttpNext
  split
  · exact hs
  rename_i hentry
  split
  · exact ⟨hs.below.remove, hs.given_lt,
      fun handle' hgiven entry' hentry' =>
        hs.reached handle' hgiven entry' (Registry.remove_eq_some_iff.mp hentry').2,
      hs.guarded⟩
  · exact hs.rename hentry

lemma other : RouterInvariant host data request
      { s with
        nexts := s.nexts.insert s.nextHandle { stage := stage, names := 1 }
        nextHandle := s.nextHandle + 1 } where
  below := (hs.below.mono (Nat.le_succ _)).insert (Nat.lt_succ_self _)
  given_lt := fun handle hgiven => Nat.lt_succ_of_lt (hs.given_lt handle hgiven)
  reached := by
    intro handle hgiven entry hentry
    rcases Registry.insert_eq_some_iff.mp hentry with ⟨rfl, -⟩ | ⟨-, hentry⟩
    · exact absurd (hs.given_lt _ hgiven) (lt_irrefl _)
    · exact hs.reached handle hgiven entry hentry
  guarded := hs.guarded

end RouterInvariant

lemma bindAtStart_log {routeMatch : Option HttpRouteMatch} {stage : Nat} :
    (bindAtStart data routeMatch stage s).log = s.log := by
  unfold bindAtStart bindHttpRouteCaptures
  split
  · split <;> rfl
  · rfl

/-- A dispatch from a stage that the request has reached keeps the invariant. -/
theorem dispatchFrom_keeps {middleware : List HttpMiddlewareEntry} {stage : Nat}
    (hleft : data.middleware.drop stage = middleware) (hs : RouterInvariant host data request s)
    (hp : Passed host data request s.log stage) :
    RouterInvariant host data request (dispatchFrom host data request middleware stage s).2 := by
  -- Induction on the middleware that is left; what was accepted is in the log of the state.
  induction middleware generalizing stage s with
  | nil =>
    have hall := hp.all (drop_eq_nil_iff.mp hleft)
    unfold dispatchFrom
    dsimp only
    split
    · exact hs
    split
    · apply hs.bindCaptures.invoke
      rw [bindAtStart_log]
      exact hall
    · exact hs.bindCaptures
  | cons entry rest ih => ?_
  have hentry : data.middleware[stage]? = some entry := by
    rw [← List.head?_drop, hleft, List.head?_cons]
  have hrest : data.middleware.drop (stage + 1) = rest := by rw [← tail_drop, hleft, tail_cons]
  unfold dispatchFrom
  dsimp only
  split
  · exact hs
  rename_i routeMatch _
  have hbound : RouterInvariant host data request (bindAtStart data routeMatch stage s) :=
    hs.bindCaptures
  have hp : Passed host data request (bindAtStart data routeMatch stage s).log stage := by
    rw [bindAtStart_log]
    exact hp
  have hgoOn : Accepts host request (bindAtStart data routeMatch stage s).calls entry →
      RouterInvariant host data request (dispatchFrom host data request rest (stage + 1)
        ((bindAtStart data routeMatch stage s).accept stage)).2 :=
    fun haccepts => ih hrest hbound.accept (hp.accept hentry haccepts)
  cases entry with
  | callback c => exact hbound.invokeCallback (hp.callback hentry)
  | basic username password | bearer token =>
    dsimp only
    split
    · next hmatches => exact hgoOn hmatches
    · exact hbound.unauthorized
  | oauthOidc issuer audience jwksUrl => ?_
  dsimp only
  split
  · exact hbound.unauthorized
  rename_i token htoken
  split
  · next hvalid => exact hgoOn ⟨token, htoken, hvalid⟩
  · exact hbound.call.unauthorized
  · exact hbound.call

lemma httpRouterDispatch_keeps {stage : Nat} (hs : RouterInvariant host data request s)
    (hp : Passed host data request s.log stage) :
    RouterInvariant host data request (httpRouterDispatch host data request stage s).2 :=
  dispatchFrom_keeps rfl hs hp

lemma callbackStep_keeps {input : CallbackInput} (hs : RouterInvariant host data request s)
    (hown : OwnHandle s input) :
    RouterInvariant host data request (callbackStep host data request s input) := by
  cases input with
  | next handle =>
    unfold callbackStep muxNetHttpNextHandle
    dsimp only
    split
    · exact hs
    · next entry hentry => exact httpRouterDispatch_keeps hs (hs.reached handle hown entry hentry)
  | copy handle => exact hs.copyNext
  | release handle => exact hs.dropNext
  | finish =>
    unfold callbackStep
    dsimp only
    split
    · exact hs
    · exact RouterInvariant.dropNext ⟨hs.below, hs.given_lt, hs.reached, hs.guarded⟩
  | other stage => exact hs.other

lemma arrive_invariant {nexts : Registry HttpNextEntry} {nextHandle : Nat}
    (hbelow : nexts.Below nextHandle) :
    RouterInvariant host data request (arrive nexts nextHandle) where
  below := hbelow
  given_lt := by
    intro handle hhandle
    cases hhandle
  reached := by
    intro handle hhandle
    cases hhandle
  guarded := by
    intro before after handler hlog
    simp [arrive] at hlog

/-- Whatever the callbacks do, a handler is only invoked after every built-in authentication
of the router has accepted the request. -/
theorem handler_needs_authentication (host : RouterHost) (data : HttpRouterData)
    (request : HttpRequestEntry) {nexts : Registry HttpNextEntry} {nextHandle : Nat}
    {inputs : List CallbackInput} (hbelow : nexts.Below nextHandle)
    (hown : Machine.Always (callbackStep host data request) OwnHandle
      (httpRouterDispatch host data request 0 (arrive nexts nextHandle)).2 inputs)
    {before after : List RouterEvent} {handler : Nat}
    (hlog : (dispatchRun host data request nexts nextHandle inputs).log =
      before ++ .invoked handler :: after)
    {i : Nat} {entry : HttpMiddlewareEntry} (hentry : data.middleware[i]? = some entry)
    (hbuiltin : entry.isBuiltin = true) :
    ∃ call, .accepted i call ∈ before ∧ Accepts host request call entry := by
  have hstart : RouterInvariant host data request
      (httpRouterDispatch host data request 0 (arrive nexts nextHandle)).2 :=
    httpRouterDispatch_keeps (arrive_invariant hbelow) Passed.zero
  have hend := Machine.run_invariant (fun _ _ hs hown => callbackStep_keeps hs hown) hstart hown
  rcases List.getElem?_eq_some_iff.mp hentry with ⟨hi, -⟩
  exact hend.guarded before after handler hlog i entry hentry hbuiltin hi

/-! ## A token behind a callback -/

/-- A callback, then a token. -/
def tokenRouter : HttpRouterData where
  routes := [{ method := "GET".toList, segments := [], specificity := [3], handler := 5 }]
  middleware := [.callback 7, .bearer "k".toList]

def tokenRequest : HttpRequestEntry where
  method := "get".toList
  url := "/".toList
  requestId := []
  proxy := none
  headers := [("Authorization".toList, "bearer k".toList)]
  body := none
  pathParams := []
  connectTimeoutMs := 0
  timeoutMs := 0
  maxRedirects := 0
  retries := 0
  retryBackoffMs := 0
  names := 1

/-- No decoder and no identity provider. -/
def plainHost : RouterHost where
  decodeBase64 := fun _ => none
  oauthOidcTokenIsValid := fun _ _ _ _ _ => .ok false
  allocated := fun _ => true

/-- The callback continues twice, then it returns. -/
def twice : List CallbackInput :=
  [.next 3, .next 3, .finish]

theorem handler_needs_token :
    (dispatchRun plainHost tokenRouter tokenRequest (fun _ => none) 3 twice).log =
        [.accepted 1 1, .invoked 5, .accepted 1 2, .invoked 5] ∧
      ∃ call, RouterEvent.accepted 1 call ∈ [RouterEvent.accepted 1 1] ∧
        Accepts plainHost tokenRequest call (.bearer "k".toList) := by
  have hlog : (dispatchRun plainHost tokenRouter tokenRequest (fun _ => none) 3 twice).log =
      [.accepted 1 1] ++ .invoked 5 :: [.accepted 1 2, .invoked 5] := by
    decide +kernel
  have hbelow : Registry.Below (fun _ => none : Registry HttpNextEntry) 3 := by
    intro k v hk
    cases hk
  have hown : Machine.Always (callbackStep plainHost tokenRouter tokenRequest) OwnHandle
      (httpRouterDispatch plainHost tokenRouter tokenRequest 0 (arrive (fun _ => none) 3)).2
      twice := by
    refine ⟨?_, ?_, trivial, trivial⟩
    · unfold OwnHandle
      decide +kernel
    · unfold OwnHandle
      decide +kernel
  exact ⟨hlog, handler_needs_authentication plainHost tokenRouter tokenRequest hbelow hown hlog
    rfl rfl⟩

end MuxRuntime.Http
