import Mathlib

/-!
# The authority of a request

The clients of HTTP/2 and HTTP/3 write the host and the port of a URL as one text, which is read
again to connect and is part of the URI that is requested.
-/

namespace MuxRuntime.Http

/-- A host as the URL library keeps it. -/
inductive UrlHost where
  | domain (name : String) (plain : ':' ∉ name.toList)
  | ipv4 (address : String) (plain : ':' ∉ address.toList)
  | ipv6 (address : String) (colon : ':' ∈ address.toList)

def UrlHost.hostStr : UrlHost → String
  | .domain name _ => name
  | .ipv4 address _ => address
  | .ipv6 address _ => "[" ++ address ++ "]"

def UrlHost.isIpv6 : UrlHost → Bool
  | .domain .. | .ipv4 .. => false
  | .ipv6 .. => true

/-- An absolute URL with the scheme `https`; the default port is not kept. -/
structure HttpsUrl where
  username : String
  password : Option String
  host : UrlHost
  port : Option UInt16
  path : String
  query : Option String
  fragment : Option String
  path_ne : path ≠ ""

/-- The authority that both clients build. -/
def HttpsUrl.authority (url : HttpsUrl) : String :=
  let host := url.host.hostStr
  let port := url.port.getD 443
  if host.toList.contains ':' then "[" ++ host ++ "]:" ++ toString port
  else host ++ ":" ++ toString port

inductive Http3ErrorKind where
  | invalid
deriving DecidableEq, Repr

structure Http3Error where
  kind : Http3ErrorKind
  message : String
deriving DecidableEq, Repr

/-- `parse` is the parser of the URL library; an accepted `https` URL has a host. -/
def parseHttp3Authority (parse : String → Except String HttpsUrl) (authority : String) :
    Except Http3Error (String × UInt16) :=
  match parse ("https://" ++ authority) with
  | .error e => .error ⟨.invalid, "invalid HTTP/3 authority '" ++ authority ++ "': " ++ e⟩
  | .ok url =>
    if url.username ≠ "" || url.password.isSome || url.path ≠ "/" || url.query.isSome ||
        url.fragment.isSome then
      .error ⟨.invalid, "HTTP/3 authority must contain only a host and optional port"⟩
    else .ok (url.host.hostStr, url.port.getD 443)

def http2RequestUri (url : HttpsUrl) (authority : String) : String :=
  "https://" ++ authority ++ (if url.path = "" then "/" else url.path) ++
    match url.query with
    | some query => "?" ++ query
    | none => ""

/-! ## Hosts and ports -/

/-- The text of a host and a port. -/
def HttpsUrl.hostPort (url : HttpsUrl) : String :=
  url.host.hostStr ++ ":" ++ toString (url.port.getD 443)

/-- What the URL standard says about texts with the host and the port of a URL. -/
structure ReadsBack (parse : String → Except String HttpsUrl) (url : HttpsUrl) : Prop where
  authority : parse ("https://" ++ url.hostPort) =
    .ok ⟨"", none, url.host, url.port, "/", none, none, by decide⟩
  uri : parse ("https://" ++ url.hostPort ++ url.path ++ url.query.elim "" ("?" ++ ·)) =
    .ok { url with username := "", password := none, fragment := none }

lemma UrlHost.contains_colon (host : UrlHost) : host.hostStr.toList.contains ':' = host.isIpv6 := by
  cases host with
  | domain name plain | ipv4 address plain => simpa [hostStr, isIpv6] using plain
  | ipv6 address colon => simpa [hostStr, isIpv6] using colon

/-- An address that has its brackets gets them once more. -/
lemma HttpsUrl.authority_eq_iff (url : HttpsUrl) :
    url.authority = url.hostPort ↔ url.host.isIpv6 = false := by
  unfold HttpsUrl.authority HttpsUrl.hostPort
  dsimp only
  rw [url.host.contains_colon]
  cases url.host.isIpv6 with
  | false => simp
  | true => ?_
  refine iff_of_false (fun h => ?_) nofun
  have hlength := congrArg String.length h
  have hcolons : "]:".length = 2 ∧ ":".length = 1 := ⟨rfl, rfl⟩
  simp at hlength
  omega

/-- The authority stands for the host and the port of the URL, is read as them, and gives a URI
with the same host, port, path and query, exactly if the host is not an IPv6 address. -/
theorem authority_denotes_iff (parse : String → Except String HttpsUrl) (url : HttpsUrl)
    (h : ReadsBack parse url) : (url.authority = url.hostPort ∧
      parseHttp3Authority parse url.authority = .ok (url.host.hostStr, url.port.getD 443) ∧
      ∃ uri, parse (http2RequestUri url url.authority) = .ok uri ∧ uri.host = url.host ∧
        uri.port = url.port ∧ uri.path = url.path ∧ uri.query = url.query) ↔
    url.host.isIpv6 = false := by
  rw [← url.authority_eq_iff]
  refine ⟨And.left, fun hauthority => ⟨hauthority, ?_, ?_⟩⟩
  · rw [hauthority, parseHttp3Authority, h.authority]
    simp
  have huri : http2RequestUri url url.authority =
      "https://" ++ url.hostPort ++ url.path ++ url.query.elim "" ("?" ++ ·) := by
    rw [http2RequestUri, hauthority, if_neg url.path_ne]
    cases url.query <;> rfl
  rw [huri, h.uri]
  exact ⟨_, rfl, rfl, rfl, rfl, rfl⟩

def loopbackUrl : HttpsUrl :=
  ⟨"", none, .ipv6 "::1" (by decide), none, "/", none, none, by decide⟩

/-- The loopback address is written with two pairs of brackets. -/
theorem loopback_authority :
    loopbackUrl.authority = "[[::1]]:443" ∧ loopbackUrl.hostPort = "[::1]:443" := by
  decide

def exampleUrl : HttpsUrl :=
  ⟨"", none, .domain "example.test" (by decide), some 8443, "/a", some "b", some "c", by decide⟩

/-- A parser that knows two texts. -/
def exampleParse (text : String) : Except String HttpsUrl :=
  if text = "https://example.test:8443" then
    .ok ⟨"", none, .domain "example.test" (by decide), some 8443, "/", none, none, by decide⟩
  else if text = "https://example.test:8443/a?b" then .ok { exampleUrl with fragment := none }
  else .error "unknown"

theorem authority_denotes_domain : exampleUrl.authority = "example.test:8443" ∧
      parseHttp3Authority exampleParse exampleUrl.authority = .ok ("example.test", 8443) := by
  have h : ReadsBack exampleParse exampleUrl := ⟨rfl, rfl⟩
  have hdenotes := (authority_denotes_iff exampleParse exampleUrl h).mpr rfl
  exact ⟨hdenotes.1, hdenotes.2.1⟩

end MuxRuntime.Http
