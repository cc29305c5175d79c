import MuxRuntime.Json.Canonical

/-!
# Tokens of an identity provider

A token has three parts between dots: a header and claims, both JSON, and a signature over the
first two. It is accepted if its claims are in order and a key of the provider verifies it.
-/

namespace MuxRuntime.Http

open Utf8

variable {F : Type}

/-! ## Reading JSON -/

/-- The member of an object; names of a parsed object are distinct. -/
def serdeGet (name : String) : SerdeValue F → Option (SerdeValue F)
  | .object values => values.lookup name
  | _ => none

/-- The text of a value. -/
def serdeAsStr : SerdeValue F → Option String
  | .string value => some value
  | _ => none

/-- The number of a value, if it has no sign. -/
def serdeAsU64 : SerdeValue F → Option Nat
  | .number (.posInt value) => some value
  | _ => none

/-- The text of a claim. -/
def claimStr (name : String) (claims : SerdeValue F) : Option String :=
  (serdeGet name claims).bind serdeAsStr

/-- The number of a claim, if it is an integer of 64 bits without a sign. -/
def claimU64 (name : String) (claims : SerdeValue F) : Option Nat :=
  (serdeGet name claims).bind serdeAsU64

/-! ## The check -/

/-- A key of the provider. -/
structure OAuthRsaKey where
  kid : String
  modulus : List UInt8
  exponent : List UInt8
deriving DecidableEq, Repr

/-- The decoder of base64, the JSON parser, the clock in seconds, the keys of the provider and the
verification of a signature. -/
structure OidcHost (F : Type) where
  decodeBase64 : List Char → Option (List UInt8)
  fromSlice : List UInt8 → Option (SerdeValue F)
  now : Except String Nat
  oauthOidcJwks : String → Except String (List OAuthRsaKey)
  verify : OAuthRsaKey → List UInt8 → List UInt8 → Bool

/-- The token is for this audience. -/
def audienceMatches (audience : String) (claims : SerdeValue F) : Bool :=
  match serdeGet "aud" claims with
  | some (.string value) => value == audience
  | some (.array values) => values.any fun value => serdeAsStr value == some audience
  | _ => false

variable (host : OidcHost F) (token : List Char) (issuer audience jwksUrl : String)

/-- The check of a token. -/
def oauthOidcTokenIsValid : Except String Bool :=
  match token.splitOn '.' with
  | [encodedHeader, encodedClaims, encodedSignature] =>
    match (host.decodeBase64 encodedHeader, host.decodeBase64 encodedClaims) with
    | (some headerBytes, some claimsBytes) =>
      match (host.fromSlice headerBytes, host.fromSlice claimsBytes) with
      | (some header, some claims) =>
        if claimStr "alg" header ≠ some "RS256" then .ok false
        else
          match claimStr "kid" header with
          | none => .ok false
          | some kid =>
            if claimStr "iss" claims ≠ some issuer then .ok false
            else if !audienceMatches audience claims then .ok false
            else
              match host.now with
              | .error e => .error ("OAuth/OIDC clock is before the Unix epoch: " ++ e)
              | .ok now =>
                match claimU64 "exp" claims with
                | none => .ok false
                | some expiresAt =>
                  if expiresAt ≤ now || (claimU64 "nbf" claims).any (now < ·) then .ok false
                  else
                    match host.decodeBase64 encodedSignature with
                    | none => .ok false
                    | some signature =>
                      match host.oauthOidcJwks jwksUrl with
                      | .error e => .error e
                      | .ok keys =>
                        let signingInput := encode (encodedHeader ++ '.' :: encodedClaims)
                        .ok ((keys.filter fun key => key.kid == kid).any fun key =>
                          host.verify key signingInput signature)
      | _ => .ok false
    | _ => .ok false
  | _ => .ok false

/-! ## Accepted tokens -/

/-- What a token consists of. -/
structure Opened (header claims : SerdeValue F) (signingInput signature : List UInt8) : Prop where
  parts : ∃ encodedHeader encodedClaims encodedSignature headerBytes claimsBytes,
    token.splitOn '.' = [encodedHeader, encodedClaims, encodedSignature] ∧
    host.decodeBase64 encodedHeader = some headerBytes ∧ host.fromSlice headerBytes = some header ∧
    host.decodeBase64 encodedClaims = some claimsBytes ∧ host.fromSlice claimsBytes = some claims ∧
    host.decodeBase64 encodedSignature = some signature ∧
    signingInput = encode (encodedHeader ++ '.' :: encodedClaims)

/-- The audience is the claim, or one of its items. -/
def Addressed (claims : SerdeValue F) : Prop :=
  serdeGet "aud" claims = some (.string audience) ∨
    ∃ values, serdeGet "aud" claims = some (.array values) ∧ .string audience ∈ values

/-- What is checked besides the time from which a token is valid. -/
structure Checked (header claims : SerdeValue F) (signingInput signature : List UInt8)
    (now : Nat) : Prop where
  opened : Opened host token header claims signingInput signature
  alg : claimStr "alg" header = some "RS256"
  iss : claimStr "iss" claims = some issuer
  aud : Addressed audience claims
  exp : ∃ expiresAt, claimU64 "exp" claims = some expiresAt ∧ now < expiresAt
  key : ∃ keys key, host.oauthOidcJwks jwksUrl = .ok keys ∧ key ∈ keys ∧
    claimStr "kid" header = some key.kid ∧ host.verify key signingInput signature = true

variable {host token issuer audience jwksUrl}

lemma audienceMatches_iff {claims : SerdeValue F} :
    audienceMatches audience claims = true ↔ Addressed audience claims := by
  unfold audienceMatches Addressed
  have hitem : ∀ value : SerdeValue F, serdeAsStr value = some audience ↔ value = .string audience := by
    intro value
    cases value <;> simp [serdeAsStr]
  split <;> simp_all

/-- What was checked of an accepted token. -/
theorem tokenIsValid_eq_true
    (h : oauthOidcTokenIsValid host token issuer audience jwksUrl = .ok true) :
    ∃ header claims signingInput signature now, host.now = .ok now ∧
      Checked host token issuer audience jwksUrl header claims signingInput signature now ∧
      ∀ notBefore, claimU64 "nbf" claims = some notBefore → notBefore ≤ now := by
  unfold oauthOidcTokenIsValid at h
  split at h
  · rename_i encodedHeader encodedClaims encodedSignature hparts
    split at h
    · rename_i headerBytes claimsBytes hbytes
      split at h
      · rename_i header claims hjson
        simp only [Prod.mk.injEq] at hbytes hjson
        split at h
        · cases h
        rename_i halg
        split at h
        · cases h
        rename_i kid hkid
        split at h
        · cases h
        rename_i hiss
        split at h
        · cases h
        rename_i haud
        split at h
        · cases h
        rename_i now hnow
        split at h
        · cases h
        rename_i expiresAt hexp
        split at h
        · cases h
        rename_i htime
        split at h
        · cases h
        rename_i signature hsignature
        split at h
        · cases h
        rename_i keys hkeys
        simp only [Except.ok.injEq, List.any_eq_true, List.mem_filter, beq_iff_eq] at h
        rcases h with ⟨key, ⟨hmem, hkey⟩, hverify⟩
        simp only [Bool.or_eq_true, decide_eq_true_eq, not_or, Nat.not_le] at htime
        refine ⟨header, claims, _, signature, now, hnow, ⟨⟨_, _, _, _, _, hparts, hbytes.1, hjson.1,
          hbytes.2, hjson.2, hsignature, rfl⟩, by simpa using halg, by simpa using hiss,
          audienceMatches_iff.mp (by simpa using haud), ⟨expiresAt, hexp, htime.1⟩, keys, key,
          hkeys, hmem, by rw [hkid, hkey], hverify⟩, ?_⟩
        intro notBefore hnbf
        simpa [hnbf] using htime.2
      · cases h
    · cases h
  · cases h

/-! ## The time from which a token is valid -/

/-- `real` is the number that a floating point value stands for. -/
def serdeNumberValue (real : F → ℚ) : SerdeNumber F → ℚ
  | .posInt value => value
  | .negInt value => value
  | .float value => real value

/-- A claim is absent, or a number that is not later than now. -/
def InForce (real : F → ℚ) (claims : SerdeValue F) (now : Nat) : Prop :=
  ∀ value, serdeGet "nbf" claims = some value →
    ∃ number, value = .number number ∧ serdeNumberValue real number ≤ now

lemma Opened.claims_eq {header claims header' claims' : SerdeValue F}
    {input signature input' signature' : List UInt8}
    (h : Opened host token header claims input signature)
    (h' : Opened host token header' claims' input' signature') : claims = claims' := by
  rcases h.parts with ⟨_, _, _, _, _, hparts, _, _, hclaims, hjson, _⟩
  rcases h'.parts with ⟨_, _, _, _, _, hparts', _, _, hclaims', hjson', _⟩
  grind

/-- An accepted token meets all conditions exactly if a time from which it is valid that is not an
integer without a sign is still a number that is not later than now. -/
theorem accepted_in_order_iff (real : F → ℚ)
    (h : oauthOidcTokenIsValid host token issuer audience jwksUrl = .ok true) :
    (∃ header claims signingInput signature now, host.now = .ok now ∧
      Checked host token issuer audience jwksUrl header claims signingInput signature now ∧
      InForce real claims now) ↔
    ∀ header claims signingInput signature now, host.now = .ok now →
      Opened host token header claims signingInput signature →
      ∀ value, serdeGet "nbf" claims = some value → serdeAsU64 value = none →
        ∃ number, value = .number number ∧ serdeNumberValue real number ≤ now := by
  constructor
  · rintro ⟨header, claims, input, signature, now, hnow, hchecked, hforce⟩
    intro header' claims' input' signature' now' hnow' hopened value hvalue _
    cases hnow.symm.trans hnow'
    rw [hchecked.opened.claims_eq hopened] at hforce
    exact hforce value hvalue
  intro hother
  rcases tokenIsValid_eq_true h with ⟨header, claims, input, signature, now, hnow, hchecked, hnbf⟩
  refine ⟨header, claims, input, signature, now, hnow, hchecked, ?_⟩
  intro value hvalue
  rcases hint : serdeAsU64 value with _ | notBefore
  · exact hother _ _ _ _ _ hnow hchecked.opened value hvalue hint
  have hle := hnbf notBefore (by simp [claimU64, hvalue, hint])
  cases value with
  | number number =>
    cases number <;> simp only [serdeAsU64, Option.some.injEq, reduceCtorEq] at hint
    exact ⟨_, rfl, by simpa [serdeNumberValue, hint] using hle⟩
  | _ => cases hint

/-- Claims with a time from which the token is valid. -/
def claimsFrom (nbf : SerdeValue ℚ) : SerdeValue ℚ :=
  .object [("iss", .string "i"), ("aud", .string "a"), ("exp", .number (.posInt 5000000000)),
    ("nbf", nbf)]

/-- The header. -/
def headerPart : String := "eyJhbGciOiJSUzI1NiIsImtpZCI6ImsifQ"

/-- Claims with the time as an integer. -/
def integerPart : String :=
  "eyJpc3MiOiJpIiwiYXVkIjoiYSIsImV4cCI6NTAwMDAwMDAwMCwibmJmIjoxNzAwMDAwMDAwfQ"

/-- Claims with the time as a float. -/
def floatPart : String :=
  "eyJpc3MiOiJpIiwiYXVkIjoiYSIsImV4cCI6NTAwMDAwMDAwMCwibmJmIjo0MTAyNDQ0ODAwLjB9"

/-- The parts of tokens, the texts that they encode, and what the texts say. -/
def sampleParts : List (List Char × List UInt8 × SerdeValue ℚ) :=
  [(headerPart.toList, ascii "\x7b\"alg\":\"RS256\",\"kid\":\"k\"\x7d",
      .object [("alg", .string "RS256"), ("kid", .string "k")]),
    (integerPart.toList,
      ascii "\x7b\"iss\":\"i\",\"aud\":\"a\",\"exp\":5000000000,\"nbf\":1700000000\x7d",
      claimsFrom (.number (.posInt 1700000000))),
    (floatPart.toList,
      ascii "\x7b\"iss\":\"i\",\"aud\":\"a\",\"exp\":5000000000,\"nbf\":4102444800.0\x7d",
      claimsFrom (.number (.float 4102444800)))]

/-- A token with these claims and a signature of three bytes. -/
def sampleToken (claims : String) : List Char :=
  (headerPart ++ "." ++ claims ++ ".AQID").toList

/-- A provider with one key, which verifies one signature. -/
def sampleHost : OidcHost ℚ where
  decodeBase64 part :=
    if part = "AQID".toList then some [1, 2, 3] else (sampleParts.lookup part).map Prod.fst
  fromSlice bytes := (sampleParts.map Prod.snd).lookup bytes
  now := .ok 1800000000
  oauthOidcJwks _ := .ok [⟨"k", [0xc5, 0x0d], [1, 0, 1]⟩]
  verify key _ signature := key.exponent == [1, 0, 1] && signature == [1, 2, 3]

set_option maxRecDepth 10000 in
/-- A token is accepted before the time from which it is valid, given as a float. -/
theorem early_token_accepted :
    oauthOidcTokenIsValid sampleHost (sampleToken floatPart) "i" "a" "u" = .ok true ∧
      ¬ InForce id (claimsFrom (.number (.float 4102444800))) 1800000000 := by
  refine ⟨rfl, fun h => ?_⟩
  rcases h _ rfl with ⟨number, hnumber, hle⟩
  cases hnumber
  norm_num [serdeNumberValue] at hle

set_option maxRecDepth 10000 in
/-- A token whose times are integers. -/
theorem accepted_in_order_integer : ∃ header claims signingInput signature now, Checked
      sampleHost (sampleToken integerPart) "i" "a" "u" header claims signingInput signature now ∧
        InForce id claims now := by
  have h : oauthOidcTokenIsValid sampleHost (sampleToken integerPart) "i" "a" "u" = .ok true := by
    rfl
  have hinteger := (accepted_in_order_iff id h).mpr ?_
  · rcases hinteger with ⟨header, claims, input, signature, now, _, hchecked⟩
    exact ⟨header, claims, input, signature, now, hchecked⟩
  intro header claims input signature now _ hopened value hvalue hnone
  have hsample : Opened sampleHost (sampleToken integerPart) _ _ _ _ :=
    ⟨_, _, _, _, _, rfl, rfl, rfl, rfl, rfl, rfl, rfl⟩
  cases hsample.claims_eq hopened
  cases hvalue
  cases hnone

end MuxRuntime.Http
