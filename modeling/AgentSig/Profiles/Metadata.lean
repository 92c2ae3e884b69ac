import AgentSig.Commons.Base64
import AgentSig.Profiles.Codes
import AgentSig.StructuredFields.Types

/-!
# Candidate metadata

The signature parameters that verification reads: when the signature was created and expires,
the thumbprint of its key, its algorithm and its nonce.

## Main definitions

* `NoncePolicy`, `CandidateMetadata`
* `validateProfileKeyId`, `isValidNonce`: the checks on a thumbprint and on a nonce
* `readCandidateMetadata`: the metadata of some signature parameters
-/

namespace AgentSig.Profiles

open Commons Core StructuredFields

/-- `NoncePolicy`. -/
inductive NoncePolicy
  | required
  | optional
  deriving DecidableEq, Repr

/-- `CandidateMetadata`. -/
structure CandidateMetadata where
  created : Number
  expires : Number
  keyid : Text
  algorithm : Option Text
  nonce : Option Text
  deriving DecidableEq, Repr

/-- A character of `[A-Za-z0-9_-]`. -/
def base64UrlChar (c : UInt16) : Bool := (Base64.urlSextet c).isSome

/-- `validateProfileKeyId`, of a string. -/
def validateProfileKeyId (value : Text) : Except ProfileError Text := do
  require (value.all base64UrlChar)
    (.metadata .invalidParameter "keyid must use unpadded base64url")
  require (value.length = 43)
    (.metadata .invalidParameter "keyid must decode to exactly 32 bytes")
  let bytes := (Base64.urlDecode value).getD []
  require (bytes.length = 32)
    (.metadata .invalidParameter "keyid must decode to exactly 32 bytes")
  require (Base64.urlEncode bytes = value)
    (.metadata .invalidParameter "keyid must use canonical base64url encoding")
  return value

/-- `isValidNonce`, of a string. -/
def isValidNonce (value : Text) (maximumBytes : ℤ) : Bool :=
  1 ≤ maximumBytes ∧ maximumBytes ≤ maxSafeInteger ∧ value ≠ [] ∧ value.length ≤ maximumBytes ∧
    value.all fun c => 0x20 ≤ c && c ≤ 0x7e

/-- A parameter that must be present. -/
def requireParameter (parameters : Parameters) (name : String) : Except ProfileError BareItem :=
  match getParameter parameters (ascii name) with
  | some value => return value
  | none => throw (.metadata .missingRequiredParameter (name ++ " is required"))

/-- The value of an integer. -/
def integerValue : BareItem → Except ProfileError Number
  | .integer value => return value
  | _ => throw (.metadata .malformedSignature "created and expires must be SF Integers")

/-- The value of the string parameter `name`. -/
def stringValue (name : String) : BareItem → Except ProfileError Text
  | .string value => return value
  | _ => throw (.metadata .malformedSignature (name ++ " must be an SF String"))

/-- The value of the string parameter `name`, if it is present. -/
def optionalString (parameters : Parameters) (name : String) : Except ProfileError (Option Text) :=
  match getParameter parameters (ascii name) with
  | some value => some <$> stringValue name value
  | none => return none

/-- `readCandidateMetadata`. -/
def readCandidateMetadata (parameters : Parameters) (noncePolicy : NoncePolicy)
    (maxNonceBytes : ℤ) : Except ProfileError CandidateMetadata := do
  require (0 ≤ maxNonceBytes ∧ maxNonceBytes ≤ maxSafeInteger)
    (.configuration .invalidResourceLimits)
  let created ← requireParameter parameters "created"
  let expires ← requireParameter parameters "expires"
  let keyid ← requireParameter parameters "keyid"
  let created ← integerValue created
  let expires ← integerValue expires
  let keyid ← stringValue "keyid" keyid
  let keyid ← validateProfileKeyId keyid
  let algorithm ← optionalString parameters "alg"
  let nonce ← optionalString parameters "nonce"
  require (¬ (nonce = none ∧ noncePolicy = .required))
    (.metadata .nonceRequired "nonce is required by local policy")
  require (∀ value ∈ nonce, isValidNonce value maxNonceBytes)
    (.metadata .nonceInvalid "nonce must be nonempty printable ASCII within maxNonceBytes")
  return { created, expires, keyid, algorithm, nonce }

end AgentSig.Profiles
