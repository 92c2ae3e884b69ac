import AgentSig.Core.Crypto
import AgentSig.Profiles.AgentBindings
import AgentSig.Profiles.Engine
import AgentSig.Profiles.JwkPolicy
import AgentSig.Profiles.Jwks
import AgentSig.Profiles.KeyMaterial
import AgentSig.Profiles.OwnedMemory
import AgentSig.Profiles.SignedClaim
import AgentSig.Redis.Thumbprints

/-!
# The evaluation of a candidate

An offline verifier evaluates each candidate that was selected: the profile and the components it
covers, its claim and its metadata, the key that its thumbprint selects, the identity of that key, the
window in which it is acceptable, and its signature. The clock is read before the signature is verified
and once more after that. What the candidate gets wrong is a rejection; a wrong configuration is an
error.

## Main definitions

* `VerificationConfiguration`: the configuration of an offline verifier
* `candidateFinding`, `evaluateCandidate`: the evaluation
* `Found`: what a successful evaluation has found out

## Main results

* `candidateFinding_eq_ok`: the steps of a successful evaluation
* `Found.findsUnder`: the findings are those that the histories of a context assume
* `evaluateCandidate_eligible`: a candidate is eligible exactly if its evaluation is successful
-/

namespace AgentSig.Profiles

open Commons Core Redis StructuredFields

/-- `ResolvedVerificationProfile`. -/
structure ResolvedVerificationProfile where
  time : TimePolicy
  noncePolicy : NoncePolicy

/-- `VerificationConfiguration`, without the context that its calls share. -/
structure VerificationConfiguration where
  limits : ProfileLimits
  coreLimits : CoreLimits
  jwks : LoadedJwks
  scope : Text
  candidateMode : CandidateMode
  aggregate : AggregateRule
  allowedProfiles : List WebBotAuthProfile
  profiles : WebBotAuthProfile → ResolvedVerificationProfile
  bindings : List AgentBinding
  requireBinding : Bool
  allowTestKeys : Bool
  fieldTypes : List (Text × FieldType)

namespace VerificationConfiguration

/-- The part that the engine reads. -/
def engine (config : VerificationConfiguration) : EngineConfig where
  coreLimits := config.coreLimits
  maxCandidates := config.limits.maxCandidates
  scope := config.scope
  candidateMode := config.candidateMode
  aggregate := config.aggregate
  time profile := (config.profiles profile).time

/-- The part that the evaluation of a claim reads. -/
def evaluation (config : VerificationConfiguration) : EvaluationConfig where
  core := config.coreLimits
  fieldTypes := config.fieldTypes.map fun e => (e.1, some e.2)
  maxCandidates := config.limits.maxCandidates
  maxAgentUrlBytes := config.limits.maxAgentUrlBytes
  maxNonceBytes := config.limits.maxNonceBytes
  noncePolicy profile := (config.profiles profile).noncePolicy

end VerificationConfiguration

/-! ## The key of a candidate -/

/-- The key object of a public key. -/
def publicKeyObject (octets : List UInt8) : KeyObject := ⟨.publicKey, some (ascii "ed25519"), octets⟩

/-- The export of a public key. -/
def exportedKey (octets : List UInt8) : KeyInput where
  hasD := false
  kty := some (.text (ascii "OKP"))
  crv := some (.text (ascii "Ed25519"))
  x := some (.text (Base64.urlEncode octets))

/-- `ed25519Thumbprint`, of the export of a public key. -/
def ed25519Thumbprint (host : JwksHost) (octets : List UInt8) : Except ProfileError Text := do
  let material ← publicMaterial (some (exportedKey octets))
  return thumbprintOf host (ed25519Members material.x)

/-- `assertSelectedKeyIdentity`, where the thumbprint of the key is recomputed. -/
def assertKeyIdentity (host : JwksHost) (keyid : Text) (octets : List UInt8) :
    Except ProfileError Text := do
  let identity ← validateProfileKeyId keyid
  let recomputed ← ed25519Thumbprint host octets
  assertSelectedKeyIdentity identity recomputed

/-- The check of the `alg` of a candidate. An algorithm of HTTP signatures contradicts a key that was
found; other names are not supported. -/
def checkAlgorithm (selected : JwksLookup) (algorithm : Option Text) : Except ProfileError Unit :=
  match algorithm with
  | none => return ()
  | some name => require (name = ascii "ed25519")
      (if (selected matches .found _) ∧ HTTP_SIGNATURE_ALGORITHM_NAMES.contains name then
        invalid .algorithmMismatch
      else unverified .unsupportedAlgorithm)

/-- The key that a lookup has found. -/
def selectedKey : JwksLookup → Except ProfileError LoadedVerificationKey
  | .found key => return key
  | .unverified reason => throw (unverified reason)

/-! ## Evaluation -/

/-- The steps of the evaluation that read the claim and the metadata. -/
def readClaim (O : OriginPlatform) (config : EvaluationConfig) (signature : ParsedSignature)
    (agent : ParsedAgentHeader) : Except ProfileError (AgentClaim × CandidateMetadata) := do
  assertSupportedComponents signature.input agent.profile
  let claim ← resolveAgentClaim O agent signature.input.label config.maxAgentUrlBytes
  assertRequiredCoverage signature.input agent.profile
  let metadata ← readCandidateMetadata signature.input.parameters (config.noncePolicy agent.profile)
    config.maxNonceBytes
  return (claim, metadata)

/-- What the verification of a signature throws, in an evaluation. -/
def ofCrypto {α : Type} : Except CryptoError α → Except ProfileError α
  | .ok a => .ok a
  | .error (.core e) => .error (.core e)
  | .error .backend => .error (.internal "verify")

/-- The rejection of a signature that was not verified. -/
def requireValid : CryptoVerification → Except ProfileError Unit
  | .signatureValid _ => return ()
  | .rejected reason => throw (engineError (.core (.signature reason)))

section Evaluation

variable (B : SigningBackend) (P : Platform) (O : OriginPlatform) (host : JwksHost)
  (config : VerificationConfiguration) (request : RequestParts) (signature : ParsedSignature)
  (agent : ParsedAgentHeader)

/-- The verification of the signature of a candidate. -/
def verifyCandidateSignature (key : LoadedVerificationKey) : Except CryptoError CryptoVerification :=
  verifyHttpSignatureCryptography B P config.coreLimits
    (evaluationOptions config.evaluation agent.profile) (.request request) signature
    (some (publicKeyObject key.publicKey))

/-- The body of `evaluateCandidate`; `now` and `later` are what the two calls of `now` of the controller
do, before the signature is verified and after that. -/
def candidateFinding (now later : Except ProfileError ℤ) :
    Except ProfileError (Finding × LocalIdentityProposal) := do
  require (agent.profile ∈ config.allowedProfiles) (unverified .profileDisallowed)
  let read ← readClaim O config.evaluation signature agent
  let claim := read.1
  let metadata := read.2
  let selected := config.jwks.lookup metadata.keyid
  checkAlgorithm selected metadata.algorithm
  let key ← selectedKey selected
  let thumbprint ← assertKeyIdentity host metadata.keyid key.publicKey
  require (key.knownTestKey → config.allowTestKeys) (unverified .testKeyDisallowed)
  let identity ← proposeIdentity O config.limits config.bindings (some thumbprint) claim.claimedUrl
    (some config.requireBinding)
  let time := (config.profiles agent.profile).time
  let now ← now
  time.check metadata.created metadata.expires now
  let crypto ← ofCrypto (verifyCandidateSignature B P config request signature agent key)
  -- The clock is read before a rejection by the cryptography is looked at.
  let later ← later
  requireValid crypto
  time.check metadata.created metadata.expires later
  return (⟨metadata, thumbprint, claim.claimedUrl⟩, identity)

/-- `evaluateCandidate`. -/
def evaluateCandidate (now later : Except ProfileError ℤ) : Except ProfileError CandidateEvaluation :=
  match candidateFinding B P O host config request signature agent now later with
  | .ok found => return .eligible (eligibleCandidate config.engine agent.profile signature found.1)
  | .error e =>
    match (engineError e).rejection? with
    | some rejection => return .rejected ⟨rejection, signature.input.label, some agent.profile⟩
    | none => throw (engineError e)

end Evaluation

/-! ## Successful evaluations -/

variable {B : SigningBackend} {P : Platform} {O : OriginPlatform} {host : JwksHost}
  {config : VerificationConfiguration} {request : RequestParts} {signature : ParsedSignature}
  {agent : ParsedAgentHeader} {now later : Except ProfileError ℤ}

/-- Evaluating a claim reads the agent header first. -/
theorem evaluateClaim_eq_readClaim (O : OriginPlatform) (config : EvaluationConfig)
    (request : RequestParts) (signature : ParsedSignature) :
    evaluateClaim O config request signature =
      parseAgentHeader config.core request >>= readClaim O config signature := rfl

theorem checkAlgorithm_eq_ok {selected : JwksLookup} {algorithm : Option Text} {u : Unit} :
    checkAlgorithm selected algorithm = .ok u ↔ ∀ name ∈ algorithm, name = ascii "ed25519" := by
  cases algorithm with
  | none => simp [checkAlgorithm]
  | some name => simp [checkAlgorithm]

theorem selectedKey_eq_ok {selected : JwksLookup} {key : LoadedVerificationKey} :
    selectedKey selected = .ok key ↔ selected = .found key := by
  cases selected <;> simp [selectedKey]

@[simp] theorem ofCrypto_eq_ok {α : Type} {x : Except CryptoError α} {a : α} :
    ofCrypto x = .ok a ↔ x = .ok a := by
  rcases x with (_ | _) | _ <;> simp [ofCrypto]

theorem requireValid_eq_ok {crypto : CryptoVerification} {u : Unit} :
    requireValid crypto = .ok u ↔ ∃ input, crypto = .signatureValid input := by
  cases crypto <;> simp [requireValid]

theorem ed25519Thumbprint_eq_ok {octets : List UInt8} {thumbprint : Text} :
    ed25519Thumbprint host octets = .ok thumbprint ↔ octets.length = 32 ∧
      thumbprint = thumbprintOf host (ed25519Members (Base64.urlEncode octets)) := by
  simp only [ed25519Thumbprint, bind_eq_ok, publicMaterial_eq_ok, exportedKey, pure_eq_ok]
  constructor
  · rintro ⟨⟨x⟩, ⟨-, -, -, hx, octets', hlength, rfl⟩, rfl⟩
    obtain rfl := Base64.urlEncode_injective (KeyProperty.text.inj (Option.some.inj hx))
    exact ⟨hlength, rfl⟩
  · rintro ⟨hlength, rfl⟩
    exact ⟨⟨_⟩, ⟨trivial, trivial, trivial, rfl, octets, hlength, rfl⟩, rfl⟩

theorem assertKeyIdentity_eq_ok {keyid thumbprint : Text} {octets : List UInt8} :
    assertKeyIdentity host keyid octets = .ok thumbprint ↔ Base64.Canonical 32 keyid ∧
      ed25519Thumbprint host octets = .ok keyid ∧ thumbprint = keyid := by
  simp only [assertKeyIdentity, assertSelectedKeyIdentity, bind_eq_ok, validateProfileKeyId_eq_ok,
    require_eq_ok, exists_const, pure_eq_ok]
  constructor
  · rintro ⟨_, ⟨hcanonical, rfl⟩, _, hrecomputed, _, ⟨-, rfl⟩, rfl, rfl⟩
    exact ⟨hcanonical, hrecomputed, rfl⟩
  · rintro ⟨hcanonical, hrecomputed, rfl⟩
    exact ⟨_, ⟨hcanonical, rfl⟩, _, hrecomputed, _, ⟨hcanonical, rfl⟩, rfl, rfl⟩

/-- What a successful evaluation has found out. -/
structure Found (B : SigningBackend) (P : Platform) (O : OriginPlatform) (host : JwksHost)
    (config : VerificationConfiguration) (request : RequestParts) (signature : ParsedSignature)
    (agent : ParsedAgentHeader) (claim : AgentClaim) (metadata : CandidateMetadata)
    (key : LoadedVerificationKey) (identity : LocalIdentityProposal) : Prop where
  allowed : agent.profile ∈ config.allowedProfiles
  claimed : readClaim O config.evaluation signature agent = .ok (claim, metadata)
  algorithm : ∀ name ∈ metadata.algorithm, name = ascii "ed25519"
  selected : config.jwks.lookup metadata.keyid = .found key
  identified : Base64.Canonical 32 metadata.keyid ∧
    ed25519Thumbprint host key.publicKey = .ok metadata.keyid
  testKey : key.knownTestKey → config.allowTestKeys
  proposed : proposeIdentity O config.limits config.bindings (some metadata.keyid) claim.claimedUrl
    (some config.requireBinding) = .ok identity
  verified : ∃ input, verifyCandidateSignature B P config request signature agent key =
    .ok (.signatureValid input)

/-- The steps of a successful evaluation. -/
theorem candidateFinding_eq_ok {finding : Finding} {identity : LocalIdentityProposal} :
    candidateFinding B P O host config request signature agent now later = .ok (finding, identity) ↔
      ∃ claim metadata key second second',
        Found B P O host config request signature agent claim metadata key identity ∧
        finding = ⟨metadata, metadata.keyid, claim.claimedUrl⟩ ∧
        now = .ok second ∧ later = .ok second' ∧
        (config.profiles agent.profile).time.Accepts metadata.created metadata.expires second ∧
        (config.profiles agent.profile).time.Accepts metadata.created metadata.expires second' := by
  simp only [candidateFinding, bind_eq_ok, require_eq_ok, exists_const, checkAlgorithm_eq_ok,
    selectedKey_eq_ok, assertKeyIdentity_eq_ok, TimePolicy.check_eq_ok, ofCrypto_eq_ok,
    requireValid_eq_ok, pure_eq_ok, Prod.mk.injEq, Prod.exists]
  constructor
  · rintro ⟨hallowed, claim, metadata, hclaim, halgorithm, key, hkey, _, ⟨hcanonical, hthumbprint, rfl⟩,
      htest, identity, hidentity, second, rfl, htime, _, hcrypto, second', rfl, ⟨input, rfl⟩, htime',
      rfl, rfl⟩
    exact ⟨claim, metadata, key, second, second', ⟨hallowed, hclaim, halgorithm, hkey,
      ⟨hcanonical, hthumbprint⟩, htest, hidentity, input, hcrypto⟩, rfl, rfl, rfl, htime, htime'⟩
  · rintro ⟨claim, metadata, key, second, second', h, rfl, rfl, rfl, htime, htime'⟩
    obtain ⟨input, hcrypto⟩ := h.verified
    exact ⟨h.allowed, claim, metadata, h.claimed, h.algorithm, key, h.selected, _,
      ⟨h.identified.1, h.identified.2, rfl⟩, h.testKey, identity, h.proposed, second, rfl, htime, _,
      hcrypto, second', rfl, ⟨input, rfl⟩, htime', rfl, rfl⟩

/-- What an evaluation finds out of a request is what the histories of a context assume of it. -/
theorem Found.findsUnder {claim : AgentClaim} {metadata : CandidateMetadata}
    {key : LoadedVerificationKey} {identity : LocalIdentityProposal}
    (h : Found B P O host config request signature agent claim metadata key identity)
    (hagent : parseAgentHeader config.coreLimits request = .ok agent) :
    FindsUnder config.limits.replay ⟨metadata, metadata.keyid, claim.claimedUrl⟩ := by
  refine ⟨O, config.evaluation, request, signature, metadata.keyid, rfl, ?_⟩
  have hclaim : evaluateClaim O config.evaluation request signature = .ok (claim, metadata) := by
    rw [evaluateClaim_eq_readClaim, bind_eq_ok]
    exact ⟨agent, hagent, h.claimed⟩
  have hidentity : assertSelectedKeyIdentity metadata.keyid metadata.keyid = .ok metadata.keyid := by
    simp only [assertSelectedKeyIdentity, bind_eq_ok, validateProfileKeyId_eq_ok, require_eq_ok,
      exists_const, pure_eq_ok]
    exact ⟨_, ⟨h.identified.1, rfl⟩, rfl, trivial⟩
  simp only [evaluateFinding, hclaim, ok_bind, hidentity]
  rfl

/-- A candidate is eligible exactly if its evaluation is successful. -/
theorem evaluateCandidate_eligible {candidate : EligibleCandidate} :
    evaluateCandidate B P O host config request signature agent now later = .ok (.eligible candidate) ↔
      ∃ finding identity, candidateFinding B P O host config request signature agent now later =
        .ok (finding, identity) ∧
        candidate = eligibleCandidate config.engine agent.profile signature finding := by
  unfold evaluateCandidate
  constructor
  · intro h
    split at h
    · rename_i found hfound
      exact ⟨found.1, found.2, hfound, (CandidateEvaluation.eligible.inj (pure_eq_ok.mp h)).symm⟩
    · split at h <;> simp at h
  · rintro ⟨finding, identity, hfinding, rfl⟩
    rw [hfinding]
    rfl

end AgentSig.Profiles
