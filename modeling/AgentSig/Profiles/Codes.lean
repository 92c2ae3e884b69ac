import AgentSig.Core.Limits

/-!
# Result codes

The codes of the result catalogue, and the ways in which an operation on a request throws: a
rejection, which is a statement about the request, or an error of the core or of the caller's
configuration.

## Main definitions

* `UnsignedCode`, `InvalidCode`, `UnverifiedCode`, `ConfigurationCode`, `StoreOutcome`
* `ProfileRejection`: the status and the reason of a rejection
* `ProfileError`: what an operation throws
* `withCore`: an operation of the core, its errors kept
* `classify`: errors of the core turned into rejections
-/

namespace AgentSig.Profiles

open Commons Core StructuredFields

/-- `RESULT_CODES.unsigned`. -/
inductive UnsignedCode
  | noSignature
  | noWebBotAuthCandidate
  deriving DecidableEq, Repr

/-- `RESULT_CODES.invalid`. -/
inductive InvalidCode
  | malformedSignature
  | malformedAgent
  | ambiguousSignatures
  | ambiguousProfile
  | agentLabelMismatch
  | agentBindingMismatch
  | missingRequiredParameter
  | invalidParameter
  | invalidTimeRange
  | createdInFuture
  | signatureExpired
  | signatureTooOld
  | lifetimeExceeded
  | insufficientCoverage
  | keyIdMismatch
  | algorithmMismatch
  | signatureMismatch
  | nonceRequired
  | nonceInvalid
  | replayDetected
  deriving DecidableEq, Repr

/-- `RESULT_CODES.unverified`. -/
inductive UnverifiedCode
  | unsupportedProfile
  | unsupportedAlgorithm
  | unsupportedDiscoveryType
  | profileDisallowed
  | unknownKey
  | agentBindingMissing
  | resourceLimit
  | replayStoreUnavailable
  | perKeyQuotaExceeded
  | clockUnavailable
  | testKeyDisallowed
  deriving DecidableEq, Repr

/-- `RESULT_CODES.configurationErrors`. -/
inductive ConfigurationCode
  | invalidJwks
  | invalidKeyConfiguration
  | invalidAgentBinding
  | invalidTimePolicy
  | invalidReplayPolicy
  | invalidResourceLimits
  | invalidClockConfiguration
  | invalidCandidatePolicy
  deriving DecidableEq, Repr

/-- `RESULT_CODES.storeOutcomes`. -/
inductive StoreOutcome
  | accepted
  | replayed
  | unavailable
  | perKeyQuotaExceeded
  deriving DecidableEq, Repr

/-- `ProfileRejection`. -/
inductive ProfileRejection
  | invalid (reason : InvalidCode)
  | unverified (reason : UnverifiedCode)
  deriving DecidableEq, Repr

/-- `ProfileSupportDiagnostic`, of a component. -/
structure ComponentDiagnostic where
  profile : String
  component : Text
  parameter : Option Text
  source : String
  deriving DecidableEq, Repr

/-- What an operation throws: `CandidateRejection` and its subclasses, the errors of the core,
`ProfileConfigurationError`, and the errors of internal checks. -/
inductive ProfileError
  | candidate (rejection : ProfileRejection)
  | duplicate (reason : InvalidCode) (repeatedName : Text)
  | metadata (reason : InvalidCode) (rule : String)
  | support (diagnostic : ComponentDiagnostic)
  | core (error : CoreError)
  | configuration (code : ConfigurationCode)
  | internal (message : String)
  deriving DecidableEq, Repr

/-- `rejection`, of an error that is a `CandidateRejection`. -/
def ProfileError.rejection? : ProfileError → Option ProfileRejection
  | .candidate rejection => some rejection
  | .duplicate reason _ => some (.invalid reason)
  | .metadata reason _ => some (.invalid reason)
  | .support _ => some (.unverified .unsupportedProfile)
  | .core _ => none
  | .configuration _ => none
  | .internal _ => none

/-- `throw new CandidateRejection({ status: "invalid", reason })`. -/
abbrev invalid (reason : InvalidCode) : ProfileError := .candidate (.invalid reason)

/-- `throw new CandidateRejection({ status: "unverified", reason })`. -/
abbrev unverified (reason : UnverifiedCode) : ProfileError := .candidate (.unverified reason)

variable {α : Type}

/-- An operation of the core within a profile operation. -/
def withCore : Except CoreError α → Except ProfileError α
  | .ok a => .ok a
  | .error e => .error (.core e)

/-- A structured-field operation under `withSfErrors`. -/
def withSf (x : Except SfError α) : Except ProfileError α := withCore (withSfErrors x)

/-- The rejection of a `SignatureError`; other errors pass. -/
def ProfileError.classify (code : InvalidCode) : ProfileError → ProfileError
  | .core (.limit _ _ _) => unverified .resourceLimit
  | .core (.signature .resourceLimit) => unverified .resourceLimit
  | .core (.signature _) => invalid code
  | e => e

/-- An operation whose `SignatureError`s become rejections. -/
def classify (code : InvalidCode) (x : Except ProfileError α) : Except ProfileError α :=
  x.mapError (·.classify code)

@[simp] theorem withCore_eq_ok {x : Except CoreError α} {a : α} :
    withCore x = .ok a ↔ x = .ok a := by
  cases x <;> simp [withCore]

@[simp] theorem withSf_eq_ok {x : Except SfError α} {a : α} : withSf x = .ok a ↔ x = .ok a := by
  rw [withSf, withCore_eq_ok, withSfErrors_eq_ok]

@[simp] theorem classify_eq_ok {code : InvalidCode} {x : Except ProfileError α} {a : α} :
    classify code x = .ok a ↔ x = .ok a := by
  cases x <;> simp [classify, Except.mapError]

end AgentSig.Profiles
