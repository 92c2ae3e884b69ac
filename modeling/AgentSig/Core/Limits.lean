import AgentSig.StructuredFields.Limits

/-!
# Limits and errors of the core

The limits of one operation on an HTTP message, the errors it rejects with, and the
translation of structured-field errors into them.

## Main definitions

* `CoreLimitName`, `CoreLimits`: the limits of one operation
* `CoreError`: the errors of the core
* `checkLimit`: one charge
* `LimitOverrides`, `resolveCoreLimits`: the limits that a caller overrides
* `withSfErrors`: the errors of a structured-field operation, translated
-/

namespace AgentSig.Core

open Commons StructuredFields

/-- The names of the limits of the core. -/
inductive CoreLimitName
  | maxSignatureHeaderBytes
  | maxSignatures
  | maxComponentsPerSignature
  | maxParameters
  | maxMessageHeaderBytes
  | maxTargetUriBytes
  | maxSignatureBaseBytes
  deriving DecidableEq, Repr

/-- The property name of a limit. -/
def CoreLimitName.text : CoreLimitName → String
  | .maxSignatureHeaderBytes => "maxSignatureHeaderBytes"
  | .maxSignatures => "maxSignatures"
  | .maxComponentsPerSignature => "maxComponentsPerSignature"
  | .maxParameters => "maxParameters"
  | .maxMessageHeaderBytes => "maxMessageHeaderBytes"
  | .maxTargetUriBytes => "maxTargetUriBytes"
  | .maxSignatureBaseBytes => "maxSignatureBaseBytes"

/-- Resolved limits, with the structured-field limits of the operation. -/
structure CoreLimits where
  get : CoreLimitName → ℕ
  safe : ∀ name, get name ≤ maxSafeInteger
  structuredFields : Limits

/-- `CORE_SF_LIMITS`. -/
def coreSfLimit : LimitName → ℕ
  | .maxInputBytes => 16384
  | .maxOutputBytes => 16384
  | .maxMembers => 1024
  | .maxInnerListItems => 256
  | .maxParameters => 256
  | .maxKeyLength => 1024
  | .maxTokenLength => 8192
  | .maxDecodedBytes => 16384
  | .maxTotalOccurrences => 65536

/-- `CORE_SF_LIMITS`, resolved. -/
def CORE_SF_LIMITS : Limits := ⟨coreSfLimit, fun name => by cases name <;> decide⟩

/-- `DEFAULT_CORE_LIMITS`. -/
def defaultCoreLimit : CoreLimitName → ℕ
  | .maxSignatureHeaderBytes => 16384
  | .maxSignatures => 1024
  | .maxComponentsPerSignature => 256
  | .maxParameters => 256
  | .maxMessageHeaderBytes => 16384
  | .maxTargetUriBytes => 16384
  | .maxSignatureBaseBytes => 16384

/-- `DEFAULT_CORE_LIMITS`, resolved. -/
def DEFAULT_CORE_LIMITS : CoreLimits :=
  ⟨defaultCoreLimit, fun name => by cases name <;> decide, CORE_SF_LIMITS⟩

/-- `RejectionReason`. -/
inductive RejectionReason
  | malformed
  | unsupported
  | missingComponent
  | invalidKey
  | algorithmMismatch
  | signatureMismatch
  | resourceLimit
  deriving DecidableEq, Repr

/-- `SignatureError`, `SignatureLimitError` and `SignatureConfigurationError`. -/
inductive CoreError
  | signature (reason : RejectionReason)
  | limit (limit : String) (maximum observed : ℕ)
  | configuration
  deriving DecidableEq, Repr

/-- `throw new SignatureError("malformed")`. -/
abbrev malformed : CoreError := .signature .malformed

/-- `throw new SignatureError("unsupported")`. -/
abbrev unsupported : CoreError := .signature .unsupported

/-- `throw new SignatureError("missing-component")`. -/
abbrev missingComponent : CoreError := .signature .missingComponent

/-- `checkLimit`. -/
def checkLimit (L : CoreLimits) (limit : CoreLimitName) (observed : ℕ) : Except CoreError Unit := do
  require (observed ≤ maxSafeInteger) CoreError.configuration
  require (observed ≤ L.get limit) (CoreError.limit limit.text (L.get limit) observed)

/-- A charge passes exactly when it is within its limit. -/
@[simp] theorem checkLimit_eq_ok {L : CoreLimits} {limit : CoreLimitName} {observed : ℕ}
    {u : Unit} : checkLimit L limit observed = .ok u ↔ observed ≤ L.get limit := by
  have := L.safe limit
  simp only [checkLimit, bind_eq_ok, require_eq_ok, exists_const]
  exact ⟨And.right, fun h => ⟨h.trans this, h⟩⟩

/-- The translation of `withSfErrors`. -/
def CoreError.ofSf : SfError → CoreError
  | .limit name maximum observed => .limit ("structuredFields." ++ name.text) maximum observed
  | .invalidSyntax _ _ => malformed
  | .serialization _ => malformed
  | .configuration _ => .configuration

/-- `withSfErrors`, of an operation that throws structured-field errors only. -/
def withSfErrors {α : Type} : Except SfError α → Except CoreError α
  | .ok a => .ok a
  | .error e => .error (.ofSf e)

@[simp] theorem withSfErrors_eq_ok {α : Type} {x : Except SfError α} {a : α} :
    withSfErrors x = .ok a ↔ x = .ok a := by
  cases x <;> simp [withSfErrors]

/-! ## Overrides -/

/-- All names of limits of the core. -/
def CoreLimitName.all : List CoreLimitName :=
  [.maxSignatureHeaderBytes, .maxSignatures, .maxComponentsPerSignature, .maxParameters,
    .maxMessageHeaderBytes, .maxTargetUriBytes, .maxSignatureBaseBytes]

/-- `LimitOverrides`: own overrides by name. A value that is no number counts as a fraction. -/
structure LimitOverrides where
  core : List (String × Number)
  structuredFields : List (String × Number)

/-- The limit of a name, overridden or the default. -/
def LimitOverrides.limit (overrides : LimitOverrides) (name : CoreLimitName) :
    {k : ℕ // k ≤ maxSafeInteger} :=
  ((overrides.core.find? fun e => e.1 = name.text).bind fun e => resolveLimit e.2).getD
    ⟨DEFAULT_CORE_LIMITS.get name, DEFAULT_CORE_LIMITS.safe name⟩

/-- `resolveCoreLimits`. -/
def resolveCoreLimits (overrides : LimitOverrides) : Except CoreError CoreLimits := do
  require (overrides.core.all fun e => CoreLimitName.all.any fun name => name.text = e.1)
    CoreError.configuration
  require (overrides.core.all fun e => (resolveLimit e.2).isSome) CoreError.configuration
  let structuredFields ← withSfErrors (resolveLimitsFrom CORE_SF_LIMITS overrides.structuredFields)
  return {
    get := fun name => (overrides.limit name).1
    safe := fun name => (overrides.limit name).2
    structuredFields }

end AgentSig.Core
